/-!
# Tables by name

A finite map from names, as a list of entries of which no two have the same name.

* `lookup_insert`, `lookup_erase`, `lookup_filter`, `lookup_map`: what an operation does to every
  look-up.
* `has_eq_true_iff`, `mem_of_lookup`, `lookup_of_mem`: look-ups, names and entries of a table.
* `nodup_insert`, `nodup_filter`: no operation gives a name twice.
-/

namespace ImageRollout

/-- Entries by name. -/
abbrev Table (α : Type) := List (String × α)

namespace Table

variable {α : Type}

/-- The table without a name. -/
def erase (name : String) (t : Table α) : Table α := t.filter (·.1 ≠ name)

/-- The table with a value for a name, which replaces the one it had. -/
def insert (name : String) (value : α) (t : Table α) : Table α := (name, value) :: erase name t

/-- The names of the table. -/
def names (t : Table α) : List String := t.map (·.1)

/-- Whether the table has the name. -/
def has (name : String) (t : Table α) : Bool := (t.lookup name).isSome

/-- The first entry decides for its own name. -/
theorem lookup_cons (name other : String) (value : α) (t : Table α) :
    List.lookup other ((name, value) :: t) =
      if other = name then some value else t.lookup other := by
  rw [List.lookup_cons]
  by_cases h : other = name
  · simp [h]
  · rw [beq_eq_false_iff_ne.2 h, if_neg h]

theorem lookup_erase (name other : String) (t : Table α) :
    (t.erase name).lookup other = if other = name then none else t.lookup other := by
  induction t with
  | nil => simp [erase]
  | cons e rest ih =>
    obtain ⟨k, v⟩ := e
    rw [erase] at ih ⊢
    by_cases hk : k = name
    · rw [List.filter_cons_of_neg (by simp [hk]), ih, lookup_cons]
      by_cases ho : other = name <;> simp [ho, hk]
    · rw [List.filter_cons_of_pos (by simp [hk]), lookup_cons, ih, lookup_cons]
      by_cases ho : other = k
      · simp [ho, hk]
      · simp [ho]

theorem lookup_insert (name other : String) (value : α) (t : Table α) :
    (t.insert name value).lookup other = if other = name then some value else t.lookup other := by
  rw [insert, lookup_cons, lookup_erase]
  by_cases h : other = name <;> simp [h]

theorem has_insert (name other : String) (value : α) (t : Table α) :
    (t.insert name value).has other = if other = name then true else t.has other := by
  rw [has, lookup_insert]
  split <;> rfl

theorem has_erase (name other : String) (t : Table α) :
    (t.erase name).has other = if other = name then false else t.has other := by
  rw [has, lookup_erase]
  split <;> rfl

/-- A test of the names alone keeps or loses the look-up of a name as a whole. -/
theorem lookup_filter (keeps : String → Bool) (name : String) (t : Table α) :
    List.lookup name (t.filter (keeps ·.1)) = if keeps name then t.lookup name else none := by
  induction t with
  | nil => simp
  | cons e rest ih =>
    obtain ⟨k, v⟩ := e
    rw [List.filter_cons]
    by_cases hk : keeps k
    · rw [if_pos hk, lookup_cons, lookup_cons, ih]
      by_cases hn : name = k
      · simp [hn, hk]
      · simp [hn]
    · rw [if_neg hk, ih, lookup_cons]
      by_cases hn : name = k
      · simp [hn, hk]
      · simp [hn]

/-- What is done to all values is done to the one that a look-up finds. -/
theorem lookup_map {β : Type} (f : α → β) (name : String) (t : Table α) :
    List.lookup name (t.map fun e => (e.1, f e.2)) = (t.lookup name).map f := by
  induction t with
  | nil => rfl
  | cons e rest ih =>
    obtain ⟨k, v⟩ := e
    rw [List.map_cons, lookup_cons, lookup_cons, ih]
    by_cases hn : name = k <;> simp [hn]

theorem mem_of_lookup {name : String} {value : α} {t : Table α}
    (h : List.lookup name t = some value) : (name, value) ∈ t := by
  induction t with
  | nil => cases h
  | cons e rest ih =>
    obtain ⟨k, v⟩ := e
    rw [lookup_cons] at h
    by_cases hn : name = k
    · rw [if_pos hn] at h
      cases h
      exact hn ▸ List.mem_cons_self
    · rw [if_neg hn] at h
      exact List.mem_cons_of_mem _ (ih h)

/-- A table has exactly the names of its entries. -/
theorem has_eq_true_iff {name : String} {t : Table α} :
    t.has name = true ↔ name ∈ t.names := by
  induction t with
  | nil => simp [has, names]
  | cons e rest ih =>
    obtain ⟨k, v⟩ := e
    rw [has] at ih ⊢
    rw [lookup_cons]
    by_cases hn : name = k
    · simp [hn, names]
    · rw [if_neg hn, ih]
      simp [names, hn]

/-- Where no name is given twice, every entry is found. -/
theorem lookup_of_mem {name : String} {value : α} {t : Table α} (hnodup : t.names.Nodup)
    (h : (name, value) ∈ t) : List.lookup name t = some value := by
  induction t with
  | nil => cases h
  | cons e rest ih =>
    obtain ⟨k, v⟩ := e
    obtain ⟨hk, hrest⟩ := List.nodup_cons.1 hnodup
    rw [lookup_cons]
    rcases List.mem_cons.1 h with heq | hmem
    · cases heq
      rw [if_pos rfl]
    · have hne : name ≠ k := fun hn => hk (List.mem_map.2 ⟨_, hmem, hn⟩)
      rw [if_neg hne]
      exact ih hrest hmem

theorem nodup_filter {keeps : String × α → Bool} {t : Table α} (h : t.names.Nodup) :
    (names (t.filter keeps)).Nodup :=
  h.sublist (List.filter_sublist.map _)

theorem nodup_insert {name : String} {value : α} {t : Table α} (h : t.names.Nodup) :
    (t.insert name value).names.Nodup := by
  refine List.nodup_cons.2 ⟨?_, nodup_filter h⟩
  intro hmem
  obtain ⟨e, he, hname⟩ := List.mem_map.1 hmem
  simp [erase, hname] at he

end Table

end ImageRollout
