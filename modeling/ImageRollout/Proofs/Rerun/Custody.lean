import Mathlib.Data.Finset.Basic
import Mathlib.Data.Finset.Insert
import Mathlib.Data.List.Nodup
import ImageRollout.Rerun.Claims

/-!
# One set of names, and the claims on them

Claims are known by their holders.  What the holders share is less: one set of names, which knows of
no holder.  A call puts its name into the set, and gives a claim if the name was not there.  A claim
that is dropped takes its name out of the set, whoever has it and whenever that is; the result of a
refused call takes nothing.  That the set has the names of the live claims, and that no claim takes
away the name of another one, is up to the order of these moves alone.

* `Claims.mem_names_release`, `Claims.claim?_cases`: which names are claimed after a move.
* `Custody.Accounts.call`, `Custody.Accounts.drop`: the set has the claimed names, move by move.
* `Custody.names_of_live_claims`: the set and the live claims after every run of moves.
-/

namespace ImageRollout.Rerun

namespace Claims

variable {c : Claims} {holder other name : String}

/-- What is claimed is held by somebody. -/
theorem mem_names_iff (hkeys : c.held.names.Nodup) :
    name ∈ c.names ↔ ∃ holder, List.lookup holder c.held = some name := by
  constructor
  · intro hname
    obtain ⟨⟨holder, _⟩, he, rfl⟩ := List.mem_map.1 hname
    exact ⟨holder, Table.lookup_of_mem hkeys he⟩
  · rintro ⟨holder, hlookup⟩
    exact List.mem_map.2 ⟨(holder, name), Table.mem_of_lookup hlookup, rfl⟩

/-- A name has one holder. -/
theorem holder_unique (h : List.lookup holder c.held = some name)
    (h' : List.lookup other c.held = some name) : holder = other := by
  have heq : (holder, name) = (other, name) :=
    List.inj_on_of_nodup_map c.names_nodup (Table.mem_of_lookup h) (Table.mem_of_lookup h') rfl
  exact congrArg Prod.fst heq

/-- **Letting go frees the name that is held**, and no other. -/
theorem mem_names_release (hkeys : c.held.names.Nodup) :
    name ∈ (c.release holder).names ↔
      name ∈ c.names ∧ List.lookup holder c.held ≠ some name := by
  have hlookup (other : String) : List.lookup other (c.release holder).held =
      if other = holder then none else List.lookup other c.held :=
    Table.lookup_erase holder other c.held
  have hkeys' : (c.release holder).held.names.Nodup := Table.nodup_filter hkeys
  rw [mem_names_iff hkeys', mem_names_iff hkeys]
  constructor
  · rintro ⟨other, hother⟩
    rw [hlookup, Option.ite_none_left_eq_some] at hother
    exact ⟨⟨other, hother.2⟩, fun hholder => hother.1 (holder_unique hother.2 hholder)⟩
  · rintro ⟨⟨other, hother⟩, hne⟩
    have hother' : other ≠ holder := fun heq => hne (heq ▸ hother)
    exact ⟨other, by rw [hlookup, if_neg hother', hother]⟩

/-- A call is refused if the name is claimed, and otherwise its holder has the claim. -/
theorem claim?_cases (c : Claims) (holder name : String) :
    (name ∈ c.names ∧ c.claim? holder name = none) ∨
      (name ∉ c.names ∧ ∃ c', c.claim? holder name = some c' ∧
        c'.held = c.held.insert holder name ∧ c'.names = name :: (c.release holder).names) := by
  by_cases hname : name ∈ c.names
  · exact .inl ⟨hname, dif_pos hname⟩
  · exact .inr ⟨hname, _, dif_neg hname, rfl, rfl⟩

end Claims

/-- A claim that was granted. -/
structure Claim where
  name : String
  deriving DecidableEq, Repr

namespace Claim

/-- What a call for a name gives, where these names are in the set. -/
def ofCall (name : String) (names : Finset String) : Option Claim :=
  if name ∈ names then none else some { name }

/-- What is left of the names when the result of a call is dropped. -/
def dropFrom (names : Finset String) : Option Claim → Finset String
  | some claim => names.erase claim.name
  | none => names

/-- A dropped result takes its own name out of the set and no other. -/
theorem mem_dropFrom {names : Finset String} {result : Option Claim} {name : String} :
    name ∈ dropFrom names result ↔ name ∈ names ∧ result ≠ some { name } := by
  cases result with
  | none => simp [dropFrom]
  | some claim =>
      obtain ⟨own⟩ := claim
      simp [dropFrom, and_comm, eq_comm]

end Claim

/-- The set of names that all share, and the results of their calls that have not been dropped.
Each holder has one result; whoever has several counts as several holders. -/
structure Custody where
  names : Finset String := ∅
  results : Table (Option Claim) := []

/-- What is done about names: a holder calls for one, or drops the result that it has. -/
inductive Move where
  | call (holder name : String)
  | drop (holder : String)
  deriving DecidableEq, Repr

namespace Custody

/-- The result that a holder has. -/
def result (holder : String) (s : Custody) : Option Claim := (List.lookup holder s.results).join

/-- The holder has a live claim on the name. -/
def Holds (s : Custody) (holder name : String) : Prop := s.result holder = some { name }

/-- A holder calls for a name.  The result that it had is dropped when it has the new one. -/
def call (holder name : String) (s : Custody) : Custody :=
  { names := Claim.dropFrom (insert name s.names) (s.result holder)
    results := s.results.insert holder (Claim.ofCall name s.names) }

/-- A holder drops the result that it has. -/
def drop (holder : String) (s : Custody) : Custody :=
  { names := Claim.dropFrom s.names (s.result holder)
    results := s.results.erase holder }

/-- What becomes of the set and the results. -/
def move (s : Custody) : Move → Custody
  | .call holder name => s.call holder name
  | .drop holder => s.drop holder

/-- The set and the results after a run of moves. -/
def after (moves : List Move) : Custody := moves.foldl move {}

end Custody

namespace Claims

/-- What becomes of the claims.  A holder whose call is refused has nothing. -/
def move (c : Claims) : Move → Claims
  | .call holder name => (c.claim? holder name).getD (c.release holder)
  | .drop holder => c.release holder

/-- Nobody has claimed anything. -/
def empty : Claims := { held := [], names_nodup := List.nodup_nil }

/-- The claims after a run of moves. -/
def after (moves : List Move) : Claims := moves.foldl move empty

end Claims

namespace Custody

variable {s : Custody} {c : Claims} {holder other name : String}

/-- A call gives its holder a new result, and leaves those of others alone. -/
theorem result_call :
    (s.call holder name).result other =
      if other = holder then Claim.ofCall name s.names else s.result other := by
  rw [result, call, Table.lookup_insert]
  split <;> rfl

/-- A drop takes the result of its holder, and leaves those of others alone. -/
theorem result_drop :
    (s.drop holder).result other = if other = holder then none else s.result other := by
  rw [result, drop, Table.lookup_erase]
  split <;> rfl

/-- **Dropping a result frees the name that its holder has claimed**, and no other. -/
theorem mem_names_drop :
    name ∈ (s.drop holder).names ↔ name ∈ s.names ∧ ¬ s.Holds holder name :=
  Claim.mem_dropFrom

/-- **A call gives a claim exactly if its name is not in the set.** -/
theorem holds_call : (s.call holder name).Holds holder name ↔ name ∉ s.names := by
  rw [Holds, result_call, if_pos rfl, Claim.ofCall]
  split <;> simp_all

/-- A refused call leaves the set as it was, and so does dropping its result. -/
theorem names_call_of_mem (hmem : name ∈ s.names) (hnone : s.result holder = none) :
    (s.call holder name).names = s.names ∧
      ((s.call holder name).drop holder).names = s.names := by
  have hcall : (s.call holder name).names = s.names := by
    rw [call, hnone, Finset.insert_eq_of_mem hmem]
    rfl
  have hresult : (s.call holder name).result holder = none := by
    rw [result_call, if_pos rfl, Claim.ofCall, if_pos hmem]
  refine ⟨hcall, ?_⟩
  rw [drop, hresult]
  exact hcall

/-- A drop leaves all other holders what they have. -/
theorem holds_drop_of_ne (h : other ≠ holder) :
    (s.drop holder).Holds other name ↔ s.Holds other name := by
  rw [Holds, result_drop, if_neg h, Holds]

/-- The claims say who has claimed what, and the set has the names that are claimed. -/
structure Accounts (s : Custody) (c : Claims) : Prop where
  keys : c.held.names.Nodup
  held : ∀ holder, List.lookup holder c.held = (s.result holder).map Claim.name
  names : ∀ name, name ∈ s.names ↔ name ∈ c.names

namespace Accounts

/-- A holder has a claim in hand exactly if the claim is live. -/
theorem holds_iff (h : Accounts s c) :
    s.Holds holder name ↔ List.lookup holder c.held = some name := by
  rw [h.held, Holds]
  cases s.result holder with
  | none => simp
  | some claim =>
      obtain ⟨own⟩ := claim
      simp

/-- The set has the names of the live claims. -/
theorem mem_names_iff (h : Accounts s c) :
    name ∈ s.names ↔ ∃ holder, s.Holds holder name := by
  rw [h.names, Claims.mem_names_iff h.keys]
  exact exists_congr fun _ => h.holds_iff.symm

/-- No two holders have claims on one name. -/
theorem holder_unique (h : Accounts s c) (hholds : s.Holds holder name)
    (hother : s.Holds other name) : holder = other :=
  Claims.holder_unique (h.holds_iff.1 hholds) (h.holds_iff.1 hother)

/-- The claims that the holders keep are the live ones. -/
theorem mem_held_iff (h : Accounts s c) : (holder, name) ∈ c.held ↔ s.Holds holder name := by
  rw [h.holds_iff]
  exact ⟨Table.lookup_of_mem h.keys, Table.mem_of_lookup⟩

/-- Claims and set refuse the same calls. -/
theorem isSome_claim?_iff (h : Accounts s c) :
    (c.claim? holder name).isSome ↔ name ∉ s.names := by
  rw [h.names]
  rcases c.claim?_cases holder name with ⟨hclaimed, hclaim⟩ | ⟨hfree, c', hclaim, -, -⟩
  · simp [hclaim, hclaimed]
  · simp [hclaim, hfree]

/-- What is dropped is no live claim any more. -/
theorem drop (h : Accounts s c) (holder : String) :
    Accounts (s.drop holder) (c.release holder) where
  keys := Table.nodup_filter h.keys
  held := fun other => by
    rw [result_drop, Claims.release, Table.lookup_erase, h.held]
    split <;> rfl
  names := fun name => by
    rw [mem_names_drop, Claims.mem_names_release h.keys, h.names, h.holds_iff]

/-- What is claimed is a live claim, and what its holder had before is not. -/
theorem call (h : Accounts s c) (holder name : String) :
    Accounts (s.call holder name) ((c.claim? holder name).getD (c.release holder)) := by
  rcases c.claim?_cases holder name with ⟨hclaimed, hclaim⟩ |
    ⟨hfree, c', hclaim, hheld, hnames⟩
  · -- A refused call adds nothing, so all that is left of it is the drop.
    have hmem : name ∈ s.names := (h.names name).2 hclaimed
    have hdrop := h.drop holder
    rw [hclaim]
    refine ⟨hdrop.keys, fun other => ?_, fun other => ?_⟩
    · rw [result_call, Claim.ofCall, if_pos hmem, ← result_drop]
      exact hdrop.held other
    · rw [Custody.call, Finset.insert_eq_of_mem hmem]
      exact hdrop.names other
  · have hmem : name ∉ s.names := fun hmem => hfree ((h.names name).1 hmem)
    rw [hclaim]
    refine ⟨hheld ▸ Table.nodup_insert h.keys, fun other => ?_, fun other => ?_⟩
    · rw [result_call, Claim.ofCall, if_neg hmem, Option.getD_some, hheld, Table.lookup_insert,
        h.held]
      split <;> rfl
    · -- The holder's earlier claim is on another name, so dropping it leaves the new one.
      have hother : ¬ s.Holds holder name := fun hholds => hmem (h.mem_names_iff.2 ⟨_, hholds⟩)
      have hrest := (h.drop holder).names other
      rw [mem_names_drop] at hrest
      rw [Option.getD_some, hnames, List.mem_cons, ← hrest, Custody.call, Claim.mem_dropFrom,
        Finset.mem_insert]
      by_cases heq : other = name
      · simpa [heq, Holds] using hother
      · simp [heq, Holds]

/-- Every move keeps the account of live claims. -/
theorem move (h : Accounts s c) : (m : Move) → Accounts (s.move m) (c.move m)
  | .call holder name => h.call holder name
  | .drop holder => h.drop holder

end Accounts

/-- **The claims account for the set**, after every run of moves. -/
theorem accounts_after (moves : List Move) : Accounts (after moves) (Claims.after moves) := by
  induction moves using List.reverseRecOn with
  | nil =>
      refine ⟨List.nodup_nil, fun _ => rfl, fun _ => ?_⟩
      simp [after, Claims.after, Claims.empty, Claims.names]
  | append_singleton earlier m ih =>
      rw [after, Claims.after, List.foldl_append, List.foldl_append]
      exact ih.move m

/-- **The shared set has the names of the live claims.**  Let names be called for, and results be
dropped, by whatever holders and in whatever order.  The names in the set are those on which there
is a live claim, and each of them has one holder.  A call gives a claim exactly if there is no live
claim on its name; if there is one, neither the call nor the drop of its result takes anything out
of the set.  A result that is dropped frees the name that its holder has claimed and no other, and
leaves all other holders their claims.  The claims that are kept by their holders say the same, and
refuse the same calls. -/
theorem names_of_live_claims (moves : List Move) :
    let s := after moves
    let c := Claims.after moves
    (∀ name, name ∈ s.names ↔ ∃ holder, s.Holds holder name) ∧
    (∀ holder other name, s.Holds holder name → s.Holds other name → holder = other) ∧
    (∀ holder name, (s.call holder name).Holds holder name ↔
      ∀ other, ¬ s.Holds other name) ∧
    (∀ holder other name, s.result holder = none → s.Holds other name →
      (s.call holder name).names = s.names ∧
        ((s.call holder name).drop holder).names = s.names) ∧
    (∀ holder name, name ∈ (s.drop holder).names ↔
      name ∈ s.names ∧ ¬ s.Holds holder name) ∧
    (∀ holder other name, other ≠ holder → s.Holds other name →
      (s.drop holder).Holds other name ∧ name ∈ (s.drop holder).names) ∧
    (∀ holder name, (holder, name) ∈ c.held ↔ s.Holds holder name) ∧
    (∀ holder name, (c.claim? holder name).isSome ↔ ∀ other, ¬ s.Holds other name) := by
  intro s c
  have h : Accounts s c := accounts_after moves
  have hfree (name : String) : name ∉ s.names ↔ ∀ other, ¬ s.Holds other name := by
    rw [h.mem_names_iff, not_exists]
  refine ⟨fun _ => h.mem_names_iff, fun _ _ _ => h.holder_unique, fun _ name => ?_,
    fun holder other name hnone hother => ?_, fun _ _ => mem_names_drop,
    fun holder other name hne hother => ?_, fun _ _ => h.mem_held_iff, fun _ name => ?_⟩
  · rw [holds_call, hfree]
  · exact names_call_of_mem (h.mem_names_iff.2 ⟨other, hother⟩) hnone
  · refine ⟨(holds_drop_of_ne hne).2 hother, mem_names_drop.2
      ⟨h.mem_names_iff.2 ⟨_, hother⟩, ?_⟩⟩
    exact fun hholder => hne (h.holder_unique hother hholder)
  · rw [h.isSome_claim?_iff, hfree]

/-- Two holders call for one name, and a third one for another. -/
def rivals : List Move :=
  [.call "first" "migrate", .call "second" "migrate", .call "third" "seed"]

/-- The result of the refused call is dropped, and the first holder keeps its claim; when that is
dropped too, its name is free again and the other one is not. -/
theorem refusal_dropped_first :
    (after rivals).Holds "first" "migrate" ∧ (after rivals).result "second" = none ∧
      (after (rivals ++ [.drop "second"])).Holds "first" "migrate" ∧
      "migrate" ∈ (after (rivals ++ [.drop "second"])).names ∧
      "migrate" ∉ (after (rivals ++ [.drop "second", .drop "first"])).names ∧
      "seed" ∈ (after (rivals ++ [.drop "second", .drop "first"])).names := by
  have hfirst : (after rivals).Holds "first" "migrate" := rfl
  have hthird : (after (rivals ++ [.drop "second"])).Holds "third" "seed" := rfl
  obtain ⟨-, -, -, -, -, hkept, -⟩ := names_of_live_claims rivals
  obtain ⟨-, -, -, -, hfreed, hlater, -⟩ := names_of_live_claims (rivals ++ [.drop "second"])
  have hdropped := hkept "second" "first" "migrate" (by decide) hfirst
  refine ⟨hfirst, rfl, hdropped.1, hdropped.2, ?_, (hlater "first" _ _ (by decide) hthird).2⟩
  exact fun hmem => ((hfreed "first" "migrate").1 hmem).2 hdropped.1

end Custody

end ImageRollout.Rerun
