import ImageRollout.Controllers.Fleet
import ImageRollout.Controllers.Script

/-!
# What a change does to the fleet

Everything that a notification can do to the fleet is said once, in `sync_cases`: it starts a team,
fails to start one, stops one or leaves all as it is.  What holds of every fleet is read off these
four cases.

* `has_sync`: which namespaces are managed after a notification, when no maker fails.
* `has_syncAll_of_deleted`: notifications of deletions commute, since each only takes its own
  namespace out.
-/

namespace ImageRollout.Controllers

open Kubernetes Namespaces

variable {C : Type}

/-- Every maker of the registry makes a controller, whatever the namespace. -/
def Registry.NeverFails (registry : Registry (String → Except String C)) : Prop :=
  ∀ e ∈ registry.entries, ∀ n, ∃ body, e.2 n = .ok body

/-- Whether its namespace is managed after a notification, given whether it was before. -/
def managedAfter (note : Notification) (managed : Bool) : Bool :=
  match note.change with
  | .added => managed || isEnabled note.object
  | .modified => isEnabled note.object
  | .deleted => false

/-- Makers that never fail make all members. -/
theorem Team.makeMembers_ok (n : String) {entries : List (String × (String → Except String C))}
    (h : ∀ e ∈ entries, ∀ n, ∃ body, e.2 n = .ok body) :
    ∃ members deeds, Team.makeMembers n entries = (.ok members, deeds) := by
  induction entries with
  | nil => exact ⟨[], [], rfl⟩
  | cons e rest ih =>
      obtain ⟨kind, maker⟩ := e
      obtain ⟨body, hbody⟩ := h _ List.mem_cons_self n
      obtain ⟨members, deeds, hrest⟩ := ih fun e he => h e (List.mem_cons_of_mem _ he)
      refine ⟨{ kind, body } :: members, .made n kind :: deeds, ?_⟩
      simp only at hbody
      simp [Team.makeMembers, hbody, hrest, Except.map]

/-- Makers that never fail make a team. -/
theorem Team.make_ok {registry : Registry (String → Except String C)} (h : registry.NeverFails)
    (n : String) : ∃ t deeds, Team.make registry n = (.ok t, deeds) := by
  obtain ⟨members, deeds, hmembers⟩ := Team.makeMembers_ok n h
  exact ⟨_, deeds, by rw [Team.make, hmembers]; rfl⟩

namespace Fleet

variable (conduct : Conduct C) (registry : Registry (String → Except String C))

/-- Only a managed namespace is ever stopped. -/
theorem demand_ne_stop (change : Change) (enabled : Bool) :
    demand change enabled false ≠ .stop := by
  cases change <;> cases enabled <;> simp [demand]

/-- **Everything that a notification can do.**  It starts a team, it fails to start one, it stops
the team that there is, or it demands nothing. -/
theorem sync_cases (note : Notification) (f : Fleet C) :
    let n := note.object.name
    let demanded := demand note.change (isEnabled note.object) (f.managed.has n)
    (∃ t deeds, demanded = .start ∧ Team.make registry n = (.ok t, deeds) ∧
      f.sync conduct registry note =
        ({ f with managed := f.managed.insert n t.beginRun }, deeds)) ∨
    (∃ cause deeds, demanded = .start ∧ Team.make registry n = (.error cause, deeds) ∧
      f.sync conduct registry note = (f, deeds ++ [.syncFailed n note.change cause])) ∨
    (∃ t, demanded = .stop ∧ List.lookup n f.managed = some t ∧
      f.sync conduct registry note = f.stopTeam conduct note.change n t) ∨
    (demanded = .nothing ∧ f.sync conduct registry note = (f, [])) := by
  intro n demanded
  cases hd : demanded with
  | start =>
      have hsync : f.sync conduct registry note = f.startTeam registry note.change n := by
        change demand note.change (isEnabled note.object) (f.managed.has n) = .start at hd
        rw [Table.has] at hd
        simp only [sync, n, hd]
      cases hmake : Team.make registry n with
      | mk made deeds =>
          cases made with
          | ok t => exact .inl ⟨t, deeds, rfl, rfl, by simp [hsync, startTeam, hmake]⟩
          | error cause =>
              exact .inr (.inl ⟨cause, deeds, rfl, rfl, by simp [hsync, startTeam, hmake]⟩)
  | stop =>
      cases hteam : List.lookup n f.managed with
      | some t =>
          refine .inr (.inr (.inl ⟨t, rfl, rfl, ?_⟩))
          change demand note.change (isEnabled note.object) (f.managed.has n) = .stop at hd
          rw [Table.has, hteam] at hd
          simp only [sync, n, hd, hteam]
      | none =>
          have hunmanaged : f.managed.has n = false := by simp [Table.has, hteam]
          have hstop : demand note.change (isEnabled note.object) (f.managed.has n) = .stop := hd
          rw [hunmanaged] at hstop
          exact absurd hstop (demand_ne_stop _ _)
  | nothing =>
      refine .inr (.inr (.inr ⟨rfl, ?_⟩))
      change demand note.change (isEnabled note.object) (f.managed.has n) = .nothing at hd
      rw [Table.has] at hd
      simp only [sync, n, hd]

/-- What is demanded of a namespace's team decides whether the namespace is managed. -/
theorem managedAfter_eq_of_demand (note : Notification) (managed : Bool) :
    managedAfter note managed =
      match demand note.change (isEnabled note.object) managed with
      | .start => true
      | .stop => false
      | .nothing => managed := by
  cases hc : note.change <;> cases he : isEnabled note.object <;> cases managed <;>
    simp [managedAfter, demand, hc, he]

/-- **The managed namespaces after a notification.**  Only its own namespace is affected. -/
theorem has_sync (hreg : registry.NeverFails) (note : Notification) (f : Fleet C) (n : String) :
    (f.sync conduct registry note).1.managed.has n =
      if n = note.object.name then managedAfter note (f.managed.has n) else f.managed.has n := by
  rcases sync_cases conduct registry note f with
    ⟨t, deeds, hd, -, hsync⟩ | ⟨cause, deeds, -, hmake, -⟩ | ⟨t, hd, -, hsync⟩ |
    ⟨hd, hsync⟩
  · rw [hsync]
    change (Table.insert _ _ f.managed).has n = _
    rw [Table.has_insert]
    split
    next hn => rw [hn, managedAfter_eq_of_demand, hd]
    next => rfl
  · obtain ⟨t, deeds', hok⟩ := Team.make_ok hreg note.object.name
    rw [hok] at hmake
    cases hmake
  · rw [hsync]
    change (Table.erase _ f.managed).has n = _
    rw [Table.has_erase]
    split
    next hn => rw [hn, managedAfter_eq_of_demand, hd]
    next => rfl
  · rw [hsync]
    split
    next hn => rw [hn, managedAfter_eq_of_demand, hd]
    next => rfl

/-- Does what notifications demand, one after the other. -/
def syncAll (notes : List Notification) (f : Fleet C) : Fleet C :=
  notes.foldl (fun f note => (f.sync conduct registry note).1) f

/-- A deletion takes its own namespace out, whatever makers and controllers do. -/
theorem has_sync_of_deleted {note : Notification} (h : note.change = .deleted) (f : Fleet C)
    (n : String) :
    (f.sync conduct registry note).1.managed.has n =
      if n = note.object.name then false else f.managed.has n := by
  have hdemand : demand note.change (isEnabled note.object) (f.managed.has note.object.name) =
      if f.managed.has note.object.name then .stop else .nothing := by
    rw [h]
    rfl
  rcases sync_cases conduct registry note f with
    ⟨t, deeds, hd, -, -⟩ | ⟨cause, deeds, hd, -, -⟩ | ⟨t, -, -, hsync⟩ | ⟨hd, hsync⟩
  · rw [hdemand] at hd
    split at hd <;> cases hd
  · rw [hdemand] at hd
    split at hd <;> cases hd
  · rw [hsync]
    exact Table.has_erase _ n f.managed
  · rw [hsync]
    split
    next hn =>
      rw [hdemand] at hd
      split at hd
      next => cases hd
      next hunmanaged => rw [hn, Bool.eq_false_iff.2 hunmanaged]
    next => rfl

/-- Deletions take exactly their own namespaces out. -/
theorem has_syncAll_of_deleted {notes : List Notification}
    (h : ∀ note ∈ notes, note.change = .deleted) (f : Fleet C) (n : String) :
    (f.syncAll conduct registry notes).managed.has n =
      (f.managed.has n && !notes.any (·.object.name = n)) := by
  induction notes generalizing f with
  | nil => simp [syncAll]
  | cons note rest ih =>
      have hdeleted : note.change = .deleted := h note List.mem_cons_self
      have hrest := ih (fun note hmem => h note (List.mem_cons_of_mem _ hmem))
        (f.sync conduct registry note).1
      change (syncAll conduct registry rest (f.sync conduct registry note).1).managed.has n = _
      rw [hrest, has_sync_of_deleted conduct registry hdeleted]
      by_cases hn : n = note.object.name
      · simp [hn]
      · have hn' : note.object.name ≠ n := fun heq => hn heq.symm
        simp [hn, hn']

end Fleet

/-- A namespace whose label says whether it is enabled. -/
def labelled (name value : String) : Namespace :=
  { metadata := { name := some name, labels := some [(enableKey, value)] } }

/-- A registry of two kinds, both of which can always be made. -/
def twoKinds : Registry (String → Except String Script) :=
  { entries := [("deployment", fun _ => .ok {}), ("job", fun _ => .ok {})] }

/-- The makers of the examples never fail. -/
theorem neverFails_twoKinds : twoKinds.NeverFails := by
  intro e he n
  simp only [twoKinds, List.mem_cons, List.not_mem_nil, or_false] at he
  rcases he with rfl | rfl
  · exact ⟨_, rfl⟩
  · exact ⟨_, rfl⟩

end ImageRollout.Controllers
