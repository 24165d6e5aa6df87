import ImageRollout.Proofs.Fleet.Recipients

/-!
# Teams built and stopped

Where no maker fails, all that a notification can do is to build the team of its namespace or to
stop it.  These are the *acts* of a fleet; what is done to the single controllers follows from them.

* `act_cases`: what each act does to the fleet, and what it has done to the controllers.
* `deeds_of_make`, `stop_of_never_fails`: the making and the stopping of a team, member by member.
* `lookup_sync_of_ne`, `lookup_syncAll_of_idle`: an act leaves the teams of other namespaces alone.
-/

namespace ImageRollout.Controllers

open Kubernetes Namespaces

variable {C : Type}

/-- Something that is done to a team as a whole. -/
inductive Act where
  | built (n : String)
  | stopped (n : String)
  deriving DecidableEq, Repr

/-- The namespace whose team it is done to. -/
def Act.namespaceName : Act → String
  | built n | stopped n => n

/-- What the act does to the controllers of registered kinds. -/
def Act.deeds (kinds : List String) : Act → List Deed
  | built n => kinds.map (Deed.made n)
  | stopped n => kinds.map (Deed.stopped n)

/-- No controller fails to stop. -/
def Conduct.NeverFails (conduct : Conduct C) : Prop := ∀ body, conduct.stopFailure body = none

namespace Team

/-- Every maker is called once, in order, and what it makes is not stopped. -/
theorem deeds_of_makeMembers {n : String} {entries : List (String × (String → Except String C))}
    {members : List (Member C)} {deeds : List Deed}
    (h : makeMembers n entries = (.ok members, deeds)) :
    deeds = entries.map (fun e => .made n e.1) ∧ ∀ m ∈ members, m.stopped = false := by
  induction entries generalizing members deeds with
  | nil =>
      cases h
      exact ⟨rfl, by simp⟩
  | cons e rest ih =>
      obtain ⟨kind, maker⟩ := e
      rw [makeMembers] at h
      cases hbody : maker n with
      | error cause =>
          rw [hbody] at h
          cases h
      | ok body =>
          cases hrest : makeMembers n rest with
          | mk made later =>
              rw [hbody, hrest] at h
              cases made with
              | error cause => cases h
              | ok others =>
                  cases h
                  obtain ⟨rfl, hrunning⟩ := ih hrest
                  exact ⟨rfl, by simpa using hrunning⟩

/-- A team is made by calling every registered maker once, in order.  Neither it nor any of its
members is stopped, and no run of it has begun. -/
theorem deeds_of_make {registry : Registry (String → Except String C)} {n : String} {t : Team C}
    {deeds : List Deed} (h : make registry n = (.ok t, deeds)) :
    deeds = (Act.built n).deeds registry.registered ∧ t.stopped = false ∧
      (∀ m ∈ t.members, m.stopped = false) ∧ t.runs = [] := by
  rw [make] at h
  cases hmembers : makeMembers n registry.entries with
  | mk made later =>
      rw [hmembers] at h
      cases made with
      | error cause => cases h
      | ok members =>
          cases h
          obtain ⟨rfl, hrunning⟩ := deeds_of_makeMembers hmembers
          refine ⟨?_, rfl, hrunning, rfl⟩
          simp [Act.deeds, Registry.registered]

/-- The team with all its members and itself stopped. -/
def halted (t : Team C) : Team C :=
  { t with members := t.members.map fun m => { m with stopped := true }, stopped := true }

/-- Where no controller fails to stop, a team is stopped by stopping every member once, in
order. -/
theorem stop_of_never_fails {conduct : Conduct C} (h : conduct.NeverFails) (t : Team C) :
    t.stop conduct =
      (t.halted, none, (Act.stopped t.namespaceName).deeds (t.members.map (·.kind))) := by
  have hmembers : ∀ members : List (Member C), stopMembers conduct t.namespaceName members =
      (members.map fun m => { m with stopped := true }, none,
        members.map fun m => .stopped t.namespaceName m.kind) := by
    intro members
    induction members with
    | nil => rfl
    | cons m rest ih => simp [stopMembers, h m.body, ih]
  simp [stop, hmembers, halted, Act.deeds, Function.comp_def]

end Team

namespace Fleet

variable (conduct : Conduct C) (registry : Registry (String → Except String C))

/-- What a notification does to the team of its namespace. -/
def act? (note : Notification) (f : Fleet C) : Option Act :=
  match demand note.change (isEnabled note.object) (f.managed.has note.object.name) with
  | .start => some (.built note.object.name)
  | .stop => some (.stopped note.object.name)
  | .nothing => none

/-- What notifications do to teams, one after the other. -/
def actsAll : List Notification → Fleet C → List Act
  | [], _ => []
  | note :: rest, f => (f.act? note).toList ++ actsAll rest (f.sync conduct registry note).1

/-- Only a namespace that is not managed is ever started. -/
theorem demand_ne_start (change : Change) (enabled : Bool) :
    demand change enabled true ≠ .start := by
  cases change <;> cases enabled <;> simp [demand]

/-- **What a notification does, act by act.**  It builds a team where there is none, it stops the
team that there is, or it changes nothing. -/
theorem act_cases (hreg : registry.NeverFails) (note : Notification) (f : Fleet C) :
    let n := note.object.name
    (∃ t deeds, f.act? note = some (.built n) ∧ f.managed.has n = false ∧
      Team.make registry n = (.ok t, deeds) ∧
      f.sync conduct registry note =
        ({ f with managed := f.managed.insert n t.beginRun }, deeds)) ∨
    (∃ t, f.act? note = some (.stopped n) ∧ List.lookup n f.managed = some t ∧
      f.sync conduct registry note = f.stopTeam conduct note.change n t) ∨
    (f.act? note = none ∧ f.sync conduct registry note = (f, [])) := by
  intro n
  rcases sync_cases conduct registry note f with
    ⟨t, deeds, hd, hmake, hsync⟩ | ⟨cause, deeds, -, hmake, -⟩ | ⟨t, hd, hteam, hsync⟩ |
    ⟨hd, hsync⟩
  · have hfree : f.managed.has n = false := by
      cases hhas : f.managed.has n with
      | false => rfl
      | true =>
          have hstart : demand note.change (isEnabled note.object) true = .start := hhas ▸ hd
          exact absurd hstart (demand_ne_start _ _)
    exact .inl ⟨t, deeds, by rw [act?, hd], hfree, hmake, hsync⟩
  · obtain ⟨t, deeds', hok⟩ := Team.make_ok hreg n
    rw [hok] at hmake
    cases hmake
  · exact .inr (.inl ⟨t, by rw [act?, hd], hteam, hsync⟩)
  · exact .inr (.inr ⟨by rw [act?, hd], hsync⟩)

/-- No notification stops everything. -/
theorem stopped_sync (note : Notification) (f : Fleet C) :
    (f.sync conduct registry note).1.stopped = f.stopped := by
  rcases sync_cases conduct registry note f with
    ⟨t, deeds, -, -, hsync⟩ | ⟨cause, deeds, -, -, hsync⟩ | ⟨t, -, -, hsync⟩ |
    ⟨-, hsync⟩
  all_goals rw [hsync]
  rfl

/-- An act is done to the team of the notification's own namespace. -/
theorem namespaceName_of_act? {note : Notification} {f : Fleet C} {a : Act}
    (h : f.act? note = some a) : a.namespaceName = note.object.name := by
  rw [act?] at h
  split at h
  · cases h
    rfl
  · cases h
    rfl
  · cases h

variable {conduct registry}

/-- Acts are done to the teams of namespaces of which there are notifications. -/
theorem exists_of_mem_actsAll {notes : List Notification} {f : Fleet C} {a : Act}
    (h : a ∈ f.actsAll conduct registry notes) :
    ∃ note ∈ notes, note.object.name = a.namespaceName := by
  induction notes generalizing f with
  | nil => cases h
  | cons note rest ih =>
      rcases List.mem_append.1 h with hfirst | hrest
      · exact ⟨note, List.mem_cons_self,
          (namespaceName_of_act? (Option.mem_toList.1 hfirst)).symm⟩
      · obtain ⟨later, hmem, hname⟩ := ih hrest
        exact ⟨later, List.mem_cons_of_mem _ hmem, hname⟩

/-- A notification that does nothing to the team of a namespace leaves that team as it is. -/
theorem lookup_sync_of_ne (hreg : registry.NeverFails) {note : Notification} {f : Fleet C}
    {n : String} (h : ∀ a, f.act? note = some a → a.namespaceName ≠ n) :
    List.lookup n (f.sync conduct registry note).1.managed = List.lookup n f.managed := by
  rcases act_cases conduct registry hreg note f with
    ⟨t, deeds, hact, -, -, hsync⟩ | ⟨t, hact, -, hsync⟩ | ⟨-, hsync⟩
  · have hother : n ≠ note.object.name := fun heq => h _ hact heq.symm
    rw [hsync]
    change List.lookup n (Table.insert _ _ f.managed) = _
    rw [Table.lookup_insert, if_neg hother]
  · have hother : n ≠ note.object.name := fun heq => h _ hact heq.symm
    rw [hsync]
    change List.lookup n (Table.erase _ f.managed) = _
    rw [Table.lookup_erase, if_neg hother]
  · rw [hsync]

/-- A team to which nothing is done stays as it is. -/
theorem lookup_syncAll_of_idle (hreg : registry.NeverFails) {notes : List Notification}
    {f : Fleet C} {n : String}
    (h : ∀ a ∈ f.actsAll conduct registry notes, a.namespaceName ≠ n) :
    List.lookup n (f.syncAll conduct registry notes).managed = List.lookup n f.managed := by
  induction notes generalizing f with
  | nil => rfl
  | cons note rest ih =>
      have hfirst : List.lookup n (f.sync conduct registry note).1.managed =
          List.lookup n f.managed := by
        apply lookup_sync_of_ne hreg
        intro a ha
        exact h a (by simp [actsAll, ha])
      have hrest : ∀ a ∈ (f.sync conduct registry note).1.actsAll conduct registry rest,
          a.namespaceName ≠ n := by
        intro a ha
        exact h a (by simp [actsAll, ha])
      exact (ih hrest).trans hfirst

/-- Where no controller fails to stop, all teams are stopped, one after the other. -/
theorem stopTeams_of_never_fails (h : conduct.NeverFails) (teams : List (Team C)) :
    stopTeams conduct teams =
      (teams.map Team.halted, teams.flatMap fun t =>
        (Act.stopped t.namespaceName).deeds (t.members.map (·.kind))) := by
  induction teams with
  | nil => rfl
  | cons t rest ih => simp [stopTeams, Team.stop_of_never_fails h, ih]

/-- The managed teams stand in the order of their namespaces. -/
theorem map_teams {f : Fleet C} (h : f.WellKept registry) {α : Type}
    (g : String → List String → α) :
    (f.teams.map fun t => g t.namespaceName (t.members.map (·.kind))) =
      f.namespaces.map fun n => g n registry.registered := by
  have hteams : ∀ names : List String, (∀ n ∈ names, f.managed.has n = true) →
      ((names.filterMap (List.lookup · f.managed)).map fun t =>
        g t.namespaceName (t.members.map (·.kind))) =
      names.map fun n => g n registry.registered := by
    intro names hmanaged
    induction names with
    | nil => rfl
    | cons n rest ih =>
        have hrest := ih fun k hk => hmanaged k (List.mem_cons_of_mem _ hk)
        obtain ⟨t, hteam⟩ := Option.isSome_iff_exists.1 (hmanaged n List.mem_cons_self)
        have hmem := Table.mem_of_lookup hteam
        rw [List.filterMap_cons, hteam, List.map_cons, List.map_cons, hrest, h.named _ hmem,
          h.complete _ hmem]
  apply hteams
  intro n hn
  exact Table.has_eq_true_iff.2 ((perm_namespaces h).mem_iff.1 hn)

end Fleet

end ImageRollout.Controllers
