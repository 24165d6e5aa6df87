import Mathlib.Logic.Relation
import ImageRollout.Proofs.Fleet.Acts

/-!
# A change of the fleet, step by step

Whoever is to follow a notification first gets the fleet to itself.  Then makers are called one
after the other, or a team is taken out and its members are stopped one after the other, and any of
these calls can fail.  A failure ends the change where it stands: nothing is undone, nothing further
is called, the fleet is given back on the way out, and the failure is reported.

`Passage.next?` is one such step, and there is never a choice.

* `locked_of_leads`: the fleet is held at every step between the entrance and the end.
* `leads_sync`: whatever fails, the steps come to their end, the fleet is given back, and what has
  become of it is what `Fleet.sync` says.
* `leads_last`: no step on the way leads anywhere else.
-/

namespace ImageRollout.Controllers

open Namespaces

variable {C : Type}

/-- How far a change has come. -/
inductive Passage.Stage (C : Type) where
  | waiting
  /-- The fleet is held, and nothing has been looked at. -/
  | entered
  /-- Members have been made, and some makers are still to be called. -/
  | making (members : List (Member C)) (left : List (String × (String → Except String C)))
  /-- The team has been taken out.  Members have been stopped, and some are still to be. -/
  | stopping (t : Team C) (stopped left : List (Member C))
  /-- A call has failed. -/
  | failing (cause : String)
  | over

/-- Whether it is a stage between the entrance and the end. -/
def Passage.Stage.isInside : Passage.Stage C → Bool
  | .waiting | .over => false
  | _ => true

/-- A change under way, with the fleet as it stands and what has been done. -/
structure Passage (C : Type) where
  fleet : Fleet C
  /-- Whether somebody has the fleet to itself. -/
  locked : Bool := false
  deeds : List Deed := []
  stage : Passage.Stage C := .waiting

namespace Passage

variable (conduct : Conduct C) (registry : Registry (String → Except String C))
  (note : Notification)

/-- The next step, if there is one. -/
def next? (p : Passage C) : Option (Passage C) :=
  let n := note.object.name
  match p.stage with
  | .waiting => if p.locked then none else some { p with locked := true, stage := .entered }
  | .entered =>
    let team := p.fleet.managed.lookup n
    match demand note.change (isEnabled note.object) team.isSome, team with
    | .start, _ => some { p with stage := .making [] registry.entries }
    | .stop, some t =>
      some { p with
        fleet := { p.fleet with managed := p.fleet.managed.erase n }
        stage := .stopping t [] t.members }
    | _, _ => some { p with locked := false, stage := .over }
  | .making members [] =>
    let t : Team C := { namespaceName := n, members }
    some { p with
      fleet := { p.fleet with managed := p.fleet.managed.insert n t.beginRun }
      locked := false, stage := .over }
  | .making members ((kind, maker) :: left) =>
    let deeds := p.deeds ++ [.made n kind]
    match maker n with
    | .error cause => some { p with deeds, stage := .failing cause }
    | .ok body => some { p with deeds, stage := .making (members ++ [{ kind, body }]) left }
  | .stopping t stopped [] =>
    let t := { t with members := stopped, stopped := true }
    some { p with
      fleet := { p.fleet with retired := p.fleet.retired ++ [t] }
      locked := false, stage := .over }
  | .stopping t stopped (m :: left) =>
    let deeds := p.deeds ++ [.stopped t.namespaceName m.kind]
    match conduct.stopFailure m.body with
    | some cause =>
      let t := { t with members := stopped ++ m :: left }
      some { p with
        fleet := { p.fleet with retired := p.fleet.retired ++ [t] }
        deeds, stage := .failing cause }
    | none =>
      some { p with deeds, stage := .stopping t (stopped ++ [{ m with stopped := true }]) left }
  | .failing cause =>
    some { p with
      locked := false, deeds := p.deeds ++ [.syncFailed n note.change cause], stage := .over }
  | .over => none

/-- What comes of a change by any number of steps. -/
abbrev Leads : Passage C → Passage C → Prop :=
  Relation.ReflTransGen fun p q => p.next? conduct registry note = some q

variable {conduct registry note}

/-- A step holds the fleet unless it is the last one. -/
theorem locked_of_next {p q : Passage C} (h : p.next? conduct registry note = some q) :
    q.locked = q.stage.isInside ∨
      q.locked = p.locked ∧ q.stage.isInside = p.stage.isInside := by
  unfold next? at h
  split at h
  next hstage =>
    split at h
    · cases h
    · cases h
      exact .inl rfl
  next hstage =>
    dsimp only at h
    split at h
    · cases h
      exact .inr ⟨rfl, by rw [hstage]; rfl⟩
    · cases h
      exact .inr ⟨rfl, by rw [hstage]; rfl⟩
    · cases h
      exact .inl rfl
  next =>
    cases h
    exact .inl rfl
  next hstage =>
    dsimp only at h
    split at h
    all_goals
      cases h
      exact .inr ⟨rfl, by rw [hstage]; rfl⟩
  next =>
    cases h
    exact .inl rfl
  next hstage =>
    dsimp only at h
    split at h
    all_goals
      cases h
      exact .inr ⟨rfl, by rw [hstage]; rfl⟩
  next =>
    cases h
    exact .inl rfl
  next => cases h

/-- **The fleet is held from the entrance to the end**, at whatever step a call fails. -/
theorem locked_of_leads {f : Fleet C} {p : Passage C}
    (h : Leads conduct registry note { fleet := f } p) : p.locked = p.stage.isInside := by
  induction h with
  | refl => rfl
  | tail _ hstep ih =>
      rcases locked_of_next hstep with hown | ⟨hlocked, hinside⟩
      · exact hown
      · rw [hlocked, hinside, ih]

variable (conduct registry note) in
/-- What calling the makers comes to. -/
theorem leads_making (f : Fleet C) (left : List (String × (String → Except String C)))
    (members : List (Member C)) (deeds : List Deed) :
    Leads conduct registry note
      { fleet := f, locked := true, deeds, stage := .making members left }
      (match Team.makeMembers note.object.name left with
      | (.ok others, more) =>
        let t : Team C := { namespaceName := note.object.name, members := members ++ others }
        { fleet := { f with managed := f.managed.insert note.object.name t.beginRun }
          deeds := deeds ++ more, stage := .over }
      | (.error cause, more) =>
        { fleet := f, deeds := deeds ++ (more ++ [.syncFailed note.object.name note.change cause])
          stage := .over }) := by
  induction left generalizing members deeds with
  | nil =>
      refine .single ?_
      simp [next?, Team.makeMembers]
  | cons e rest ih =>
      obtain ⟨kind, maker⟩ := e
      cases hbody : maker note.object.name with
      | error cause =>
          refine .head (b := { fleet := f, locked := true
                               deeds := deeds ++ [.made note.object.name kind]
                               stage := .failing cause }) ?_ (.single ?_)
          · simp [next?, hbody]
          · simp [next?, Team.makeMembers, hbody]
      | ok body =>
          refine .head (b := { fleet := f, locked := true
                               deeds := deeds ++ [.made note.object.name kind]
                               stage := .making (members ++ [{ kind, body }]) rest }) ?_ ?_
          · simp [next?, hbody]
          · have hrest := ih (members ++ [({ kind, body } : Member C)])
              (deeds ++ [.made note.object.name kind])
            simp only [Team.makeMembers, hbody]
            cases hmade : Team.makeMembers note.object.name rest with
            | mk made more =>
                rw [hmade] at hrest
                cases made with
                | ok others => simpa [Except.map] using hrest
                | error cause => simpa [Except.map] using hrest

variable (conduct registry note) in
/-- What stopping the members of a team that was taken out comes to. -/
theorem leads_stopping (f : Fleet C) (t : Team C) (left stopped : List (Member C))
    (deeds : List Deed) :
    let (others, failure, more) := Team.stopMembers conduct t.namespaceName left
    let t' := { t with members := stopped ++ others, stopped := t.stopped || failure.isNone }
    Leads conduct registry note
      { fleet := f, locked := true, deeds, stage := .stopping t stopped left }
      { fleet := { f with retired := f.retired ++ [t'] }
        deeds := deeds ++ (more ++
          (failure.map (Deed.syncFailed note.object.name note.change)).toList)
        stage := .over } := by
  induction left generalizing stopped deeds with
  | nil =>
      refine .single ?_
      simp [next?]
  | cons m rest ih =>
      cases hfail : conduct.stopFailure m.body with
      | some cause =>
          simp only [Team.stopMembers, hfail]
          refine .head (b := { fleet := { f with retired := f.retired ++
                                 [{ t with members := stopped ++ m :: rest }] }
                               locked := true
                               deeds := deeds ++ [.stopped t.namespaceName m.kind]
                               stage := .failing cause }) ?_ (.single ?_)
          · simp [next?, hfail]
          · simp [next?]
      | none =>
          simp only [Team.stopMembers, hfail]
          refine .head (b := { fleet := f, locked := true
                               deeds := deeds ++ [.stopped t.namespaceName m.kind]
                               stage := .stopping t (stopped ++ [{ m with stopped := true }])
                                 rest }) ?_ ?_
          · simp [next?, hfail]
          · have hrest := ih (stopped ++ [({ m with stopped := true } : Member C)])
              (deeds ++ [.stopped t.namespaceName m.kind])
            simpa using hrest

variable (conduct registry note) in
/-- **Whatever fails, a change comes to its end.**  The fleet is given back, and it has become what
`Fleet.sync` says. -/
theorem leads_sync (f : Fleet C) :
    Leads conduct registry note { fleet := f }
      { fleet := (f.sync conduct registry note).1, deeds := (f.sync conduct registry note).2
        stage := .over } := by
  have hentrance : Leads conduct registry note { fleet := f }
      { fleet := f, locked := true, stage := .entered } := .single rfl
  refine hentrance.trans ?_
  cases hteam : List.lookup note.object.name f.managed with
  | none =>
      cases hd : demand note.change (isEnabled note.object) false with
      | stop => exact absurd hd (Fleet.demand_ne_stop _ _)
      | nothing =>
          refine .single ?_
          simp [next?, Fleet.sync, hteam, hd]
      | start =>
          refine .head (b := { fleet := f, locked := true, stage := .making [] registry.entries })
            (by simp [next?, hteam, hd]) ?_
          have hmaking := leads_making conduct registry note f registry.entries [] []
          simp only [Fleet.sync, hteam, Option.isSome_none, hd, Fleet.startTeam, Team.make]
          cases hmade : Team.makeMembers note.object.name registry.entries with
          | mk made more =>
              rw [hmade] at hmaking
              cases made with
              | ok members => simpa [Except.map] using hmaking
              | error cause => simpa [Except.map] using hmaking
  | some t =>
      cases hd : demand note.change (isEnabled note.object) true with
      | start => exact absurd hd (Fleet.demand_ne_start _ _)
      | nothing =>
          refine .single ?_
          simp [next?, Fleet.sync, hteam, hd]
      | stop =>
          refine .head (b := { fleet := { f with managed := f.managed.erase note.object.name }
                               locked := true, stage := .stopping t [] t.members })
            (by simp [next?, hteam, hd]) ?_
          have hstopping := leads_stopping conduct registry note
            { f with managed := f.managed.erase note.object.name } t t.members [] []
          simp only [Fleet.sync, hteam, Option.isSome_some, hd, Fleet.stopTeam, Team.stop]
          simpa using hstopping

/-- A step on the way to the end leads there and nowhere else. -/
theorem leads_last {f : Fleet C} {p last : Passage C} (hlast : last.stage = .over)
    (h : Leads conduct registry note { fleet := f } last)
    (hp : Leads conduct registry note { fleet := f } p) : Leads conduct registry note p last := by
  have hunique : Relator.RightUnique
      fun p q : Passage C => p.next? conduct registry note = some q := by
    intro p q r hq hr
    rw [hq] at hr
    exact Option.some.inj hr
  rcases h.total_of_right_unique hunique hp with hafter | hbefore
  · rcases hafter.cases_head with heq | ⟨q, hnext, -⟩
    · exact heq ▸ .refl
    · rw [next?, hlast] at hnext
      cases hnext
  · exact hbefore

end Passage

end ImageRollout.Controllers
