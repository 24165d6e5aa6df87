import ImageRollout.Proofs.Fleet.Failures
import ImageRollout.Proofs.Fleet.Survivors

/-!
# Whose runs are begun

The members of a team run one after the other, each as soon as the one before it is over.  So the
run of a member is begun only if the runs of all members before it come to their end: one that
fails, or that waits for something that does not happen, keeps all later ones from being begun.

* `outstanding_continueRun`: whose runs a team begins, and whose are left to be begun.
* `exists_atRest`: a run that is given enough time comes as far as it can.
* `begun_at_rest`: whose runs are begun once a team cannot go on.
-/

namespace ImageRollout.Controllers

open Namespaces

variable {C : Type}

/-- Whether the run of a member comes to its end though nothing stops it. -/
def Conduct.returns (conduct : Conduct C) (m : Member C) : Bool :=
  match conduct.progress m.body false with
  | .over | .lasting _ => true
  | .failed _ | .waiting => false

/-- The members whose turn comes: all up to the first whose run does not come to its end. -/
def Conduct.reached (conduct : Conduct C) (members : List (Member C)) : List (Member C) :=
  members.takeWhile conduct.returns ++ (members.dropWhile conduct.returns).take 1

/-- The members whose turn has yet to come in a run. -/
def Conduct.outstanding (conduct : Conduct C) (members : List (Member C)) (r : Run) :
    List (Member C) :=
  (conduct.reached (members.drop r.position)).drop (if r.began.isSome then 1 else 0)

/-- The kind of the controller whose run is begun. -/
def Deed.begun? : Deed → Option String
  | began _ kind => some kind
  | _ => none

@[simp] theorem Deed.begun?_ended (n kind : String) : (Deed.ended n kind).begun? = none := rfl

@[simp] theorem Deed.begun?_runFailed (n cause : String) :
    (Deed.runFailed n cause).begun? = none :=
  rfl

section Reached

variable (conduct : Conduct C)

@[simp] theorem reached_nil : conduct.reached [] = [] := rfl

/-- The first member's turn comes in any case, and the others' turn if its run comes to its end. -/
theorem reached_cons (m : Member C) (rest : List (Member C)) :
    conduct.reached (m :: rest) = m :: if conduct.returns m then conduct.reached rest else [] := by
  cases h : conduct.returns m <;> simp [Conduct.reached, h]

/-- Turns come in the order of registration. -/
theorem prefix_reached (members : List (Member C)) : conduct.reached members <+: members := by
  have hwhole := List.takeWhile_append_dropWhile (p := conduct.returns) (l := members)
  conv => rhs; rw [← hwhole]
  exact (List.prefix_append_right_inj _).2 (List.take_prefix _ _)

theorem outstanding_between (members : List (Member C)) (position : Nat) :
    conduct.outstanding members { position } = conduct.reached (members.drop position) :=
  rfl

/-- Everybody's turn comes just if every run but the last comes to its end. -/
theorem reached_eq_self_iff (members : List (Member C)) :
    conduct.reached members = members ↔ ∀ m ∈ members.dropLast, conduct.returns m = true := by
  induction members with
  | nil => simp
  | cons m rest ih =>
      rw [reached_cons]
      cases rest with
      | nil => simp
      | cons next others =>
          cases h : conduct.returns m with
          | true => simpa [h] using ih
          | false => simp [h]

end Reached

namespace Team

variable {conduct : Conduct C} {t : Team C}

/-- The member at a position is one of the team, and behind it comes the rest. -/
theorem of_ahead {position : Nat} {m : Member C} {rest : List (Member C)}
    (h : t.members.drop position = m :: rest) :
    m ∈ t.members ∧ t.members.drop (position + 1) = rest ∧
      t.members.drop (position + 1 + rest.length) = [] := by
  have hrest : t.members.drop (position + 1) = rest := by
    rw [← List.drop_drop, h]
    rfl
  refine ⟨List.drop_subset position _ (h ▸ List.mem_cons_self), hrest, ?_⟩
  rw [← List.drop_drop, hrest, List.drop_length]

/-- In a running team no member is stopped. -/
theorem isStopped_of_running (h : t.Running) {m : Member C} (hm : m ∈ t.members) :
    t.isStopped false m = false := by
  simp [isStopped, h.1, h.2 m hm]

/-- **Nobody is begun twice or out of turn.**  Whose turn had yet to come in a run either got it, in
order, while the run went on, or has yet to get it. -/
theorem outstanding_continueRun (h : t.Running) (deadline now : Nat) (began : Option Nat)
    (position : Nat) {ahead : List (Member C)} (hahead : t.members.drop position = ahead) :
    let went := t.continueRun conduct false deadline ahead now began position
    went.2.filterMap Deed.begun? ++ (conduct.outstanding t.members went.1).map (·.kind) =
      (conduct.outstanding t.members { position, began }).map (·.kind) := by
  induction ahead generalizing now began position with
  | nil => simp [continueRun, Conduct.outstanding, hahead]
  | cons m rest ih =>
      obtain ⟨hm, hrest, hend⟩ := of_ahead hahead
      have hstopped := isStopped_of_running h hm
      -- The member's own turn has come if the run is within it, and comes now if it is before it.
      have hturn : (conduct.outstanding t.members { position, began }).map (·.kind) =
          (if began.isNone then [Deed.began t.namespaceName m.kind] else []).filterMap
              Deed.begun? ++
            if conduct.returns m then (conduct.reached rest).map (·.kind) else [] := by
        rw [Conduct.outstanding, hahead, reached_cons]
        cases began <;> cases conduct.returns m <;> rfl
      have hafter (now' : Nat) := ih now' none (position + 1) hrest
      rw [outstanding_between, hrest] at hafter
      rw [hturn]
      simp only [continueRun, hstopped]
      match hprogress : conduct.progress m.body false with
      | .over => simp [List.filterMap_cons, Conduct.returns, hprogress, ← hafter now]
      | .failed cause => simp [Conduct.returns, hprogress, outstanding_between, hend]
      | .lasting duration =>
          by_cases hover : began.getD now + duration < deadline
          · simp [List.filterMap_cons, Conduct.returns, hprogress, hover,
              ← hafter (began.getD now + duration)]
          · simp [Conduct.returns, Conduct.outstanding, hprogress, hover, hahead, reached_cons]
      | .waiting => simp [Conduct.returns, Conduct.outstanding, hprogress, hahead, reached_cons]

/-- A run stands still: no time brings anything about. -/
def Still (conduct : Conduct C) (t : Team C) (r : Run) : Prop :=
  ∀ now deadline, (t.continueRun conduct false deadline (t.members.drop r.position) now r.began
    r.position).2 = []

/-- A run that stands still will not come to anybody else. -/
theorem outstanding_of_still (h : t.Running) {r : Run} (hstill : t.Still conduct r) :
    conduct.outstanding t.members r = [] := by
  obtain ⟨position, began⟩ := r
  rw [Conduct.outstanding]
  cases hahead : t.members.drop position with
  | nil => simp
  | cons m rest =>
      have hstopped := isStopped_of_running h (of_ahead hahead).1
      -- Given time enough, the run of the next member is begun, or ends if it can.
      cases began with
      | none =>
          have hbegins := hstill 0 0
          simp only [hahead, continueRun, hstopped] at hbegins
          cases hprogress : conduct.progress m.body false <;> simp [hprogress] at hbegins
      | some start =>
          have hends (deadline : Nat) := hstill 0 deadline
          simp only [hahead, continueRun, hstopped] at hends
          have hwaits : conduct.returns m = false := by
            match hprogress : conduct.progress m.body false with
            | .over => simp [hprogress] at hends
            | .lasting duration => simpa [hprogress] using hends (start + duration + 1)
            | .failed cause => simp [Conduct.returns, hprogress]
            | .waiting => simp [Conduct.returns, hprogress]
          simp [reached_cons, hwaits]

variable (conduct) in
/-- A run that is given enough time comes to stand still. -/
theorem exists_still (h : t.Running) (now : Nat) (began : Option Nat) (position : Nat)
    {ahead : List (Member C)} (hahead : t.members.drop position = ahead) :
    ∃ enough, ∀ deadline, enough ≤ deadline →
      t.Still conduct (t.continueRun conduct false deadline ahead now began position).1 := by
  induction ahead generalizing now began position with
  | nil =>
      refine ⟨0, fun deadline _ now' deadline' => ?_⟩
      simp [continueRun, hahead]
  | cons m rest ih =>
      obtain ⟨hm, hrest, hend⟩ := of_ahead hahead
      have hstopped := isStopped_of_running h hm
      match hprogress : conduct.progress m.body false with
      | .over =>
          obtain ⟨enough, hstill⟩ := ih now none (position + 1) hrest
          refine ⟨enough, fun deadline hlate => ?_⟩
          simpa [continueRun, hstopped, hprogress] using hstill deadline hlate
      | .failed cause =>
          refine ⟨0, fun deadline _ now' deadline' => ?_⟩
          simp [continueRun, hstopped, hprogress, hend]
      | .lasting duration =>
          obtain ⟨enough, hstill⟩ := ih (began.getD now + duration) none (position + 1) hrest
          refine ⟨max enough (began.getD now + duration + 1), fun deadline hlate => ?_⟩
          have hover : began.getD now + duration < deadline := by omega
          simpa [continueRun, hstopped, hprogress, hover] using hstill deadline (by omega)
      | .waiting =>
          refine ⟨0, fun deadline _ now' deadline' => ?_⟩
          simp [continueRun, hstopped, hprogress, hahead]

/-- How a run goes on does not depend on what else the team runs. -/
theorem continueRun_with_runs (runs : List Run) (allStopped : Bool) (deadline : Nat)
    (ahead : List (Member C)) (now : Nat) (began : Option Nat) (position : Nat) :
    ({ t with runs := runs } : Team C).continueRun conduct allStopped deadline ahead now began
        position =
      t.continueRun conduct allStopped deadline ahead now began position := by
  induction ahead generalizing now began position with
  | nil => rfl
  | cons m rest ih => simp only [continueRun, isStopped, ih]

/-- Neither does it depend on that whether a run cannot go on. -/
theorem still_with_runs (runs : List Run) {r : Run} (h : t.Still conduct r) :
    ({ t with runs := runs } : Team C).Still conduct r := by
  intro now deadline
  rw [continueRun_with_runs]
  exact h now deadline

/-- A team that has one run goes on with it, and does nothing else. -/
theorem settle_of_runs {r : Run} (h : t.runs = [r]) (allStopped : Bool) (now deadline : Nat) :
    let went := t.continueRun conduct allStopped deadline (t.members.drop r.position) now r.began
      r.position
    t.settle conduct allStopped now deadline = ({ t with runs := [went.1] }, went.2) := by
  simp [settle, h]

end Team

namespace Fleet

variable (conduct : Conduct C)

/-- What the runs of a managed team do at an occasion. -/
def runDeeds (n : String) (f : Fleet C) : Occasion C → List Deed
  | .elapse now deadline =>
    ((List.lookup n f.managed).map fun t => (t.settle conduct f.stopped now deadline).2).getD []
  | _ => []

/-- What the runs of a managed team do in the course of some occasions. -/
def runDeedsAll (n : String) : List (Occasion C) → Fleet C → List Deed
  | [], _ => []
  | o :: rest, f => f.runDeeds conduct n o ++ runDeedsAll n rest (f.meet conduct o).1

/-- The runs of a managed team cannot go on. -/
def AtRest (n : String) (f : Fleet C) : Prop :=
  ∀ now deadline, f.runDeeds conduct n (.elapse now deadline) = []

/-- A namespace has a team with some members that has one run. -/
def Runs (n : String) (members : List (Member C)) (r : Run) (f : Fleet C) : Prop :=
  ∃ t, List.lookup n f.managed = some t ∧ t.members = members ∧ t.runs = [r]

/-- What the runs of a managed team do is part of what the fleet does. -/
theorem runDeeds_sublist (n : String) (f : Fleet C) (o : Occasion C) :
    (f.runDeeds conduct n o).Sublist (f.meet conduct o).2 := by
  cases o with
  | notify registry note => exact List.nil_sublist _
  | push receive p => exact List.nil_sublist _
  | elapse now deadline =>
      rw [runDeeds]
      cases hteam : List.lookup n f.managed with
      | none => exact List.nil_sublist _
      | some t =>
          have hmem := List.mem_map_of_mem
            (f := fun e : String × Team C => (e.1, e.2.settle conduct f.stopped now deadline))
            (Table.mem_of_lookup hteam)
          have hpart := List.sublist_flatten_of_mem
            (List.mem_map_of_mem (f := fun e : String × Team C × List Deed => e.2.2) hmem)
          exact hpart.trans (List.sublist_append_left _ _)

variable {conduct}

/-- A namespace that stays managed keeps its team. -/
theorem lookup_sync_of_stays {registry : Registry (String → Except String C)}
    {note : Notification} {f : Fleet C} {n : String} (h : f.managed.has n = true)
    (hstays : (f.sync conduct registry note).1.managed.has n = true) :
    List.lookup n (f.sync conduct registry note).1.managed = List.lookup n f.managed := by
  by_cases hn : n = note.object.name
  · subst hn
    rcases sync_cases conduct registry note f with
      ⟨t, deeds, hd, -, -⟩ | ⟨cause, deeds, -, -, hsync⟩ | ⟨t, -, -, hsync⟩ |
      ⟨-, hsync⟩
    · obtain ⟨-, -, hfree⟩ := demand_eq_start_iff.1 hd
      cases h.symm.trans hfree
    · rw [hsync]
    · rw [hsync] at hstays
      cases hstays.symm.trans ((Table.has_erase _ _ f.managed).trans (if_pos rfl))
    · rw [hsync]
  · exact lookup_sync_of_other hn

/-- At any occasion that leaves a namespace managed, the kinds that are begun are the first of those
whose turn had yet to come. -/
theorem runs_meet {f : Fleet C} (hintact : f.Intact) (hgoing : f.stopped = false) {n : String}
    {members : List (Member C)} {r : Run} (h : f.Runs n members r) (o : Occasion C)
    (hstays : (f.meet conduct o).1.managed.has n = true) :
    ∃ r', (f.meet conduct o).1.Runs n members r' ∧
      (f.runDeeds conduct n o).filterMap Deed.begun? ++
        (conduct.outstanding members r').map (·.kind) =
        (conduct.outstanding members r).map (·.kind) := by
  obtain ⟨t, hteam, rfl, hrun⟩ := h
  cases o with
  | push receive p => exact ⟨r, ⟨t, hteam, rfl, hrun⟩, rfl⟩
  | notify registry note =>
      have hkept := lookup_sync_of_stays (by simp [Table.has, hteam]) hstays
      exact ⟨r, ⟨t, hkept.trans hteam, rfl, hrun⟩, rfl⟩
  | elapse now deadline =>
      have hrunning : t.Running := hintact.running _ (Table.mem_of_lookup hteam)
      let went := t.continueRun conduct false deadline (t.members.drop r.position) now r.began
        r.position
      have hsettle : t.settle conduct f.stopped now deadline =
          ({ t with runs := [went.1] }, went.2) := by
        rw [hgoing]
        exact Team.settle_of_runs hrun false now deadline
      refine ⟨went.1, ⟨{ t with runs := [went.1] }, ?_, rfl, rfl⟩, ?_⟩
      · rw [meet, lookup_settle, hteam, Option.map_some, hsettle]
      · rw [runDeeds, hteam, Option.map_some, hsettle]
        exact Team.outstanding_continueRun hrunning deadline now r.began r.position rfl

/-- As long as a namespace stays managed, the runs of its team are begun in turn. -/
theorem runs_after {f : Fleet C} (hintact : f.Intact) (hgoing : f.stopped = false) {n : String}
    {members : List (Member C)} {r : Run} (h : f.Runs n members r) {later : List (Occasion C)}
    (hstays : ∀ l, l <+: later → (f.after conduct l).managed.has n = true) :
    ∃ r', (f.after conduct later).Runs n members r' ∧
      (f.runDeedsAll conduct n later).filterMap Deed.begun? ++
        (conduct.outstanding members r').map (·.kind) =
        (conduct.outstanding members r).map (·.kind) := by
  induction later generalizing f r with
  | nil => exact ⟨r, h, rfl⟩
  | cons o rest ih =>
      obtain ⟨r₁, hruns, hfirst⟩ := runs_meet hintact hgoing h o (hstays [o] (by simp))
      obtain ⟨r', hruns', hrest⟩ := ih (intact_meet hintact o) ((stopped_meet f o).trans hgoing)
        hruns fun l hl => hstays (o :: l) (List.cons_prefix_cons.2 ⟨rfl, hl⟩)
      refine ⟨r', hruns', ?_⟩
      rw [runDeedsAll, List.filterMap_append, List.append_assoc, hrest, hfirst]

/-- A managed team is at rest just if its one run cannot go on. -/
theorem atRest_iff_still {f : Fleet C} (hgoing : f.stopped = false) {n : String} {t : Team C}
    (hteam : List.lookup n f.managed = some t) {r : Run} (hrun : t.runs = [r]) :
    f.AtRest conduct n ↔ t.Still conduct r := by
  refine forall₂_congr fun now deadline => ?_
  rw [runDeeds, hteam, hgoing, Option.map_some, Team.settle_of_runs hrun]
  rfl

/-- A managed team that is given enough time cannot go on. -/
theorem exists_atRest {f : Fleet C} (hintact : f.Intact) (hgoing : f.stopped = false) {n : String}
    {t : Team C} (hteam : List.lookup n f.managed = some t) {r : Run} (hrun : t.runs = [r])
    (now : Nat) :
    ∃ enough, ∀ deadline, enough ≤ deadline →
      (f.meet conduct (.elapse now deadline)).1.AtRest conduct n := by
  have hrunning : t.Running := hintact.running _ (Table.mem_of_lookup hteam)
  obtain ⟨enough, hstill⟩ := Team.exists_still conduct hrunning now r.began r.position rfl
  refine ⟨enough, fun deadline hlate => ?_⟩
  have hstopped : (f.meet conduct (.elapse now deadline)).1.stopped = false :=
    (stopped_meet f _).trans hgoing
  refine (atRest_iff_still hstopped ?_ rfl).2 (Team.still_with_runs _ (hstill deadline hlate))
  rw [meet, lookup_settle, hteam, Option.map_some, hgoing, Team.settle_of_runs hrun]

/-- A namespace becomes managed by getting a new team, whose run is before the first member. -/
theorem runs_of_started {registry : Registry (String → Except String C)} {note : Notification}
    {f : Fleet C} (hfree : f.managed.has note.object.name = false)
    (hmanaged : (f.sync conduct registry note).1.managed.has note.object.name = true) :
    ∃ t deeds, Team.make registry note.object.name = (.ok t, deeds) ∧
      (f.sync conduct registry note).1.Runs note.object.name t.members {} := by
  rcases sync_cases conduct registry note f with
    ⟨t, deeds, -, hmake, hsync⟩ | ⟨cause, deeds, -, -, hsync⟩ | ⟨t, -, -, hsync⟩ |
    ⟨-, hsync⟩
  · obtain ⟨-, -, -, hfresh⟩ := Team.deeds_of_make hmake
    refine ⟨t, deeds, hmake, t.beginRun, ?_, rfl, by rw [Team.beginRun, hfresh]; rfl⟩
    rw [hsync]
    exact (Table.lookup_insert _ _ _ f.managed).trans (if_pos rfl)
  · rw [hsync] at hmanaged
    cases hfree.symm.trans hmanaged
  · rw [hsync] at hmanaged
    cases hmanaged.symm.trans ((Table.has_erase _ _ f.managed).trans (if_pos rfl))
  · rw [hsync] at hmanaged
    cases hfree.symm.trans hmanaged

/-- **Whose runs are begun.**  Let a namespace become managed and stay so, whatever else happens to
the fleet.  The runs of its controllers are begun in the order of their kinds' registration and none
is begun twice.  Given time enough they come as far as they can; then they have been begun up to and
with the first that does not come to its end.  So every one has been begun exactly if all but the
last come to their ends. -/
theorem begun_at_rest (conduct : Conduct C) (past : List (Occasion C))
    (registry : Registry (String → Except String C)) (note : Notification)
    (later : List (Occasion C)) :
    let f := ({} : Fleet C).after conduct past
    let n := note.object.name
    let started := (f.sync conduct registry note).1
    let g := started.after conduct later
    let begun := (started.runDeedsAll conduct n later).filterMap Deed.begun?
    f.managed.has n = false →
    (∀ l, l <+: later → (started.after conduct l).managed.has n = true) →
    ∃ t deeds, Team.make registry n = (.ok t, deeds) ∧
      t.members.map (·.kind) = registry.registered ∧
      begun <+: registry.registered ∧
      (∀ now, ∃ enough, ∀ deadline, enough ≤ deadline →
        (g.meet conduct (.elapse now deadline)).1.AtRest conduct n) ∧
      ((∀ now deadline, (g.settle conduct now deadline).2 = []) → g.AtRest conduct n) ∧
      (g.AtRest conduct n →
        begun = (conduct.reached t.members).map (·.kind) ∧
        (begun.Perm registry.registered ↔
          ∀ m ∈ t.members.dropLast, conduct.returns m = true)) := by
  intro f n started g begun hfree hstays
  have hintact : f.Intact := intact_after intact_empty past
  have hgoing : f.stopped = false := stopped_after _ past
  have hstarted : started.Intact := intact_meet hintact (.notify registry note)
  have hstopped : started.stopped = false := (stopped_sync conduct registry note f).trans hgoing
  obtain ⟨t, deeds, hmake, hruns⟩ := runs_of_started hfree (hstays [] List.nil_prefix)
  obtain ⟨-, hkinds⟩ := Team.of_make hmake
  obtain ⟨r, ⟨u, hteam, hmembers, hrun⟩, hturns⟩ :=
    runs_after hstarted hstopped hruns hstays
  have hintactg : g.Intact := intact_after hstarted later
  have hgoingg : g.stopped = false := (stopped_after started later).trans hstopped
  have hwhole : begun ++ (conduct.outstanding t.members r).map (·.kind) =
      (conduct.reached t.members).map (·.kind) := hturns
  have hprefix : (conduct.reached t.members).map (·.kind) <+: registry.registered :=
    hkinds ▸ (prefix_reached conduct t.members).map _
  refine ⟨t, deeds, hmake, hkinds, .trans ⟨_, hwhole⟩ hprefix,
    exists_atRest hintactg hgoingg hteam hrun, fun hall now deadline => ?_, fun hrest => ?_⟩
  · have hpart := runDeeds_sublist conduct n g (.elapse now deadline)
    rw [meet, hall now deadline] at hpart
    exact List.eq_nil_of_sublist_nil hpart
  · have hstill := (atRest_iff_still hgoingg hteam hrun).1 hrest
    have hnone := Team.outstanding_of_still (hintactg.running _ (Table.mem_of_lookup hteam)) hstill
    rw [hmembers] at hnone
    rw [hnone, List.map_nil, List.append_nil] at hwhole
    refine ⟨hwhole, ?_⟩
    rw [hwhole, ← reached_eq_self_iff]
    constructor
    · intro hperm
      have hlength : (conduct.reached t.members).length = t.members.length := by
        simpa [← hkinds] using hperm.length_eq
      exact (prefix_reached conduct t.members).eq_of_length hlength
    · intro hall
      rw [hall, hkinds]

/-- A namespace that is enabled. -/
def enabled (n : String) : Notification := { change := .added, object := labelled n "true" }

/-- Two kinds, of which the first takes a second and the second runs until it is stopped. -/
def slowThenStuck : Registry (String → Except String Script) :=
  { entries := [("slow", fun _ => .ok { running := .lasting 1000 }),
      ("stuck", fun _ => .ok { running := .waiting })] }

/-- Both are begun within five seconds: only the last does not come to its end. -/
theorem both_begun :
    let started := (({} : Fleet Script).sync Script.conduct slowThenStuck (enabled "a")).1
    let later := [Occasion.elapse 0 5000]
    (started.after Script.conduct later).AtRest Script.conduct "a" ∧
      ((started.runDeedsAll Script.conduct "a" later).filterMap Deed.begun?).Perm
        ["slow", "stuck"] := by
  intro started later
  have hstays : ∀ l, l <+: later → (started.after Script.conduct l).managed.has "a" = true := by
    intro l hl
    rcases List.prefix_cons_iff.1 hl with rfl | ⟨rest, rfl, hrest⟩
    · decide
    · rw [List.prefix_nil.1 hrest]
      decide
  obtain ⟨t, deeds, hmake, -, -, -, -, hbegun⟩ :=
    begun_at_rest Script.conduct [] slowThenStuck (enabled "a") later (by decide) hstays
  cases hmake
  have hrest : (started.after Script.conduct later).AtRest Script.conduct "a" := fun _ _ => rfl
  exact ⟨hrest, (hbegun hrest).2.2 (by decide)⟩

/-- The run of a first kind, and a second kind that runs and is over. -/
def before (running : Progress) : Registry (String → Except String Script) :=
  { entries := [("first", fun _ => .ok { running }), ("second", fun _ => .ok {})] }

/-- A run that waits forever, or fails, keeps that of the next kind from being begun. -/
theorem second_never_begun :
    let later := [Occasion.elapse 0 5000]
    let started := fun running =>
      (({} : Fleet Script).sync Script.conduct (before running) (enabled "a")).1
    let onlyFirst := fun running =>
      ((started running).managed.has "a" = true ∧
        ((started running).after Script.conduct later).managed.has "a" = true) ∧
      ((started running).after Script.conduct later).AtRest Script.conduct "a" ∧
      ((started running).runDeedsAll Script.conduct "a" later).filterMap Deed.begun? = ["first"]
    onlyFirst .waiting ∧ onlyFirst (.failed "run failure") := by
  intro later started onlyFirst
  have hwaiting : onlyFirst .waiting := ⟨by decide, fun _ _ => rfl, rfl⟩
  have hfailed : onlyFirst (.failed "run failure") := ⟨by decide, fun _ _ => rfl, rfl⟩
  exact ⟨hwaiting, hfailed⟩

end Fleet

end ImageRollout.Controllers
