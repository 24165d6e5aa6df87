import ImageRollout.Proofs.Fleet.Acts
import ImageRollout.Proofs.Fleet.Oversight

/-!
# A complete list

Whatever happened before, a complete list brings the tracker and the fleet to what the list says:
known are the listed namespaces as last listed, and managed are those of them that are enabled.  A
team goes through the list untouched exactly if the list never gives a reason to stop it.

What was done before may include failing makers, failing stops and a list that broke off.  All that
is needed of it is `Covered`: a managed namespace is known.

* `covered_step`, `covered_reached`: no event and no failure uncovers a managed namespace.
* `closed_listEnd`, `closed_list`: what the end of a list does, and what its objects do before.
* `list_settles`: two runs agree after the same complete list, and what each keeps of its teams.
-/

namespace ImageRollout.Controllers

open Kubernetes Namespaces Watch

variable {C : Type}

namespace Oversight

/-- What can come of a run of events, whatever makers and controllers do at each of them, and
whatever goes on within the teams in between. -/
inductive Reached : Oversight C → Prop
  | start : Reached {}
  | next {conduct : Conduct C} {registry : Registry (String → Except String C)}
      {e : Event Namespace} {o o' : Oversight C} (h : Reached o)
      (hstep : Step conduct registry e o o') : Reached o'
  | within {o : Oversight C} {fleet : Fleet C} (h : Reached o)
      (hsame : ∀ n, fleet.managed.has n = o.fleet.managed.has n) : Reached { o with fleet }

/-- The events of a complete list. -/
def completeList (objects : List Namespace) : List (Event Namespace) :=
  .listing :: (objects.map .listed ++ [.listEnd])

/-- The last of the listed objects that bears a name. -/
def lastListed (n : String) (objects : List Namespace) : Option Namespace :=
  objects.reverse.find? (·.name = n)

variable (conduct : Conduct C) (registry : Registry (String → Except String C))

/-- Events are handled one after the other, the notifications of each in some order; the acts are
what is done to teams on the way. -/
inductive Handles : List (Event Namespace) → Oversight C → List Act → Oversight C → Prop
  | nil {o : Oversight C} : Handles [] o [] o
  | cons {e : Event Namespace} {rest : List (Event Namespace)} {notes : List Notification}
      {o o' : Oversight C} {acts : List Act} (hnotes : notes.Perm (o.tracker.observe e).2)
      (hrest : Handles rest
        { tracker := (o.tracker.observe e).1, fleet := o.fleet.syncAll conduct registry notes }
        acts o') :
      Handles (e :: rest) o (o.fleet.actsAll conduct registry notes ++ acts) o'

/-- A managed namespace is known. -/
structure Covered (o : Oversight C) : Prop where
  wellKept : o.tracker.WellKept
  known : ∀ n, o.fleet.managed.has n = true → (List.lookup n o.tracker.known).isSome

/-- The team of a namespace is the same before and after, and nothing was done to it. -/
def Survives (n : String) (o : Oversight C) (acts : List Act) (o' : Oversight C) : Prop :=
  ∃ t, List.lookup n o.fleet.managed = some t ∧ List.lookup n o'.fleet.managed = some t ∧
    ∀ a ∈ acts, a.namespaceName ≠ n

/-- What a complete list makes of what was before it. -/
structure Settled (objects : List Namespace) (o : Oversight C) (acts : List Act)
    (o' : Oversight C) : Prop where
  known : ∀ n, List.lookup n o'.tracker.known = lastListed n objects
  managed : ∀ n, o'.fleet.managed.has n = true ↔
    ∃ object, lastListed n objects = some object ∧ isEnabled object = true
  survives : ∀ n, Survives n o acts o' ↔ o.fleet.managed.has n = true ∧
    (∃ object ∈ objects, object.name = n) ∧
    ∀ object ∈ objects, object.name = n → isEnabled object = true

/-- What the rest of a list makes of what was before it, when the list has held some names. -/
structure Closed (names : List String) (objects : List Namespace) (o : Oversight C)
    (acts : List Act) (o' : Oversight C) : Prop where
  known : ∀ n, List.lookup n o'.tracker.known =
    (lastListed n objects).or (if n ∈ names then List.lookup n o.tracker.known else none)
  managed : ∀ n, o'.fleet.managed.has n =
    match lastListed n objects with
    | some object => isEnabled object
    | none => decide (n ∈ names) && o.fleet.managed.has n
  idle : ∀ n, o.fleet.managed.has n = true →
    ((∀ a ∈ acts, a.namespaceName ≠ n) ↔
      (n ∈ names ∨ ∃ object ∈ objects, object.name = n) ∧
      ∀ object ∈ objects, object.name = n → isEnabled object = true)

/-- Every sequence of events can be handled from everywhere, in whatever order the notifications of
each are put. -/
theorem exists_handles {order : List Notification → List Notification}
    (horder : ∀ notes, (order notes).Perm notes) (es : List (Event Namespace)) (o : Oversight C) :
    ∃ acts o', Handles conduct registry es o acts o' := by
  induction es generalizing o with
  | nil => exact ⟨[], o, .nil⟩
  | cons e rest ih =>
      obtain ⟨acts, o', hrest⟩ := ih
        { tracker := (o.tracker.observe e).1
          fleet := o.fleet.syncAll conduct registry (order (o.tracker.observe e).2) }
      exact ⟨_, o', .cons (horder _) hrest⟩

variable {conduct registry}

/-- What a run of events comes to can be reached. -/
theorem reached_run {es : List (Event Namespace)} {o : Oversight C}
    (h : Run conduct registry es o) : Reached o := by
  induction h with
  | start => exact .start
  | next _ hstep ih => exact .next ih hstep

/-- An object is the last of its name unless a later one bears it. -/
theorem lastListed_cons (n : String) (object : Namespace) (rest : List Namespace) :
    lastListed n (object :: rest) =
      (lastListed n rest).or (if object.name = n then some object else none) := by
  by_cases hn : object.name = n <;>
    simp [lastListed, List.find?_append, hn]

/-- A notification manages no namespace anew but its own. -/
theorem managed_of_managed_sync {note : Notification} {f : Fleet C} {n : String}
    (h : (f.sync conduct registry note).1.managed.has n = true) (hn : n ≠ note.object.name) :
    f.managed.has n = true := by
  rcases Fleet.sync_cases conduct registry note f with
    ⟨t, deeds, -, -, hsync⟩ | ⟨cause, deeds, -, -, hsync⟩ | ⟨t, -, -, hsync⟩ |
    ⟨-, hsync⟩
  · rw [hsync] at h
    change (Table.insert _ _ f.managed).has n = true at h
    rwa [Table.has_insert, if_neg hn] at h
  · rwa [hsync] at h
  · rw [hsync] at h
    change (Table.erase _ f.managed).has n = true at h
    rwa [Table.has_erase, if_neg hn] at h
  · rwa [hsync] at h

/-- Remembering an object and telling the fleet of it leaves every managed namespace known. -/
theorem covered_remember {o : Oversight C} (h : o.Covered) {t : Tracker} {object : Namespace}
    (hknown : t.known = o.tracker.known) (hkept : (t.remember object).1.WellKept) :
    Covered
      { tracker := (t.remember object).1
        fleet := (o.fleet.sync conduct registry (t.remember object).2).1 } := by
  refine ⟨hkept, fun n hmanaged => ?_⟩
  change (List.lookup n (Table.insert object.name object t.known)).isSome = true
  rw [Table.lookup_insert, hknown]
  by_cases hn : n = object.name
  · rw [if_pos hn]
    rfl
  · rw [if_neg hn]
    exact h.known n (managed_of_managed_sync hmanaged hn)

/-- **No event uncovers a managed namespace**, whatever makers and controllers do. -/
theorem covered_step {e : Event Namespace} {o o' : Oversight C} (h : o.Covered)
    (hstep : Step conduct registry e o o') : o'.Covered := by
  obtain ⟨hnotes⟩ := hstep
  rename_i notes
  have hkept := Tracker.wellKept_observe h.wellKept e
  cases e with
  | listing =>
      have hnone : notes = [] := hnotes.eq_nil
      rw [hnone]
      exact ⟨hkept, h.known⟩
  | listed object =>
      have hone : notes = [((o.tracker.noteListed object.name).remember object).2] :=
        List.perm_singleton.1 hnotes
      rw [hone]
      exact covered_remember h rfl hkept
  | applied object =>
      have hone : notes = [(o.tracker.remember object).2] := List.perm_singleton.1 hnotes
      rw [hone]
      exact covered_remember h rfl hkept
  | deleted object =>
      have hone : notes = [{ change := .deleted, object }] := List.perm_singleton.1 hnotes
      rw [hone]
      refine ⟨hkept, fun n hmanaged => ?_⟩
      change (o.fleet.sync conduct registry _).1.managed.has n = true at hmanaged
      rw [Fleet.has_sync_of_deleted conduct registry rfl] at hmanaged
      rw [Tracker.lookup_known_observe, Tracker.knownAfter]
      by_cases hn : n = object.name
      · rw [if_pos hn] at hmanaged
        cases hmanaged
      · rw [if_neg hn] at hmanaged
        rw [if_neg hn]
        exact h.known n hmanaged
  | listEnd =>
      refine ⟨hkept, fun n hmanaged => ?_⟩
      change (o.fleet.syncAll conduct registry notes).managed.has n = true at hmanaged
      rw [has_after_listEnd h.wellKept hnotes] at hmanaged
      rw [Tracker.lookup_known_observe, Tracker.knownAfter]
      have hknown := h.known n
      cases hlookup : List.lookup n o.tracker.known <;> grind

/-- Every managed namespace is known, whatever the events were. -/
theorem covered_reached {o : Oversight C} (h : Reached o) : o.Covered := by
  induction h with
  | start => exact ⟨Tracker.wellKept_empty, fun n hn => absurd hn (by simp [Table.has])⟩
  | next _ hstep ih => exact covered_step ih hstep
  | within _ hsame ih => exact ⟨ih.wellKept, fun n hn => ih.known n (hsame n ▸ hn)⟩

/-- Of a managed namespace nothing was done to its team exactly if the team survives. -/
theorem survives_iff (hreg : registry.NeverFails) {es : List (Event Namespace)} {o o' : Oversight C}
    {acts : List Act} (h : Handles conduct registry es o acts o') (n : String) :
    Survives n o acts o' ↔
      o.fleet.managed.has n = true ∧ ∀ a ∈ acts, a.namespaceName ≠ n := by
  have hsame : (∀ a ∈ acts, a.namespaceName ≠ n) →
      List.lookup n o'.fleet.managed = List.lookup n o.fleet.managed := by
    intro hidle
    induction h with
    | nil => rfl
    | cons hnotes hrest ih =>
        have hlater := ih fun a ha => hidle a (List.mem_append_right _ ha)
        rw [hlater]
        apply Fleet.lookup_syncAll_of_idle hreg
        intro a ha
        exact hidle a (List.mem_append_left _ ha)
  constructor
  · rintro ⟨t, hbefore, -, hidle⟩
    exact ⟨by simp [Table.has, hbefore], hidle⟩
  · rintro ⟨hmanaged, hidle⟩
    obtain ⟨t, hteam⟩ := Option.isSome_iff_exists.1 hmanaged
    exact ⟨t, hteam, (hsame hidle).trans hteam, hidle⟩

/-- **The end of a list** forgets and stops what the list did not hold, and nothing else. -/
theorem closed_listEnd (hreg : registry.NeverFails) {o o' : Oversight C} (h : o.Covered)
    {names : List String} (hnames : o.tracker.relisted = some names) {acts : List Act}
    (hend : Handles conduct registry [.listEnd] o acts o') : Closed names [] o acts o' := by
  cases hend with
  | cons hnotes hrest =>
      cases hrest
      rename_i notes
      have hmanaged (n : String) : (o.fleet.syncAll conduct registry notes).managed.has n =
          (decide (n ∈ names) && o.fleet.managed.has n) := by
        rw [has_after_listEnd h.wellKept hnotes, hnames]
        have hknown := h.known n
        by_cases hhas : o.fleet.managed.has n = true
        · simp [hhas, hknown hhas]
        · simp [hhas]
      refine ⟨fun n => ?_, hmanaged, fun n hhas => ?_⟩
      · change List.lookup n (o.tracker.observe .listEnd).1.known = _
        rw [Tracker.lookup_known_observe, Tracker.knownAfter, hnames]
        simp [lastListed]
      · rw [List.append_nil]
        constructor
        · intro hidle
          -- Untouched, the team would still be managed.
          have hsame := Fleet.lookup_syncAll_of_idle hreg hidle
          have hstill := hmanaged n
          rw [Table.has, hsame, ← Table.has, hhas] at hstill
          simpa using hstill
        · rintro ⟨hlisted, -⟩ a ha hname
          obtain ⟨note, hmem, hnote⟩ := Fleet.exists_of_mem_actsAll ha
          have hgone : (o.tracker.observe .listEnd).2.any (·.object.name = n) = true :=
            List.any_eq_true.2 ⟨note, hnotes.mem_iff.1 hmem, by simpa [hname] using hnote⟩
          rw [any_gone_iff h.wellKept, hnames] at hgone
          simp_all

/-- A listed object decides whether its namespace is managed. -/
theorem managed_after_listed (hreg : registry.NeverFails) {o : Oversight C} (h : o.Covered)
    (object : Namespace) (n : String) :
    (o.fleet.sync conduct registry
        ((o.tracker.noteListed object.name).remember object).2).1.managed.has n =
      if n = object.name then isEnabled object else o.fleet.managed.has n := by
  rw [Fleet.has_sync conduct registry hreg]
  change (if n = object.name then managedAfter _ _ else _) = _
  by_cases hn : n = object.name
  · have hknown := h.known object.name
    rw [if_pos hn, if_pos hn, hn]
    cases hlookup : List.lookup object.name o.tracker.known with
    | some old => simp [managedAfter, Tracker.remember, Tracker.noteListed, Table.has, hlookup]
    | none =>
        have hunmanaged : o.fleet.managed.has object.name = false := by
          rw [← Bool.not_eq_true]
          intro hmanaged
          simpa [hlookup] using hknown hmanaged
        rw [hunmanaged]
        simp [managedAfter, Tracker.remember, Tracker.noteListed, Table.has, hlookup]
  · rw [if_neg hn, if_neg hn]

/-- A listed object does nothing to a team that is there exactly if it is enabled. -/
theorem act_listed_eq_none_iff {o : Oversight C} (h : o.Covered) {object : Namespace}
    (hhas : o.fleet.managed.has object.name = true) :
    o.fleet.act? ((o.tracker.noteListed object.name).remember object).2 = none ↔
      isEnabled object = true := by
  have hknown : o.tracker.known.has object.name = true := h.known object.name hhas
  have hchange : ((o.tracker.noteListed object.name).remember object).2 =
      { change := .modified, object } := by
    simp [Tracker.remember, Tracker.noteListed, hknown]
  rw [hchange, Fleet.act?, hhas]
  cases isEnabled object <;> simp [demand]

/-- A listed object leaves the team of a namespace alone just if it is another's or enabled. -/
theorem idle_listed_iff {o : Oversight C} (h : o.Covered) (object : Namespace) {n : String}
    (hhas : o.fleet.managed.has n = true) :
    (∀ a ∈ o.fleet.actsAll conduct registry
        [((o.tracker.noteListed object.name).remember object).2], a.namespaceName ≠ n) ↔
      (object.name = n → isEnabled object = true) := by
  rw [Fleet.actsAll, Fleet.actsAll, List.append_nil]
  by_cases hn : object.name = n
  · rw [← hn] at hhas
    rw [← act_listed_eq_none_iff h hhas]
    cases hact : o.fleet.act? ((o.tracker.noteListed object.name).remember object).2 with
    | none => simp
    | some a =>
        have hname : a.namespaceName = object.name := Fleet.namespaceName_of_act? hact
        simp [hname, hn]
  · refine iff_of_true (fun a ha hname => hn ?_) (fun heq => absurd heq hn)
    exact (Fleet.namespaceName_of_act? (Option.mem_toList.1 ha)).symm.trans hname

/-- **The rest of a list**, object by object: what is listed later replaces what was listed
before. -/
theorem closed_list (hreg : registry.NeverFails) {o o' : Oversight C} (h : o.Covered)
    {names : List String} (hnames : o.tracker.relisted = some names) {objects : List Namespace}
    {acts : List Act}
    (hlist : Handles conduct registry (objects.map .listed ++ [.listEnd]) o acts o') :
    Closed names objects o acts o' := by
  induction objects generalizing o names acts with
  | nil => exact closed_listEnd hreg h hnames hlist
  | cons object rest ih =>
      cases hlist with
      | cons hnotes hrest =>
          rename_i notes later
          have hone : notes = [((o.tracker.noteListed object.name).remember object).2] :=
            List.perm_singleton.1 hnotes
          have hstep : Step conduct registry (.listed object) o _ := .hand hnotes
          have hcovered := covered_step h hstep
          have hnoted : (o.tracker.observe (.listed object)).1.relisted =
              some (object.name :: names) := by
            simp [Tracker.observe, Tracker.remember, Tracker.noteListed, hnames]
          obtain ⟨hknown, hmanaged, hidle⟩ := ih hcovered hnoted hrest
          have hnow (n : String) : (o.fleet.syncAll conduct registry notes).managed.has n =
              if n = object.name then isEnabled object else o.fleet.managed.has n := by
            rw [hone]
            exact managed_after_listed hreg h object n
          have hbefore (n : String) : List.lookup n (o.tracker.observe (.listed object)).1.known =
              if n = object.name then some object else List.lookup n o.tracker.known :=
            Tracker.lookup_known_observe o.tracker (.listed object) n
          refine ⟨fun n => ?_, fun n => ?_, fun n hhas => ?_⟩
          · rw [hknown, hbefore, lastListed_cons]
            by_cases hn : n = object.name
            · simp [hn]
            · have hn' : object.name ≠ n := fun heq => hn heq.symm
              simp [hn, hn']
          · rw [hmanaged, hnow, lastListed_cons]
            cases hlater : lastListed n rest with
            | some other => simp
            | none =>
                by_cases hn : n = object.name
                · simp [hn]
                · have hn' : object.name ≠ n := fun heq => hn heq.symm
                  simp [hn, hn']
          · rw [List.forall_mem_append, hone, idle_listed_iff h object hhas]
            have hlater := hidle n
            rw [hnow n] at hlater
            by_cases hn : n = object.name
            · rw [if_pos hn] at hlater
              grind
            · rw [if_neg hn] at hlater
              have hrest := hlater hhas
              grind

/-- What a complete list makes of anything that can be reached. -/
theorem settled_of_handles (hreg : registry.NeverFails) {o o' : Oversight C} (h : Reached o)
    {objects : List Namespace} {acts : List Act}
    (hlist : Handles conduct registry (completeList objects) o acts o') :
    Settled objects o acts o' := by
  have hcovered := covered_reached h
  have hsurvives := survives_iff hreg hlist
  cases hlist with
  | cons hnotes hrest =>
      rename_i notes later
      have hnone : notes = [] := hnotes.eq_nil
      subst hnone
      have hbegun : Covered { o with tracker := (o.tracker.observe .listing).1 } :=
        ⟨⟨hcovered.wellKept.nodup, hcovered.wellKept.keyed⟩, hcovered.known⟩
      obtain ⟨hknown, hmanaged, hidle⟩ := closed_list hreg hbegun rfl hrest
      refine ⟨fun n => ?_, fun n => ?_, fun n => ?_⟩
      · simpa using hknown n
      · rw [hmanaged n]
        cases lastListed n objects <;> simp
      · rw [hsurvives]
        refine and_congr_right fun hhas => ?_
        simpa [Fleet.actsAll] using hidle n hhas

/-- **A complete list settles everything.**  Take any two states of tracker and fleet, whatever
events, failures and unfinished lists are behind them, and let both handle the same complete list
with makers that do not fail, the vanished namespaces reported in any order.  Then both manage the
same namespaces, which are those enabled as last listed, and both know exactly the listed ones as
last listed.  In each a team goes through the list untouched exactly if its namespace was managed
before, is listed, and is enabled wherever it is listed. -/
theorem list_settles {conduct₁ conduct₂ : Conduct C}
    {registry₁ registry₂ : Registry (String → Except String C)}
    (hreg₁ : registry₁.NeverFails)
    (hreg₂ : registry₂.NeverFails) {o₁ o₁' o₂ o₂' : Oversight C} (h₁ : Reached o₁)
    (h₂ : Reached o₂) {objects : List Namespace} {acts₁ acts₂ : List Act}
    (hlist₁ : Handles conduct₁ registry₁ (completeList objects) o₁ acts₁ o₁')
    (hlist₂ : Handles conduct₂ registry₂ (completeList objects) o₂ acts₂ o₂') :
    (∀ n, o₁'.fleet.managed.has n = o₂'.fleet.managed.has n) ∧
      (∀ n, List.lookup n o₁'.tracker.known = List.lookup n o₂'.tracker.known) ∧
      Settled objects o₁ acts₁ o₁' ∧ Settled objects o₂ acts₂ o₂' := by
  have hsettled₁ := settled_of_handles hreg₁ h₁ hlist₁
  have hsettled₂ := settled_of_handles hreg₂ h₂ hlist₂
  refine ⟨fun n => ?_, fun n => ?_, hsettled₁, hsettled₂⟩
  · rw [Bool.eq_iff_iff, hsettled₁.managed, hsettled₂.managed]
  · rw [hsettled₁.known, hsettled₂.known]

/-- A registry that cannot make the team of `a`. -/
def failingFor : Registry (String → Except String Script) :=
  { entries := [("job", fun n => if n = "a" then .error "out of order" else .ok {})] }

/-- A state with a namespace whose team could not be made, in the middle of a list. -/
def interrupted : Oversight Script :=
  handAll Script.conduct failingFor id
    [.applied (labelled "a" "true"), .applied (labelled "b" "true"),
      .applied (labelled "c" "true"), .listing, .listed (labelled "c" "true")]

/-- The next list begins anew: it makes up for the failure, leaves the team of `b` alone, and
unmanages `c`, which the unfinished list had held. -/
theorem settled_after_interruption :
    twoKinds.NeverFails ∧ Reached ({} : Oversight Script) ∧ Reached interrupted ∧
      ∃ acts o' acts₂ o₂',
        Handles Script.conduct twoKinds (completeList [labelled "b" "true", labelled "a" "true"])
          {} acts o' ∧
        Handles Script.conduct twoKinds (completeList [labelled "b" "true", labelled "a" "true"])
          interrupted acts₂ o₂' ∧
        interrupted.fleet.managed.has "a" = false ∧ o₂'.fleet.managed.has "a" = true ∧
        o'.fleet.managed.has "c" = o₂'.fleet.managed.has "c" ∧
        Survives "b" interrupted acts₂ o₂' ∧ ¬ Survives "c" interrupted acts₂ o₂' := by
  have hreached : Reached interrupted :=
    reached_run (run_handAll (fun notes => List.Perm.refl notes) _)
  obtain ⟨acts, o', hlist⟩ := exists_handles Script.conduct twoKinds List.reverse_perm
    (completeList [labelled "b" "true", labelled "a" "true"]) {}
  obtain ⟨acts₂, o₂', hlist₂⟩ := exists_handles Script.conduct twoKinds List.reverse_perm
    (completeList [labelled "b" "true", labelled "a" "true"]) interrupted
  obtain ⟨hsame, -, -, hsettled⟩ :=
    list_settles neverFails_twoKinds neverFails_twoKinds .start hreached hlist hlist₂
  refine ⟨neverFails_twoKinds, .start, hreached, acts, o', acts₂, o₂', hlist, hlist₂,
    by decide, (hsettled.managed "a").2 ⟨_, rfl, by decide⟩, hsame "c",
    (hsettled.survives "b").2 ?_, ?_⟩
  · exact ⟨by decide, by decide, by decide⟩
  · intro hc
    exact absurd ((hsettled.survives "c").1 hc).2.1 (by decide)

end Oversight

end ImageRollout.Controllers
