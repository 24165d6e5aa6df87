import Mathlib.Data.List.Induction
import ImageRollout.Proofs.Fleet.Interleaving
import ImageRollout.Proofs.Sequences

/-!
# Turns

Whatever the interleaving of notifications and pushes, their tasks can be put in an order.  A
notification takes its turn when it changes the fleet, a push when it gets the fleet to itself.  The
invariant is `Linearization`: the fleet is what the turns make of it one after the other, the
deliveries are those of the turns, and a push is given to everybody in the fleet that its turn
finds.

* `keep`, `extend`, `give`: what the steps of a task do to the order.
* `step`, `leads`: every step keeps the order and adds at most a last turn to it.
-/

namespace ImageRollout.Controllers

open Namespaces

variable {C : Type} (conduct : Conduct C) (registry : Registry (String → Except String C))

/-- A task's place in the order. -/
structure Turn (C : Type) where
  task : Nat
  errand : Errand
  /-- Who was given the push so far. -/
  given : List (String × Member C) := []

/-- What a turn gives to whom. -/
def Turn.deliveries (t : Turn C) : List (Nat × (String × Member C)) := t.given.map (t.task, ·)

/-- The fleet after an errand; a push does not change it. -/
def Errand.carryOut (f : Fleet C) : Errand → Fleet C
  | .sync note => (f.sync conduct registry note).1
  | .push _ => f

/-- The fleet after turns that come one after the other. -/
def fleetAfter (turns : List (Turn C)) : Fleet C :=
  turns.foldl (fun f t => t.errand.carryOut conduct registry f) {}

/-- How far a task may have come when its turn found the fleet `f`. -/
inductive Turn.Fits (f : Fleet C) (t : Turn C) : Task C → Prop
  | changed {note : Notification} (herrand : t.errand = .sync note) (hgiven : t.given = []) :
      Fits f t (.sync note .changed)
  | synced {note : Notification} (herrand : t.errand = .sync note) (hgiven : t.given = []) :
      Fits f t (.sync note .finished)
  | giving {p : Image.Push} {visited : List String} {atWork : Option (String × Member C)}
      {rest : List (String × Member C)} (herrand : t.errand = .push p)
      (hnodup : visited.Nodup) (hmanaged : ∀ n ∈ visited, n ∈ f.managed.names)
      (hgiven : t.given ++ rest = visited.flatMap f.recipients) :
      Fits f t (.push p (.giving visited atWork rest))
  | pushed {p : Image.Push} {visited : List String} (herrand : t.errand = .push p)
      (hvisited : visited.Perm f.managed.names)
      (hgiven : t.given = visited.flatMap f.recipients) : Fits f t (.push p .finished)

/-- Whether the task has had or has its turn. -/
def Task.isPlaced : Task C → Bool
  | .sync _ .changed | .sync _ .finished | .push _ (.giving ..) | .push _ .finished => true
  | _ => false

namespace Scene

/-- One order that explains a scene. -/
structure Linearization (s : Scene C) (turns : List (Turn C)) : Prop where
  /-- A task has one turn at most. -/
  nodup : (turns.map (·.task)).Nodup
  /-- A turn does what its task is to do to the fleet that the turns before it leave. -/
  fits : ∀ before t after, turns = before ++ t :: after →
    ∃ task, s.tasks[t.task]? = some task ∧ t.Fits (fleetAfter conduct registry before) task
  /-- A task that has come far enough has its turn. -/
  placed : ∀ i task, s.tasks[i]? = some task → task.isPlaced = true →
    i ∈ turns.map (·.task)
  /-- While a push is being given out, its turn is the last one. -/
  last : ∀ i task, s.tasks[i]? = some task → task.isGiving = true →
    ∃ before t, turns = before ++ [t] ∧ t.task = i
  fleet_eq : s.fleet = fleetAfter conduct registry turns
  deliveries_eq : s.deliveries = turns.flatMap Turn.deliveries

variable {conduct registry} {s s' : Scene C} {turns : List (Turn C)} {i : Nat}

/-- The last turn finds the fleet as the turns before it leave it. -/
theorem fleetAfter_concat (turns : List (Turn C)) (t : Turn C) :
    fleetAfter conduct registry (turns ++ [t]) =
      t.errand.carryOut conduct registry (fleetAfter conduct registry turns) := by
  rw [fleetAfter, List.foldl_append]
  rfl

/-- Every order of turns leaves a fleet that is well kept. -/
theorem wellKept_fleetAfter (turns : List (Turn C)) :
    (fleetAfter conduct registry turns).WellKept registry := by
  induction turns using List.reverseRecOn with
  | nil => exact Fleet.wellKept_empty
  | append_singleton before t ih =>
      rw [fleetAfter_concat]
      cases t.errand with
      | sync note => exact Fleet.wellKept_sync ih note
      | push p => exact ih

/-- Where nothing was done, no turn was taken. -/
theorem linearization_new : Linearization conduct registry {} [] where
  nodup := List.nodup_nil
  fits := by simp
  placed := by simp
  last := by simp
  fleet_eq := rfl
  deliveries_eq := rfl

namespace Linearization

/-- Only a task that has come far enough has a turn. -/
theorem isPlaced_of_fits {f : Fleet C} {t : Turn C} {task : Task C} (h : t.Fits f task) :
    task.isPlaced = true := by
  cases h <;> rfl

/-- A task has a turn exactly if it has come far enough. -/
theorem mem_iff (h : Linearization conduct registry s turns) {task : Task C}
    (htask : s.tasks[i]? = some task) : i ∈ turns.map (·.task) ↔ task.isPlaced = true := by
  refine ⟨fun hmem => ?_, h.placed i task htask⟩
  obtain ⟨t, ht, rfl⟩ := List.mem_map.1 hmem
  obtain ⟨before, after, hsplit⟩ := List.append_of_mem ht
  obtain ⟨other, hother, hfits⟩ := h.fits before t after hsplit
  rw [htask] at hother
  cases hother
  exact isPlaced_of_fits hfits

/-- The turn of a push that is being given out finds the fleet as it is. -/
theorem fleet_of_giving (h : Linearization conduct registry s turns) {p : Image.Push}
    {visited : List String} {atWork : Option (String × Member C)}
    {rest : List (String × Member C)}
    (htask : s.tasks[i]? = some (.push p (.giving visited atWork rest)))
    {before after : List (Turn C)} {t : Turn C} (hsplit : turns = before ++ t :: after)
    (ht : t.task = i) : after = [] ∧ fleetAfter conduct registry before = s.fleet := by
  obtain ⟨past, u, hlast, hu⟩ := h.last i _ htask rfl
  obtain ⟨task, hlookup, hfits⟩ := h.fits before t after hsplit
  rw [ht, htask] at hlookup
  cases hlookup
  rw [h.fleet_eq]
  rw [hlast] at hsplit
  rcases split_concat hsplit with ⟨hpast, rfl, hafter⟩ | ⟨others, hafter, hpast⟩
  · refine ⟨hafter, ?_⟩
    cases hfits with
    | giving herrand =>
        rw [hlast, fleetAfter_concat, herrand, hpast]
        rfl
  · -- It cannot stand before the last one, since a task has one turn only.
    have hnodup := h.nodup
    rw [hlast, hpast] at hnodup
    simp [List.nodup_append, ht, hu] at hnodup

/-- A step that leaves the fleet and the deliveries alone keeps the order, provided that the turn
of its task still fits. -/
theorem keep (h : Linearization conduct registry s turns) {old new : Task C}
    (hold : s.tasks[i]? = some old) (htasks : s'.tasks = s.tasks.set i new)
    (hfleet : s'.fleet = s.fleet) (hdeliveries : s'.deliveries = s.deliveries)
    (hplaced : new.isPlaced = old.isPlaced) (hgiving : new.isGiving = true → old.isGiving = true)
    (hfits : ∀ before t after, turns = before ++ t :: after → t.task = i →
      t.Fits (fleetAfter conduct registry before) old →
      t.Fits (fleetAfter conduct registry before) new) :
    Linearization conduct registry s' turns where
  nodup := h.nodup
  fits := by
    intro before t after hsplit
    obtain ⟨task, htask, hfit⟩ := h.fits before t after hsplit
    rw [htasks, getElem?_set_task hold]
    by_cases hi : i = t.task
    · rw [← hi, hold] at htask
      cases htask
      exact ⟨new, if_pos hi, hfits before t after hsplit hi.symm hfit⟩
    · exact ⟨task, by rw [if_neg hi, htask], hfit⟩
  placed := by
    intro j task htask htaskPlaced
    rcases lookup_cases hold htasks htask with ⟨rfl, rfl⟩ | ⟨-, hbefore⟩
    · exact h.placed i old hold (hplaced ▸ htaskPlaced)
    · exact h.placed j task hbefore htaskPlaced
  last := by
    intro j task htask htaskGiving
    rcases lookup_cases hold htasks htask with ⟨rfl, rfl⟩ | ⟨-, hbefore⟩
    · exact h.last i old hold (hgiving htaskGiving)
    · exact h.last j task hbefore htaskGiving
  fleet_eq := by rw [hfleet, h.fleet_eq]
  deliveries_eq := by rw [hdeliveries, h.deliveries_eq]

/-- A step that begins a turn puts it last. -/
theorem extend (h : Linearization conduct registry s turns) {old new : Task C}
    (hold : s.tasks[i]? = some old) (htasks : s'.tasks = s.tasks.set i new)
    (hunplaced : old.isPlaced = false)
    (hothers : ∀ j task, j ≠ i → s.tasks[j]? = some task → task.isGiving = false)
    (hfleet : s'.fleet = new.errand.carryOut conduct registry s.fleet)
    (hdeliveries : s'.deliveries = s.deliveries)
    (hfits : Turn.Fits s.fleet { task := i, errand := new.errand } new) :
    Linearization conduct registry s' (turns ++ [{ task := i, errand := new.errand }]) := by
  have hnew : i ∉ turns.map (·.task) := by
    rw [h.mem_iff hold, hunplaced]
    exact Bool.false_ne_true
  refine ⟨?_, ?_, ?_, ?_, ?_, ?_⟩
  · rw [List.map_append, List.nodup_append]
    refine ⟨h.nodup, by simp, ?_⟩
    rintro j hj k hk rfl
    simp only [List.map_cons, List.map_nil, List.mem_singleton] at hk
    exact hnew (hk ▸ hj)
  · intro before t after hsplit
    rw [htasks, getElem?_set_task hold]
    rcases split_concat hsplit with ⟨rfl, rfl, -⟩ | ⟨others, -, rfl⟩
    · exact ⟨new, if_pos rfl, h.fleet_eq ▸ hfits⟩
    · obtain ⟨task, htask, hfit⟩ := h.fits before t others rfl
      have hi : i ≠ t.task := fun hi => hnew (hi ▸ by simp)
      exact ⟨task, by rw [if_neg hi, htask], hfit⟩
  · intro j task htask htaskPlaced
    rcases lookup_cases hold htasks htask with ⟨rfl, rfl⟩ | ⟨-, hbefore⟩
    · simp
    · have hmem := h.placed j task hbefore htaskPlaced
      rw [List.map_append]
      exact List.mem_append_left _ hmem
  · intro j task htask htaskGiving
    rcases lookup_cases hold htasks htask with ⟨rfl, rfl⟩ | ⟨hi, hbefore⟩
    · exact ⟨turns, _, rfl, rfl⟩
    · rw [hothers j task (Ne.symm hi) hbefore] at htaskGiving
      cases htaskGiving
  · rw [hfleet, fleetAfter_concat, h.fleet_eq]
  · rw [hdeliveries, h.deliveries_eq, List.flatMap_append]
    simp [Turn.deliveries]

/-- A member that is given a push is given it in the last turn. -/
theorem give (h : Linearization conduct registry s turns) {p : Image.Push}
    {visited : List String} {r : String × Member C} {rest : List (String × Member C)}
    (htask : s.tasks[i]? = some (.push p (.giving visited none (r :: rest))))
    (htasks : s'.tasks = s.tasks.set i (.push p (.giving visited (some r) rest)))
    (hfleet : s'.fleet = s.fleet) (hdeliveries : s'.deliveries = s.deliveries ++ [(i, r)]) :
    ∃ turns', Linearization conduct registry s' turns' ∧
      turns.map (·.task) <+: turns'.map (·.task) := by
  obtain ⟨past, t, rfl, ht⟩ := h.last i _ htask rfl
  obtain ⟨new, hnew⟩ : ∃ new : Turn C, new = { t with given := t.given ++ [r] } :=
    ⟨_, rfl⟩
  have htask' : new.task = t.task := by rw [hnew]
  have herrand' : new.errand = t.errand := by rw [hnew]
  have hnodup := h.nodup
  have hmap : (past ++ [t]).map (·.task) = (past ++ [new]).map (·.task) := by simp [htask']
  have hfleetAfter : fleetAfter conduct registry (past ++ [t]) =
      fleetAfter conduct registry (past ++ [new]) := by
    rw [fleetAfter_concat, fleetAfter_concat, herrand']
  refine ⟨past ++ [new], ⟨hmap ▸ hnodup, ?_, ?_, ?_, ?_, ?_⟩, hmap ▸ List.prefix_rfl⟩
  · intro before u after hsplit
    rw [htasks, getElem?_set_task htask]
    rcases split_concat hsplit with ⟨rfl, rfl, -⟩ | ⟨others, -, rfl⟩
    · refine ⟨_, if_pos (htask'.trans ht).symm, ?_⟩
      obtain ⟨task, hlookup, hfit⟩ := h.fits past t [] rfl
      rw [ht, htask] at hlookup
      cases hlookup
      cases hfit with
      | giving herrand hnodup hmanaged hgiven =>
          exact .giving (herrand'.trans herrand) hnodup hmanaged (by simpa [hnew] using hgiven)
    · obtain ⟨task, hlookup, hfit⟩ := h.fits before u (others ++ [t]) (by simp)
      have hi : i ≠ u.task := by
        intro hi
        simp [List.nodup_append, ht, ← hi] at hnodup
      exact ⟨task, by rw [if_neg hi, hlookup], hfit⟩
  · intro j task hlookup htaskPlaced
    rw [← hmap]
    rcases lookup_cases htask htasks hlookup with ⟨rfl, rfl⟩ | ⟨-, hbefore⟩
    · simp [ht]
    · exact h.placed j task hbefore htaskPlaced
  · intro j task hlookup htaskGiving
    refine ⟨past, new, rfl, ?_⟩
    rw [htask']
    rcases lookup_cases htask htasks hlookup with ⟨rfl, rfl⟩ | ⟨-, hbefore⟩
    · exact ht
    · obtain ⟨before, u, hlast, hu⟩ := h.last j task hbefore htaskGiving
      have hut : t = u := by simpa using (List.append_inj' hlast rfl).2
      exact (congrArg Turn.task hut).trans hu
  · rw [hfleet, h.fleet_eq, hfleetAfter]
  · rw [hdeliveries, h.deliveries_eq]
    simp [Turn.deliveries, hnew, ht]

/-- A new call changes nothing about the order. -/
theorem call (h : Linearization conduct registry s turns) (errand : Errand) :
    Linearization conduct registry { s with tasks := s.tasks ++ [newTask errand] } turns := by
  have hold : ∀ (j : Nat) (task : Task C), (s.tasks ++ [newTask errand])[j]? = some task →
      s.tasks[j]? = some task ∨ task = newTask errand := by
    intro j task htask
    rcases Nat.lt_or_ge j s.tasks.length with hlt | hge
    · rw [List.getElem?_append_left hlt] at htask
      exact .inl htask
    · rw [List.getElem?_append_right hge, List.getElem?_singleton] at htask
      split at htask
      next => exact .inr (Option.some.inj htask).symm
      next => cases htask
  refine ⟨h.nodup, ?_, ?_, ?_, h.fleet_eq, h.deliveries_eq⟩
  · intro before t after hsplit
    obtain ⟨task, htask, hfit⟩ := h.fits before t after hsplit
    obtain ⟨hlt, -⟩ := List.getElem?_eq_some_iff.1 htask
    exact ⟨task, by rw [← htask]; exact List.getElem?_append_left hlt, hfit⟩
  · intro j task htask hplaced
    rcases hold j task htask with hbefore | rfl
    · exact h.placed j task hbefore hplaced
    · cases errand <;> cases hplaced
  · intro j task htask hgiving
    rcases hold j task htask with hbefore | rfl
    · exact h.last j task hbefore hgiving
    · cases errand <;> cases hgiving

/-- Every step of a task keeps the order and adds at most a last turn to it. -/
theorem work (hs : s.Guarded) (h : Linearization conduct registry s turns)
    (hwork : Work conduct registry i s s') :
    ∃ turns', Linearization conduct registry s' turns' ∧
      turns.map (·.task) <+: turns'.map (·.task) := by
  cases hwork with
  | enterSync _ htask =>
      refine ⟨turns, h.keep htask rfl rfl rfl rfl (fun hg => absurd hg Bool.false_ne_true) ?_,
        List.prefix_rfl⟩
      intro before t after _ _ hfit
      cases hfit
  | change htask =>
      refine ⟨_, h.extend htask rfl rfl ?_ rfl rfl (.changed rfl rfl), by simp⟩
      -- Nobody else is inside, so no turn of a push has to stay the last one.
      intro j task hj hother
      refine Bool.eq_false_iff.2 fun hgiving => ?_
      have hholder := (hs.inside_iff j task hother).1 (Task.isInside_of_isGiving hgiving)
      rw [(hs.inside_iff _ _ htask).1 rfl] at hholder
      exact hj (Option.some.inj hholder).symm
  | leaveSync htask =>
      refine ⟨turns, h.keep htask rfl rfl rfl rfl (fun hg => absurd hg Bool.false_ne_true) ?_,
        List.prefix_rfl⟩
      intro before t after _ _ hfit
      cases hfit with
      | changed herrand hgiven => exact .synced herrand hgiven
  | enterPush hfree htask =>
      refine ⟨_, h.extend htask rfl rfl ?_ rfl rfl (.giving rfl .nil (by simp) rfl), by simp⟩
      intro j task _ hother
      refine Bool.eq_false_iff.2 fun hgiving => ?_
      have hholder := (hs.inside_iff j task hother).1 (Task.isInside_of_isGiving hgiving)
      rw [hfree] at hholder
      cases hholder
  | visit htask hn hteam =>
      refine ⟨turns, h.keep htask rfl rfl rfl rfl (fun _ => rfl) ?_, List.prefix_rfl⟩
      intro before t after hsplit ht hfit
      obtain ⟨-, hfleet⟩ := h.fleet_of_giving htask hsplit ht
      rw [hfleet] at hfit ⊢
      cases hfit with
      | giving herrand hnodup hmanaged hgiven =>
          have hname := Table.has_eq_true_iff.1 (Option.isSome_iff_exists.2 ⟨_, hteam⟩)
          refine .giving herrand ?_ ?_ ?_
          · exact List.nodup_append.2 ⟨hnodup, by simp, by grind⟩
          · intro k hk
            rcases List.mem_append.1 hk with hk | hk
            · exact hmanaged k hk
            · rw [List.mem_singleton.1 hk]
              exact hname
          · rw [List.append_nil] at hgiven
            rw [List.flatMap_append, hgiven]
            simp [Fleet.recipients, hteam]
  | give htask =>
      exact h.give htask rfl rfl (by simp [deliveries])
  | done failure htask =>
      refine ⟨turns, h.keep htask rfl rfl (by simp [deliveries]) rfl (fun _ => rfl) ?_,
        List.prefix_rfl⟩
      intro before t after _ _ hfit
      cases hfit with
      | giving herrand hnodup hmanaged hgiven => exact .giving herrand hnodup hmanaged hgiven
  | leavePush htask hall =>
      refine ⟨turns, h.keep htask rfl rfl rfl rfl (fun hg => absurd hg Bool.false_ne_true) ?_,
        List.prefix_rfl⟩
      intro before t after hsplit ht hfit
      obtain ⟨-, hfleet⟩ := h.fleet_of_giving htask hsplit ht
      have hkept : s.fleet.WellKept registry := hfleet ▸ wellKept_fleetAfter before
      rw [hfleet] at hfit ⊢
      cases hfit with
      | giving herrand hnodup hmanaged hgiven =>
          -- Each managed namespace was visited, none twice and no other.
          refine .pushed herrand ?_ (by simpa using hgiven)
          exact (List.perm_ext_iff_of_nodup hnodup hkept.nodup).2 fun n => ⟨hmanaged n, hall n⟩

/-- **Every step keeps the order** and adds at most a last turn to it. -/
theorem step (hs : s.Guarded) (h : Linearization conduct registry s turns)
    (hstep : Step conduct registry s s') :
    ∃ turns', Linearization conduct registry s' turns' ∧
      turns.map (·.task) <+: turns'.map (·.task) := by
  cases hstep with
  | call errand => exact ⟨turns, h.call errand, List.prefix_rfl⟩
  | work hwork => exact h.work hs hwork

/-- An order once found is only ever extended. -/
theorem leads (hs : s.Guarded) (h : Linearization conduct registry s turns)
    (hleads : Leads conduct registry s s') :
    ∃ turns', Linearization conduct registry s' turns' ∧
      turns.map (·.task) <+: turns'.map (·.task) := by
  induction hleads with
  | refl => exact ⟨turns, h, List.prefix_rfl⟩
  | tail hearlier hstep ih =>
      obtain ⟨between, hbetween, hfirst⟩ := ih
      obtain ⟨turns', hturns, hsecond⟩ := hbetween.step (guarded_leads hs hearlier) hstep
      exact ⟨turns', hturns, hfirst.trans hsecond⟩

end Linearization

end Scene

end ImageRollout.Controllers
