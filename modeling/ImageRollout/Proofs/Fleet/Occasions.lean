import Mathlib.Data.List.Induction
import ImageRollout.Proofs.Fleet.Acts
import ImageRollout.Proofs.Sequences

/-!
# What happens to a fleet

A fleet is told of changes of namespaces, is given pushes, and time passes for the runs of its
teams.  Makers need not behave alike at all times: every notification comes with the makers as they
are at that moment, any of which may fail, and what a maker makes may later fail to stop.

* `has_meet`, `managed_iff`: which namespaces are managed, told from the notifications and from
  those among them at which a maker failed.
* `intact_after`: managed teams bear the names of their namespaces, and nothing of them is stopped.
* `after_congr`: what comes of later occasions depends on the managed teams alone.
-/

namespace ImageRollout.Controllers

open Kubernetes Namespaces

variable {C : Type}

/-- Something that happens to a fleet. -/
inductive Occasion (C : Type) where
  | notify (registry : Registry (String → Except String C)) (note : Notification)
  | push (receive : String → Member C → Image.Push → List Deed) (p : Image.Push)
  /-- The runs of all teams go on until the deadline. -/
  | elapse (now deadline : Nat)

namespace Occasion

/-- Whether it is a notification after which the namespace should be managed. -/
def enables (n : String) : Occasion C → Bool
  | notify _ note => note.object.name = n && note.change ≠ .deleted && isEnabled note.object
  | _ => false

/-- Whether it is a notification that ends the management of the namespace: of its deletion, or of
a change that leaves it disabled. -/
def disables (n : String) : Occasion C → Bool
  | notify _ note =>
    note.object.name = n && (note.change = .deleted ||
      note.change = .modified && !isEnabled note.object)
  | _ => false

/-- Whether the fleet is told something, and not merely left to itself. -/
def isTold : Occasion C → Bool
  | notify .. | push .. => true
  | elapse .. => false

/-- The occasion with other makers. -/
def under (makers : Registry (String → Except String C)) : Occasion C → Occasion C
  | notify _ note => notify makers note
  | o => o

/-- Other makers make no difference to what an occasion enables. -/
@[simp] theorem enables_under (makers : Registry (String → Except String C)) (n : String)
    (o : Occasion C) : (o.under makers).enables n = o.enables n := by
  cases o <;> rfl

/-- Nor do they to what it disables. -/
@[simp] theorem disables_under (makers : Registry (String → Except String C)) (n : String)
    (o : Occasion C) : (o.under makers).disables n = o.disables n := by
  cases o <;> rfl

end Occasion

namespace Fleet

/-- A team is demanded, and a maker fails at making it. -/
def FailsToStart (registry : Registry (String → Except String C)) (note : Notification)
    (f : Fleet C) : Prop :=
  demand note.change (isEnabled note.object) (f.managed.has note.object.name) = .start ∧
    ∃ cause deeds, Team.make registry note.object.name = (.error cause, deeds)

/-- The team is to be stopped, and a member fails to stop. -/
def FailsToStop (conduct : Conduct C) (note : Notification) (f : Fleet C) : Prop :=
  demand note.change (isEnabled note.object) (f.managed.has note.object.name) = .stop ∧
    ∃ t, List.lookup note.object.name f.managed = some t ∧ (t.stop conduct).2.1.isSome

end Fleet

/-- The occasion is a notification at which a maker fails. -/
def Occasion.FailsToStart (f : Fleet C) : Occasion C → Prop
  | notify registry note => f.FailsToStart registry note
  | _ => False

namespace Fleet

variable (conduct : Conduct C)

/-- What an occasion does to the fleet. -/
def meet (f : Fleet C) : Occasion C → Fleet C × List Deed
  | .notify registry note => f.sync conduct registry note
  | .push receive p => (f, f.dispatch receive p)
  | .elapse now deadline => f.settle conduct now deadline

/-- The fleet after some occasions. -/
def after (occasions : List (Occasion C)) (f : Fleet C) : Fleet C :=
  occasions.foldl (fun f o => (f.meet conduct o).1) f

/-- Occasions can be taken in two parts. -/
theorem after_append (earlier later : List (Occasion C)) (f : Fleet C) :
    f.after conduct (earlier ++ later) = (f.after conduct earlier).after conduct later :=
  List.foldl_append

/-- The last occasion meets what the others left. -/
theorem after_concat (earlier : List (Occasion C)) (o : Occasion C) (f : Fleet C) :
    f.after conduct (earlier ++ [o]) = ((f.after conduct earlier).meet conduct o).1 :=
  List.foldl_append

/-- Time that passes changes teams, and not who has one. -/
theorem managed_settle (f : Fleet C) (now deadline : Nat) :
    (f.settle conduct now deadline).1.managed =
      f.managed.map fun e => (e.1, (e.2.settle conduct f.stopped now deadline).1) := by
  change List.map _ (List.map _ f.managed) = _
  rw [List.map_map]
  rfl

/-- While time passes, every managed team goes on and none is exchanged. -/
theorem lookup_settle (f : Fleet C) (now deadline : Nat) (n : String) :
    List.lookup n (f.settle conduct now deadline).1.managed =
      (List.lookup n f.managed).map fun t => (t.settle conduct f.stopped now deadline).1 := by
  rw [managed_settle]
  exact Table.lookup_map (fun t => (t.settle conduct f.stopped now deadline).1) n f.managed

/-- So the same namespaces are managed after it as before. -/
theorem has_settle (f : Fleet C) (now deadline : Nat) (n : String) :
    (f.settle conduct now deadline).1.managed.has n = f.managed.has n := by
  rw [Table.has, lookup_settle, Option.isSome_map, Table.has]

/-- A namespace's team is asked for when it is enabled, not deleted, and has none. -/
theorem demand_eq_start_iff {change : Change} {enabled managed : Bool} :
    demand change enabled managed = .start ↔
      change ≠ .deleted ∧ enabled = true ∧ managed = false := by
  cases change <;> cases enabled <;> cases managed <;> decide

/-- A namespace's team has to go when the namespace is deleted or turned off. -/
theorem demand_eq_stop_iff {change : Change} {enabled managed : Bool} :
    demand change enabled managed = .stop ↔
      managed = true ∧ (change = .deleted ∨ change = .modified ∧ enabled = false) := by
  cases change <;> cases enabled <;> cases managed <;> decide

variable {conduct}

/-- A notification leaves the teams of all other namespaces alone. -/
theorem lookup_sync_of_other {registry : Registry (String → Except String C)}
    {note : Notification} {f : Fleet C} {n : String} (hn : n ≠ note.object.name) :
    List.lookup n (f.sync conduct registry note).1.managed = List.lookup n f.managed := by
  rcases sync_cases conduct registry note f with
    ⟨t, deeds, -, -, hsync⟩ | ⟨cause, deeds, -, -, hsync⟩ | ⟨t, -, -, hsync⟩ |
    ⟨-, hsync⟩
  · rw [hsync]
    exact (Table.lookup_insert _ n _ f.managed).trans (if_neg hn)
  · rw [hsync]
  · rw [hsync]
    exact (Table.lookup_erase _ n f.managed).trans (if_neg hn)
  · rw [hsync]

/-- **Which namespaces an occasion leaves managed.**  A namespace is managed that has just been
enabled, unless a maker failed at it, or that was managed and is not disabled. -/
theorem has_meet (f : Fleet C) (o : Occasion C) (n : String) :
    (f.meet conduct o).1.managed.has n = true ↔
      (o.enables n = true ∧ ¬ o.FailsToStart f) ∨
        (o.disables n = false ∧ f.managed.has n = true) := by
  cases o with
  | push receive p => simp [meet, Occasion.enables, Occasion.disables]
  | elapse now deadline =>
      change (f.settle conduct now deadline).1.managed.has n = true ↔ _
      simp [has_settle, Occasion.enables, Occasion.disables]
  | notify registry note =>
      change (f.sync conduct registry note).1.managed.has n = true ↔
        _ ∧ ¬ f.FailsToStart registry note ∨ _
      by_cases hn : n = note.object.name
      · subst hn
        have hstart := @demand_eq_start_iff note.change (isEnabled note.object)
          (f.managed.has note.object.name)
        have hstop := @demand_eq_stop_iff note.change (isEnabled note.object)
          (f.managed.has note.object.name)
        rcases sync_cases conduct registry note f with
          ⟨t, deeds, hd, hmake, hsync⟩ | ⟨cause, deeds, hd, hmake, hsync⟩ |
          ⟨t, hd, -, hsync⟩ | ⟨hd, hsync⟩
        · have hmakes : ¬ f.FailsToStart registry note := by
            rintro ⟨-, cause, deeds', herror⟩
            rw [hmake] at herror
            cases herror
          have hhas : (f.sync conduct registry note).1.managed.has note.object.name = true := by
            rw [hsync]
            exact (Table.has_insert _ _ _ f.managed).trans (if_pos rfl)
          obtain ⟨hlives, henabled, -⟩ := hstart.1 hd
          simp [hhas, hmakes, Occasion.enables, hlives, henabled]
        · have hfails : f.FailsToStart registry note := ⟨hd, cause, deeds, hmake⟩
          obtain ⟨-, -, hfree⟩ := hstart.1 hd
          simp [hsync, hfails, hfree]
        · have hgone : (f.sync conduct registry note).1.managed.has note.object.name = false := by
            rw [hsync]
            exact (Table.has_erase _ _ f.managed).trans (if_pos rfl)
          obtain ⟨-, hends⟩ := hstop.1 hd
          rcases hends with hdeleted | ⟨hmodified, hdisabled⟩
          · simp [hgone, Occasion.enables, Occasion.disables, hdeleted]
          · simp [hgone, Occasion.enables, Occasion.disables, hmodified, hdisabled]
        · have hmakes : ¬ f.FailsToStart registry note := by
            rintro ⟨hdemanded, -⟩
            rw [hd] at hdemanded
            cases hdemanded
          -- What is enabled is managed already, and what is disabled is not.
          rw [hd] at hstart hstop
          rw [hsync]
          simp only [reduceCtorEq, false_iff] at hstart hstop
          cases hmanaged : f.managed.has note.object.name <;>
            simp [Occasion.enables, Occasion.disables, hmakes, hmanaged] at hstart hstop ⊢ <;>
            grind
      · have hothers : (f.sync conduct registry note).1.managed.has n = f.managed.has n := by
          rw [Table.has, lookup_sync_of_other hn, Table.has]
        simp [hothers, Occasion.enables, Occasion.disables, Ne.symm hn]

/-- **Which namespaces are managed, told from what happened.**  A namespace is managed exactly if it
was enabled with no maker failing, and was not disabled since. -/
theorem managed_iff (occasions : List (Occasion C)) (n : String) :
    (({} : Fleet C).after conduct occasions).managed.has n = true ↔
      ∃ before o rest, occasions = before ++ o :: rest ∧ o.enables n = true ∧
        ¬ o.FailsToStart (({} : Fleet C).after conduct before) ∧
        ∀ r ∈ rest, r.disables n = false := by
  induction occasions using List.reverseRecOn with
  | nil => simp [after, Table.has]
  | append_singleton earlier last ih =>
      rw [after_concat, has_meet, ih]
      constructor
      · rintro (⟨henables, hmakes⟩ |
          ⟨hkeeps, before, o, rest, rfl, henables, hmakes, hrest⟩)
        · exact ⟨earlier, last, [], rfl, henables, hmakes, by simp⟩
        · refine ⟨before, o, rest ++ [last], by simp, henables, hmakes, ?_⟩
          simpa [or_imp, forall_and] using ⟨hrest, hkeeps⟩
      · rintro ⟨before, o, rest, hsplit, henables, hmakes, hrest⟩
        rcases split_concat hsplit with ⟨rfl, rfl, rfl⟩ | ⟨others, rfl, rfl⟩
        · exact .inl ⟨henables, hmakes⟩
        · refine .inr ⟨hrest last (by simp), before, o, others, rfl, henables, hmakes, ?_⟩
          exact fun r hr => hrest r (List.mem_append_left _ hr)

/-- Makers that never fail do not fail to start a team. -/
theorem not_failsToStart_under {makers : Registry (String → Except String C)}
    (h : makers.NeverFails) (o : Occasion C) (f : Fleet C) :
    ¬ (o.under makers).FailsToStart f := by
  cases o with
  | push => exact id
  | elapse => exact id
  | notify registry note =>
      rintro ⟨-, cause, deeds, herror⟩
      obtain ⟨t, deeds', hok⟩ := Team.make_ok h note.object.name
      rw [hok] at herror
      cases herror

/-- With makers that never fail, the notifications alone tell which namespaces are managed. -/
theorem managed_under_iff {makers : Registry (String → Except String C)} (h : makers.NeverFails)
    (occasions : List (Occasion C)) (n : String) :
    (({} : Fleet C).after conduct (occasions.map (·.under makers))).managed.has n = true ↔
      ∃ before o rest, occasions = before ++ o :: rest ∧ o.enables n = true ∧
        ∀ r ∈ rest, r.disables n = false := by
  rw [managed_iff]
  constructor
  · rintro ⟨before, o, rest, hsplit, henables, -, hrest⟩
    obtain ⟨before', tail, rfl, rfl, htail⟩ := List.map_eq_append_iff.1 hsplit
    obtain ⟨o', rest', rfl, rfl, rfl⟩ := List.map_eq_cons_iff.1 htail
    exact ⟨before', o', rest', rfl, by simpa using henables, by simpa using hrest⟩
  · rintro ⟨before, o, rest, rfl, henables, hrest⟩
    refine ⟨before.map (·.under makers), o.under makers, rest.map (·.under makers), by simp,
      by simpa using henables, not_failsToStart_under h o _, by simpa using hrest⟩

/-- What holds of managed teams as long as nothing stops everything. -/
structure Intact (f : Fleet C) : Prop where
  nodup : f.managed.names.Nodup
  named : ∀ e ∈ f.managed, e.2.namespaceName = e.1
  running : ∀ e ∈ f.managed, e.2.stopped = false ∧ ∀ m ∈ e.2.members, m.stopped = false

/-- A fleet without teams is intact. -/
theorem intact_empty : ({} : Fleet C).Intact where
  nodup := List.nodup_nil
  named := by simp
  running := by simp

/-- An intact fleet stays so, whatever happens. -/
theorem intact_meet {f : Fleet C} (h : f.Intact) (o : Occasion C) :
    (f.meet conduct o).1.Intact := by
  cases o with
  | push receive p => exact h
  | elapse now deadline =>
      have hmanaged := managed_settle conduct f now deadline
      refine ⟨?_, ?_, ?_⟩
      · change (f.settle conduct now deadline).1.managed.names.Nodup
        rw [hmanaged, Table.names, List.map_map]
        exact h.nodup
      · intro e he
        rw [meet, hmanaged] at he
        obtain ⟨e, hmem, rfl⟩ := List.mem_map.1 he
        exact h.named e hmem
      · intro e he
        rw [meet, hmanaged] at he
        obtain ⟨e, hmem, rfl⟩ := List.mem_map.1 he
        exact h.running e hmem
  | notify registry note =>
      change (f.sync conduct registry note).1.Intact
      rcases sync_cases conduct registry note f with
        ⟨t, deeds, -, hmake, hsync⟩ | ⟨cause, deeds, -, -, hsync⟩ | ⟨t, -, -, hsync⟩ |
        ⟨-, hsync⟩
      · obtain ⟨hname, -⟩ := Team.of_make hmake
        obtain ⟨-, hteam, hmembers, -⟩ := Team.deeds_of_make hmake
        rw [hsync]
        refine ⟨Table.nodup_insert h.nodup, fun e he => ?_, fun e he => ?_⟩
        all_goals rcases List.mem_cons.1 he with rfl | hmem
        · exact hname
        · exact h.named e (List.mem_filter.1 hmem).1
        · exact ⟨hteam, hmembers⟩
        · exact h.running e (List.mem_filter.1 hmem).1
      · rw [hsync]
        exact h
      · rw [hsync]
        exact ⟨Table.nodup_filter h.nodup, fun e he => h.named e (List.mem_filter.1 he).1,
          fun e he => h.running e (List.mem_filter.1 he).1⟩
      · rw [hsync]
        exact h

/-- So it does after any number of occasions. -/
theorem intact_after {f : Fleet C} (h : f.Intact) (occasions : List (Occasion C)) :
    (f.after conduct occasions).Intact := by
  induction occasions generalizing f with
  | nil => exact h
  | cons o rest ih => exact ih (intact_meet h o)

/-- No occasion ends the fleet. -/
theorem stopped_meet (f : Fleet C) (o : Occasion C) :
    (f.meet conduct o).1.stopped = f.stopped := by
  cases o with
  | notify registry note => exact stopped_sync conduct registry note f
  | push receive p => rfl
  | elapse now deadline => rfl

/-- No number of occasions does. -/
theorem stopped_after (f : Fleet C) (occasions : List (Occasion C)) :
    (f.after conduct occasions).stopped = f.stopped := by
  induction occasions generalizing f with
  | nil => rfl
  | cons o rest ih => exact (ih _).trans (stopped_meet f o)

/-- Teams that are managed no more do not matter to what the fleet is told. -/
theorem meet_congr {f g : Fleet C} (hmanaged : f.managed = g.managed)
    (hstopped : f.stopped = g.stopped) (o : Occasion C) :
    (f.meet conduct o).1.managed = (g.meet conduct o).1.managed ∧
      (o.isTold = true → (f.meet conduct o).2 = (g.meet conduct o).2) := by
  obtain ⟨managed, retired, stopped⟩ := f
  obtain ⟨managed', retired', stopped'⟩ := g
  cases hmanaged
  cases hstopped
  cases o with
  | push receive p => exact ⟨rfl, fun _ => rfl⟩
  | elapse now deadline => exact ⟨rfl, fun h => absurd h Bool.false_ne_true⟩
  | notify registry note =>
      simp only [meet, sync, startTeam, stopTeam]
      generalize demand note.change (isEnabled note.object)
        (List.lookup note.object.name managed).isSome = demanded
      cases demanded with
      | nothing => exact ⟨rfl, fun _ => rfl⟩
      | stop =>
          cases List.lookup note.object.name managed with
          | none => exact ⟨rfl, fun _ => rfl⟩
          | some t => exact ⟨rfl, fun _ => rfl⟩
      | start =>
          cases Team.make registry note.object.name with
          | mk made deeds =>
              cases made with
              | ok t => exact ⟨rfl, fun _ => rfl⟩
              | error cause => exact ⟨rfl, fun _ => rfl⟩

/-- **Later occasions depend on the managed teams alone.** -/
theorem after_congr {f g : Fleet C} (hmanaged : f.managed = g.managed)
    (hstopped : f.stopped = g.stopped) (later : List (Occasion C)) :
    (f.after conduct later).managed = (g.after conduct later).managed := by
  induction later generalizing f g with
  | nil => exact hmanaged
  | cons o rest ih =>
      apply ih (meet_congr hmanaged hstopped o).1
      rw [stopped_meet, stopped_meet, hstopped]

end Fleet

end ImageRollout.Controllers
