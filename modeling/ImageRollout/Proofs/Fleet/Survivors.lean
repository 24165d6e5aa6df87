import ImageRollout.Proofs.Fleet.Occasions

/-!
# What goes on of stopped teams

The members of a team are stopped one after the other, up to the first that fails to stop; only
where none fails is the team stopped as a whole.  At the end of a fleet its teams are stopped in the
same way.  So a member that fails to stop can keep later ones going, of its own team and at the end
of the fleet also of other teams.

* `fate_after`: a team that was managed once is managed still, or it was stopped.
* `live_stop`, `live_stopTeams`: who goes on after a stop.
* `quiet_iff`: when nobody goes on but those that fail to stop themselves.
-/

namespace ImageRollout.Controllers

variable {C : Type}

/-- Whether a member fails to stop. -/
def Conduct.fails (conduct : Conduct C) (m : Member C) : Bool := (conduct.stopFailure m.body).isSome

/-- Members that fail to stop are stopped after all others. -/
def Conduct.FailsLast (conduct : Conduct C) (members : List (Member C)) : Prop :=
  members.Pairwise fun a b => conduct.fails a = true → conduct.fails b = true

instance (conduct : Conduct C) (members : List (Member C)) :
    Decidable (conduct.FailsLast members) :=
  inferInstanceAs (Decidable (List.Pairwise _ _))

namespace Team

/-- The members that are not stopped. -/
def live (allStopped : Bool) (t : Team C) : List (Member C) :=
  t.members.filter fun m => !t.isStopped allStopped m

/-- Nothing of the team is stopped. -/
def Running (t : Team C) : Prop := t.stopped = false ∧ ∀ m ∈ t.members, m.stopped = false

/-- The team without its runs. -/
def withoutRuns (t : Team C) : Team C := { t with runs := [] }

/-- In a running team everybody goes on. -/
theorem live_of_running {t : Team C} (h : t.Running) : t.live false = t.members := by
  obtain ⟨hteam, hmembers⟩ := h
  apply List.filter_eq_self.2
  intro m hm
  simp [isStopped, hteam, hmembers m hm]

variable {conduct : Conduct C}

/-- All members are stopped just if none of them fails to stop. -/
theorem failure_stopMembers (n : String) (members : List (Member C)) :
    (stopMembers conduct n members).2.1 = none ↔
      members.dropWhile (!conduct.fails ·) = [] := by
  induction members with
  | nil => simp [stopMembers]
  | cons m rest ih =>
      rw [stopMembers, List.dropWhile_cons]
      cases hfail : conduct.stopFailure m.body with
      | some cause => simp [Conduct.fails, hfail]
      | none => simpa [Conduct.fails, hfail] using ih

variable (conduct) in
/-- The members from the first that fails on are as they were, and those before are stopped. -/
theorem running_stopMembers (n : String) {members : List (Member C)}
    (h : ∀ m ∈ members, m.stopped = false) :
    (stopMembers conduct n members).1.filter (!·.stopped) =
        members.dropWhile (!conduct.fails ·) ∧
      (stopMembers conduct n members).1.dropWhile (!conduct.fails ·) =
        members.dropWhile (!conduct.fails ·) := by
  induction members with
  | nil => exact ⟨rfl, rfl⟩
  | cons m rest ih =>
      obtain ⟨hfirst, hrest⟩ := List.forall_mem_cons.1 h
      rw [stopMembers]
      cases hfail : conduct.stopFailure m.body with
      | some cause =>
          have hfails : conduct.fails m = true := by simp [Conduct.fails, hfail]
          rw [List.dropWhile_cons_of_neg (by simp [hfails])]
          refine ⟨List.filter_eq_self.2 fun a ha => ?_, rfl⟩
          simp [h a ha]
      | none =>
          have hfails : conduct.fails m = false := by simp [Conduct.fails, hfail]
          have hstopped : conduct.fails { m with stopped := true } = false := hfails
          rw [List.dropWhile_cons_of_pos (by simp [hfails])]
          exact ⟨by simpa using (ih hrest).1,
            (List.dropWhile_cons_of_pos (by simp [hstopped])).trans (ih hrest).2⟩

/-- **Who goes on after a stop.**  Of a running team these are the members from the first that fails
to stop on. -/
theorem live_stop {t : Team C} (h : t.Running) :
    (t.stop conduct).1.live false = t.members.dropWhile (!conduct.fails ·) := by
  obtain ⟨hteam, hmembers⟩ := h
  obtain ⟨hrunning, -⟩ := running_stopMembers conduct t.namespaceName hmembers
  cases hfailure : (stopMembers conduct t.namespaceName t.members).2.1 with
  | some cause =>
      rw [← hrunning]
      simp [live, isStopped, stop, hteam, hfailure]
  | none =>
      have hdrop := (failure_stopMembers t.namespaceName t.members).1 hfailure
      simp [live, isStopped, stop, hfailure, hdrop]

/-- Whom a stop left alive can be told from the team as it is afterwards. -/
theorem live_stop_eq {t : Team C} (h : t.Running) :
    (t.stop conduct).1.live false =
      (t.stop conduct).1.members.dropWhile (!conduct.fails ·) :=
  (live_stop h).trans (running_stopMembers conduct t.namespaceName h.2).2.symm

/-- What a stop makes of the members does not depend on the runs. -/
theorem withoutRuns_stop {t u : Team C} (h : t.withoutRuns = u.withoutRuns) :
    (t.stop conduct).1.withoutRuns = (u.stop conduct).1.withoutRuns :=
  congrArg (fun t : Team C => (t.stop conduct).1) h

end Team

namespace Fleet

/-- Of teams that are managed no more, nobody goes on that does not fail to stop. -/
def Quiet (conduct : Conduct C) (f : Fleet C) : Prop :=
  ∀ u ∈ f.retired, ∀ m ∈ u.live f.stopped, conduct.fails m = true

instance (conduct : Conduct C) (f : Fleet C) : Decidable (f.Quiet conduct) :=
  inferInstanceAs (Decidable (∀ u ∈ f.retired, ∀ m ∈ u.live f.stopped, _ = true))

/-- The teams of a namespace, managed or not, of which somebody goes on who could be stopped. -/
def liveTeams (conduct : Conduct C) (f : Fleet C) (n : String) : List (Team C) :=
  (f.managed.map (·.2) ++ f.retired).filter fun u =>
    u.namespaceName = n && (u.live f.stopped).any (!conduct.fails ·)

/-- Ends the fleet, its teams being stopped in any order. -/
def shutdownIn (conduct : Conduct C) (order : List (Team C)) (f : Fleet C) : Fleet C :=
  { f with managed := [], retired := f.retired ++ (stopTeams conduct order).1 }

theorem shutdown_eq_shutdownIn (conduct : Conduct C) (f : Fleet C) :
    (f.shutdown conduct).1 = f.shutdownIn conduct f.teams :=
  rfl

variable {conduct : Conduct C}

/-- A team that is managed, or was managed and then stopped. -/
def Fate (conduct : Conduct C) (n : String) (t : Team C) (f : Fleet C) : Prop :=
  (∃ u, List.lookup n f.managed = some u ∧ u.withoutRuns = t.withoutRuns) ∨
    ∃ u ∈ f.retired, u.withoutRuns = (t.stop conduct).1.withoutRuns

/-- A team stays managed, or is stopped, whatever happens. -/
theorem fate_meet {n : String} {t : Team C} {f : Fleet C} (h : f.Fate conduct n t)
    (o : Occasion C) : (f.meet conduct o).1.Fate conduct n t := by
  cases o with
  | push receive p => exact h
  | elapse now deadline =>
      rcases h with ⟨u, hteam, hsame⟩ | ⟨u, hmem, hsame⟩
      · refine .inl ⟨(u.settle conduct f.stopped now deadline).1, ?_, hsame⟩
        rw [meet, lookup_settle, hteam]
        rfl
      · refine .inr ⟨(u.settle conduct f.stopped now deadline).1, ?_, hsame⟩
        exact List.mem_map.2 ⟨_, List.mem_map_of_mem hmem, rfl⟩
  | notify registry note =>
      change (f.sync conduct registry note).1.Fate conduct n t
      rcases sync_cases conduct registry note f with
        ⟨made, deeds, hd, -, hsync⟩ | ⟨cause, deeds, -, -, hsync⟩ |
        ⟨old, -, hold, hsync⟩ | ⟨-, hsync⟩
      · rw [hsync]
        rcases h with ⟨u, hteam, hsame⟩ | hstopped
        · -- A team is started for a namespace that has none.
          have hother : n ≠ note.object.name := by
            rintro rfl
            obtain ⟨-, -, hfree⟩ := demand_eq_start_iff.1 hd
            simp [Table.has, hteam] at hfree
          have hkept := (Table.lookup_insert note.object.name n made.beginRun f.managed).trans
            ((if_neg hother).trans hteam)
          exact .inl ⟨u, hkept, hsame⟩
        · exact .inr hstopped
      · rw [hsync]
        exact h
      · rw [hsync]
        rcases h with ⟨u, hteam, hsame⟩ | ⟨u, hmem, hsame⟩
        · by_cases hn : n = note.object.name
          · subst hn
            rw [hold] at hteam
            cases hteam
            exact .inr ⟨(old.stop conduct).1, List.mem_append_right _ List.mem_cons_self,
              Team.withoutRuns_stop hsame⟩
          · exact .inl ⟨u, (Table.lookup_erase _ n f.managed).trans ((if_neg hn).trans hteam),
              hsame⟩
        · exact .inr ⟨u, List.mem_append_left _ hmem, hsame⟩
      · rw [hsync]
        exact h

/-- A team that was managed once is managed still, or it was stopped. -/
theorem fate_after {n : String} {t : Team C} {f : Fleet C} (h : f.Fate conduct n t)
    (later : List (Occasion C)) : (f.after conduct later).Fate conduct n t := by
  induction later generalizing f with
  | nil => exact h
  | cons o rest ih => exact ih (fate_meet h o)

/-- Of a team that is managed no more, the members from the first that fails to stop on go on,
whatever happens next. -/
theorem live_retired_meet {f : Fleet C} (hintact : f.Intact)
    (h : ∀ u ∈ f.retired, u.live false = u.members.dropWhile (!conduct.fails ·))
    (o : Occasion C) :
    ∀ u ∈ (f.meet conduct o).1.retired,
      u.live false = u.members.dropWhile (!conduct.fails ·) := by
  cases o with
  | push receive p => exact h
  | elapse now deadline =>
      intro u hu
      obtain ⟨went, hwent, rfl⟩ := List.mem_map.1 hu
      obtain ⟨u, hmem, rfl⟩ := List.mem_map.1 hwent
      exact h u hmem
  | notify registry note =>
      change ∀ u ∈ (f.sync conduct registry note).1.retired, _
      rcases sync_cases conduct registry note f with
        ⟨made, deeds, -, -, hsync⟩ | ⟨cause, deeds, -, -, hsync⟩ |
        ⟨old, -, hold, hsync⟩ | ⟨-, hsync⟩
      · rw [hsync]
        exact h
      · rw [hsync]
        exact h
      · rw [hsync]
        intro u hu
        rcases List.mem_append.1 hu with hmem | hlast
        · exact h u hmem
        · rw [List.mem_singleton.1 hlast]
          exact Team.live_stop_eq (hintact.running _ (Table.mem_of_lookup hold))
      · rw [hsync]
        exact h

/-- So it is after any number of occasions. -/
theorem live_retired_after {f : Fleet C} (hintact : f.Intact)
    (h : ∀ u ∈ f.retired, u.live false = u.members.dropWhile (!conduct.fails ·))
    (occasions : List (Occasion C)) :
    ∀ u ∈ (f.after conduct occasions).retired,
      u.live false = u.members.dropWhile (!conduct.fails ·) := by
  induction occasions generalizing f with
  | nil => exact h
  | cons o rest ih =>
      exact ih (intact_meet hintact o) (live_retired_meet hintact h o)

/-- **Who goes on at the end.**  Of running teams that are stopped one after the other these are all
members from the first that fails to stop on, whichever team it is in. -/
theorem live_stopTeams {order : List (Team C)} (h : ∀ t ∈ order, t.Running) :
    (stopTeams conduct order).1.flatMap (Team.live false) =
      (order.flatMap (·.members)).dropWhile (!conduct.fails ·) := by
  induction order with
  | nil => rfl
  | cons t rest ih =>
      obtain ⟨hfirst, hrest⟩ := List.forall_mem_cons.1 h
      have hstop : (t.stop conduct).1.live false = _ := Team.live_stop hfirst
      rw [List.flatMap_cons, List.dropWhile_append, stopTeams]
      cases hfailure : (t.stop conduct).2.1 with
      | some cause =>
          have hfails : t.members.dropWhile (!conduct.fails ·) ≠ [] := by
            intro hnil
            have hnone := (Team.failure_stopMembers t.namespaceName t.members).2 hnil
            cases hnone.symm.trans hfailure
          have hothers : rest.flatMap (Team.live false) = rest.flatMap (·.members) :=
            List.flatMap_congr fun u hu => Team.live_of_running (hrest u hu)
          rw [if_neg (by simpa using hfails)]
          simp [hfailure, hstop, hothers]
      | none =>
          have hnil : t.members.dropWhile (!conduct.fails ·) = [] :=
            (Team.failure_stopMembers t.namespaceName t.members).1 hfailure
          rw [hnil] at hstop
          rw [if_pos (by simp [hnil])]
          simp [hfailure, hstop, ih hrest]

/-- Nobody goes on without need just if in every team that was stopped those that fail to stop come
last. -/
theorem quiet_of_live {f : Fleet C} (hgoing : f.stopped = false)
    (h : ∀ u ∈ f.retired, u.live false = u.members.dropWhile (!conduct.fails ·)) :
    f.Quiet conduct ↔ ∀ u ∈ f.retired, conduct.FailsLast u.members := by
  refine forall₂_congr fun u hu => ?_
  rw [hgoing, h u hu]
  exact forall_dropWhile_iff conduct.fails u.members

/-- A team that the fleet holds is the team of some managed namespace. -/
theorem mem_teams {f : Fleet C} {t : Team C} (h : t ∈ f.teams) :
    ∃ n, List.lookup n f.managed = some t := by
  obtain ⟨n, -, hteam⟩ := List.mem_filterMap.1 h
  exact ⟨n, hteam⟩

/-- Where it is quiet, a namespace has one team at most of which somebody goes on who could be
stopped: the managed one. -/
theorem length_liveTeams_le {f : Fleet C} (hintact : f.Intact) (hquiet : f.Quiet conduct)
    (n : String) : (f.liveTeams conduct n).length ≤ 1 := by
  have hretired : (f.retired.filter fun u =>
      u.namespaceName = n && (u.live f.stopped).any (!conduct.fails ·)) = [] := by
    apply List.filter_eq_nil_iff.2
    intro u hu
    have hfails := hquiet u hu
    simpa using fun _ => hfails
  rw [liveTeams, List.filter_append, hretired, List.append_nil, List.filter_map, List.length_map,
    ← List.countP_eq_length_filter]
  -- A managed team bears the name under which it is managed, and no name stands there twice.
  calc f.managed.countP _ ≤ f.managed.countP (·.1 == n) := by
        refine List.countP_mono_left fun e he hlive => ?_
        obtain ⟨hname, -⟩ := (Bool.and_eq_true _ _).mp hlive
        rw [beq_iff_eq, ← hintact.named e he]
        exact of_decide_eq_true hname
    _ = f.managed.names.count n := by rw [List.count, Table.names, List.countP_map]; rfl
    _ ≤ 1 := List.nodup_iff_count.1 hintact.nodup n

/-- **When nobody goes on that could be stopped.**  Let anything happen to a fleet.  A team that was
managed once is managed still, or it was stopped; all members of a managed team go on, and of a
stopped one those from the first that fails to stop on.  So nobody goes on of the stopped teams but
members that fail to stop themselves, exactly if in every one of them these come last; then every
namespace has at most one team of which others go on.  The same holds when the fleet ends, its
teams being stopped in any order, exactly if such members come last in all teams taken together. -/
theorem quiet_iff (conduct : Conduct C) (occasions : List (Occasion C)) :
    let f := ({} : Fleet C).after conduct occasions
    (∀ before later n t, occasions = before ++ later →
      List.lookup n (({} : Fleet C).after conduct before).managed = some t →
      f.Fate conduct n t) ∧
    (∀ n t, List.lookup n f.managed = some t → t.live f.stopped = t.members) ∧
    (∀ u ∈ f.retired, u.live f.stopped = u.members.dropWhile (!conduct.fails ·)) ∧
    (f.Quiet conduct ↔ ∀ u ∈ f.retired, conduct.FailsLast u.members) ∧
    (f.Quiet conduct → ∀ n, (f.liveTeams conduct n).length ≤ 1) ∧
    ∀ order : List (Team C), order.Perm f.teams →
      ((f.shutdownIn conduct order).Quiet conduct ↔
        f.Quiet conduct ∧ conduct.FailsLast (order.flatMap (·.members))) := by
  intro f
  have hintact : f.Intact := intact_after intact_empty occasions
  have hgoing : f.stopped = false := stopped_after _ occasions
  have hretired : ∀ u ∈ f.retired, u.live false = u.members.dropWhile (!conduct.fails ·) :=
    live_retired_after intact_empty (by simp) occasions
  have hrunning : ∀ n t, List.lookup n f.managed = some t → t.Running := fun n t hteam =>
    hintact.running _ (Table.mem_of_lookup hteam)
  refine ⟨?_, ?_, ?_, quiet_of_live hgoing hretired, length_liveTeams_le hintact, ?_⟩
  · rintro before later n t hsplit hteam
    change (({} : Fleet C).after conduct occasions).Fate conduct n t
    rw [hsplit, after_append]
    exact fate_after (.inl ⟨t, hteam, rfl⟩) later
  · intro n t hteam
    rw [hgoing]
    exact Team.live_of_running (hrunning n t hteam)
  · intro u hu
    rw [hgoing]
    exact hretired u hu
  · intro order horder
    have hlive : (stopTeams conduct order).1.flatMap (Team.live false) = _ :=
      live_stopTeams fun t ht => by
      obtain ⟨n, hteam⟩ := mem_teams (horder.mem_iff.1 ht)
      exact hrunning n t hteam
    rw [Conduct.FailsLast, ← forall_dropWhile_iff, ← hlive, List.forall_mem_flatMap]
    simp only [Quiet, shutdownIn, List.mem_append, or_imp, forall_and, hgoing]

/-- Two kinds, of which the first fails to stop and the second runs until it is stopped. -/
def brokenStop : Registry (String → Except String Script) :=
  { entries := [("broken", fun _ => .ok { stopFailure := some "stop failure" }),
      ("stuck", fun _ => .ok { running := .waiting })] }

/-- A namespace is enabled or deleted while the kinds are these. -/
def enabling (n : String) : Occasion Script :=
  .notify brokenStop { change := .added, object := labelled n "true" }

def deleting (n : String) : Occasion Script :=
  .notify brokenStop { change := .deleted, object := labelled n "true" }

/-- The second controller of a deleted namespace goes on, also when the namespace is back; and the
controllers of one namespace go on after the end because one of another namespace failed to stop. -/
theorem stuck_goes_on :
    let after := fun occasions => ({} : Fleet Script).after Script.conduct occasions
    let deleted := after [enabling "a", deleting "a"]
    let back := after [enabling "a", deleting "a", enabling "a"]
    let ended := (after [enabling "a", enabling "b"]).shutdown Script.conduct
    (deleted.managed.has "a" = false ∧ ¬ deleted.Quiet Script.conduct) ∧
      (back.liveTeams Script.conduct "a").length = 2 ∧
      ((after [enabling "a", enabling "b"]).Quiet Script.conduct ∧
        (ended.1.liveTeams Script.conduct "b").length = 1) := by
  intro after deleted back ended
  exact ⟨⟨by decide, by decide⟩, by decide, by decide, by decide⟩

end Fleet

end ImageRollout.Controllers
