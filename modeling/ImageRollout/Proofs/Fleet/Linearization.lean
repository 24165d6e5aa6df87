import ImageRollout.Proofs.Fleet.Turns

/-!
# One order of changes and pushes

What the order of turns means for those who get pushes: each push goes to everybody whom its turn
finds, and everybody gets the pushes in the order of their turns.

* `received_eq`, `received_of_finished`: what the order says of one push.
* `pairwise_deliveries`, `sublist_deliveries`: what it says of two.
* `linearizable`: the order, exclusion, agreement on the order and the end, for every interleaving.
-/

namespace ImageRollout.Controllers

open Namespaces

variable {C : Type} {conduct : Conduct C} {registry : Registry (String → Except String C)}

namespace Scene

variable {s s' : Scene C} {turns : List (Turn C)} {i : Nat}

namespace Linearization

/-- A task that had no turn has given nothing to anybody. -/
theorem filter_deliveries_of_not_mem (h : i ∉ turns.map (·.task)) :
    (turns.flatMap Turn.deliveries).filter (·.1 = i) = [] := by
  refine List.filter_eq_nil_iff.2 fun d hd => ?_
  obtain ⟨t, ht, hd⟩ := List.mem_flatMap.1 hd
  obtain ⟨r, -, rfl⟩ := List.mem_map.1 hd
  have hne : t.task ≠ i := fun heq => h (heq ▸ List.mem_map_of_mem ht)
  simpa using hne

/-- What is received of a task is what its turn gave. -/
theorem received_eq (h : Linearization conduct registry s turns) {before after : List (Turn C)}
    {t : Turn C} (hsplit : turns = before ++ t :: after) : s.received t.task = t.given := by
  have hnodup := h.nodup
  rw [hsplit, List.map_append, List.map_cons, List.nodup_append, List.nodup_cons] at hnodup
  obtain ⟨-, ⟨hafter, -⟩, hapart⟩ := hnodup
  have hbefore : t.task ∉ before.map (·.task) := by
    intro hmem
    exact hapart _ hmem _ List.mem_cons_self rfl
  have hown : t.deliveries.filter (·.1 = t.task) = t.deliveries := by
    refine List.filter_eq_self.2 fun d hd => ?_
    obtain ⟨r, -, rfl⟩ := List.mem_map.1 hd
    simp
  rw [received, h.deliveries_eq, hsplit, List.flatMap_append, List.flatMap_cons,
    List.filter_append, List.filter_append, filter_deliveries_of_not_mem hbefore, hown,
    filter_deliveries_of_not_mem hafter]
  simp [Turn.deliveries, Function.comp_def]

/-- **Who got a push that has been given out:** everybody in the fleet that its turn found, and in
each namespace the members in their own order. -/
theorem received_of_finished (h : Linearization conduct registry s turns) {p : Image.Push}
    (htask : s.tasks[i]? = some (.push p .finished)) :
    ∃ before t after, turns = before ++ t :: after ∧ t.task = i ∧ t.errand = .push p ∧
      (s.received i).Perm (fleetAfter conduct registry before).audience ∧
      ∀ n, (s.received i).filter (·.1 = n) =
        (fleetAfter conduct registry before).recipients n := by
  obtain ⟨t, ht, rfl⟩ := List.mem_map.1 (h.placed i _ htask rfl)
  obtain ⟨before, after, hsplit⟩ := List.append_of_mem ht
  obtain ⟨task, hlookup, hfit⟩ := h.fits before t after hsplit
  rw [htask] at hlookup
  cases hlookup
  have hkept : (fleetAfter conduct registry before).WellKept registry := wellKept_fleetAfter before
  rw [h.received_eq hsplit]
  cases hfit with
  | pushed herrand hvisited hgiven =>
      refine ⟨before, t, after, hsplit, rfl, herrand, ?_, fun n => ?_⟩
      · rw [hgiven]
        exact Fleet.perm_audience hkept hvisited
      · rw [hgiven, Fleet.filter_visit (hvisited.nodup_iff.2 hkept.nodup)]
        split
        next => rfl
        next hn => exact (Fleet.recipients_eq_nil fun hname => hn (hvisited.mem_iff.2 hname)).symm

/-- Deliveries come in the order of the turns. -/
theorem pairwise_deliveries (h : (turns.map (·.task)).Nodup) :
    (turns.flatMap Turn.deliveries).Pairwise fun d e =>
      (turns.map (·.task)).idxOf d.1 ≤ (turns.map (·.task)).idxOf e.1 := by
  induction turns with
  | nil => exact .nil
  | cons t rest ih =>
      obtain ⟨hnew, hrest⟩ := List.nodup_cons.1 h
      have hfirst : ∀ d ∈ t.deliveries, d.1 = t.task := by
        intro d hd
        obtain ⟨r, -, rfl⟩ := List.mem_map.1 hd
        rfl
      have hlater : ∀ d ∈ rest.flatMap Turn.deliveries, t.task ≠ d.1 := by
        intro d hd heq
        obtain ⟨u, hu, hd⟩ := List.mem_flatMap.1 hd
        obtain ⟨r, -, rfl⟩ := List.mem_map.1 hd
        exact hnew (List.mem_map.2 ⟨u, hu, heq.symm⟩)
      rw [List.flatMap_cons, List.pairwise_append]
      refine ⟨?_, ?_, ?_⟩
      · refine List.pairwise_iff_forall_sublist.2 fun {d e} hpair => ?_
        have hd := hfirst d (hpair.subset (by simp))
        have he := hfirst e (hpair.subset (by simp))
        rw [hd, he]
      · refine (ih hrest).imp_of_mem fun {d e} hd he hle => ?_
        rw [List.map_cons, List.idxOf_cons_ne _ (hlater d hd), List.idxOf_cons_ne _ (hlater e he)]
        omega
      · intro d hd e _
        rw [List.map_cons, hfirst d hd, List.idxOf_cons_self]
        exact Nat.zero_le _

/-- Of two members of a list one comes before the other. -/
theorem sublist_pair_or {α : Type} {l : List α} {x y : α} (hx : x ∈ l) (hy : y ∈ l)
    (hne : x ≠ y) : [x, y].Sublist l ∨ [y, x].Sublist l := by
  induction l with
  | nil => cases hx
  | cons z rest ih =>
      rcases List.mem_cons.1 hx with rfl | hx'
      · rcases List.mem_cons.1 hy with rfl | hy'
        · exact absurd rfl hne
        · exact .inl ((List.singleton_sublist.2 hy').cons_cons _)
      · rcases List.mem_cons.1 hy with rfl | hy'
        · exact .inr ((List.singleton_sublist.2 hx').cons_cons _)
        · exact (ih hx' hy').imp (·.cons _) (·.cons _)

/-- If anybody gets one push before anybody gets another, everybody does. -/
theorem sublist_deliveries (h : Linearization conduct registry s turns) {i j : Nat}
    {a a' b b' : String × Member C} (hne : i ≠ j)
    (hpair : [(i, a), (j, a')].Sublist s.deliveries)
    (hb : (i, b) ∈ s.deliveries) (hb' : (j, b') ∈ s.deliveries) :
    [(i, b), (j, b')].Sublist s.deliveries := by
  have hpairwise := pairwise_deliveries h.nodup
  rw [← h.deliveries_eq, List.pairwise_iff_forall_sublist] at hpairwise
  have hij := hpairwise hpair
  have hmem : ∀ {k : Nat} {r : String × Member C}, (k, r) ∈ s.deliveries →
      k ∈ turns.map (·.task) := by
    intro k r hd
    rw [h.deliveries_eq] at hd
    obtain ⟨t, ht, hd⟩ := List.mem_flatMap.1 hd
    obtain ⟨_, _, heq⟩ := List.mem_map.1 hd
    cases heq
    exact List.mem_map_of_mem ht
  rcases sublist_pair_or hb hb' (by simp [hne]) with hfirst | hsecond
  · exact hfirst
  · have hji := hpairwise hsecond
    exact absurd ((List.idxOf_inj (hmem hb)).1 (Nat.le_antisymm hij hji)) hne

end Linearization

/-- **Changes and pushes come in one order.**  Let notifications and pushes be carried out side by
side, in any interleaving, with members that take their time and may fail.  There is one order of
them all, of which later steps change nothing, such that every push that has been given out went
exactly once to every member in the fleet that the turns before its own leave, in each namespace to
one member of each registered kind in order, and to nobody else.  Nothing changes the fleet while a
push is being given out.  If anybody gets one push before anybody gets another, everybody does.  And
the tasks cannot block each other or go on forever. -/
theorem linearizable (h : Leads conduct registry {} s) :
    (∃ turns, Linearization conduct registry s turns ∧
      (∀ s', Leads conduct registry s s' →
        ∃ turns', Linearization conduct registry s' turns' ∧
          turns.map (·.task) <+: turns'.map (·.task)) ∧
      (∀ (i : Nat) (p : Image.Push), s.tasks[i]? = some (.push p .finished) →
        ∃ before t after, turns = before ++ t :: after ∧ t.task = i ∧ t.errand = .push p ∧
          (s.received i).Perm (fleetAfter conduct registry before).audience ∧
          ∀ n, (s.received i).filter (·.1 = n) =
              (fleetAfter conduct registry before).recipients n ∧
            ((fleetAfter conduct registry before).recipients n).map (·.2.kind) =
              if (fleetAfter conduct registry before).managed.has n then registry.registered
              else [])) ∧
    (∀ (i : Nat) (task : Task C) (s' : Scene C), s.tasks[i]? = some task →
      task.isGiving = true → Step conduct registry s s' → s'.fleet = s.fleet) ∧
    (∀ (i j : Nat) (a a' b b' : String × Member C), i ≠ j →
      [(i, a), (j, a')].Sublist s.deliveries →
      (i, b) ∈ s.deliveries → (j, b') ∈ s.deliveries →
      [(i, b), (j, b')].Sublist s.deliveries) ∧
    ((∀ i s', ¬ Work conduct registry i s s') →
      ∀ task ∈ s.tasks, task.isFinished = true) ∧
    Acc (fun s' s : Scene C => ∃ i, Work conduct registry i s s') s := by
  have hguarded := guarded_leads guarded_new h
  obtain ⟨turns, hturns, -⟩ := linearization_new.leads guarded_new h
  refine ⟨⟨turns, hturns, fun s' hlater => hturns.leads hguarded hlater, ?_⟩,
    ?_, ?_, ?_, ?_⟩
  · intro i p htask
    obtain ⟨before, t, after, hsplit, ht, herrand, hperm, hfilter⟩ :=
      hturns.received_of_finished htask
    refine ⟨before, t, after, hsplit, ht, herrand, hperm, fun n => ⟨hfilter n, ?_⟩⟩
    exact Fleet.kinds_recipients (wellKept_fleetAfter before) n
  · intro i task s' htask hgiving hstep
    exact fleet_eq_of_giving hguarded hstep htask hgiving
  · intro i j a a' b b' hne hpair hb hb'
    exact hturns.sublist_deliveries hne hpair hb hb'
  · intro hstuck task hmem
    obtain ⟨i, hi, rfl⟩ := List.mem_iff_getElem.1 hmem
    by_cases hfinished : s.tasks[i].isFinished = true
    · exact hfinished
    · obtain ⟨j, s', hwork⟩ := work_of_not_finished hguarded (List.getElem?_eq_getElem hi)
        (Bool.eq_false_iff.2 hfinished)
      exact absurd hwork (hstuck j s')
  · exact work_wellFounded.apply s

/-- The first controller of a namespace, as `twoKinds` makes it. -/
def deploymentOf (n : String) : String × Member Script := (n, { kind := "deployment", body := {} })

/-- The second one. -/
def jobOf (n : String) : String × Member Script := (n, { kind := "job", body := {} })

/-- Three tasks that were called for at once: a namespace appears, a push is given out, of which the
first controller fails, and the namespace is deleted. -/
def crossing : Scene Script where
  fleet := fleetAfter Script.conduct twoKinds
    [{ task := 0, errand := .sync { change := .added, object := labelled "a" "true" } },
      { task := 2, errand := .sync { change := .deleted, object := labelled "a" "true" } }]
  tasks :=
    [.sync { change := .added, object := labelled "a" "true" } .finished,
      .push { image := "app", tag := "2" } .finished,
      .sync { change := .deleted, object := labelled "a" "true" } .finished]
  record :=
    [.given 1 (deploymentOf "a"), .done 1 (deploymentOf "a") (some "out of order"),
      .given 1 (jobOf "a"), .done 1 (jobOf "a") none]

/-- The example's scene can be reached step by step. -/
theorem leads_crossing : Leads Script.conduct twoKinds {} crossing := by
  refine .head (.call (.sync { change := .added, object := labelled "a" "true" })) ?_
  refine .head (.call (.push { image := "app", tag := "2" })) ?_
  refine .head (.call (.sync { change := .deleted, object := labelled "a" "true" })) ?_
  refine .head (.work (.enterSync (i := 0) rfl rfl)) ?_
  refine .head (.work (.change (i := 0) rfl)) ?_
  refine .head (.work (.leaveSync (i := 0) rfl)) ?_
  refine .head (.work (.enterPush (i := 1) rfl rfl)) ?_
  refine .head (.work (.visit (i := 1) (n := "a") rfl (by simp) rfl)) ?_
  refine .head (.work (.give (i := 1) rfl)) ?_
  refine .head (.work (.done (i := 1) (some "out of order") rfl)) ?_
  refine .head (.work (.give (i := 1) rfl)) ?_
  refine .head (.work (.done (i := 1) none rfl)) ?_
  refine .head (.work (.leavePush (i := 1) rfl fun _ hn => hn)) ?_
  refine .head (.work (.enterSync (i := 2) rfl rfl)) ?_
  refine .head (.work (.change (i := 2) rfl)) ?_
  refine .head (.work (.leaveSync (i := 2) rfl)) ?_
  exact .refl

/-- The push has its turn between the two changes, so that both controllers get it, whatever
becomes of the first. -/
theorem push_between_changes :
    Leads Script.conduct twoKinds {} crossing ∧ crossing.fleet.managed.has "a" = false ∧
    ∃ f : Fleet Script, f.managed.has "a" = true ∧
      [deploymentOf "a", jobOf "a"].Perm f.audience := by
  obtain ⟨⟨turns, -, -, hplace⟩, -⟩ := linearizable leads_crossing
  obtain ⟨before, t, after, -, -, -, hperm, hnamespaces⟩ := hplace 1 _ rfl
  obtain ⟨hfilter, hkinds⟩ := hnamespaces "a"
  have hreceived : (crossing.received 1).filter (·.1 = "a") = [deploymentOf "a", jobOf "a"] := rfl
  refine ⟨leads_crossing, rfl, _, ?_, hperm⟩
  rw [← hfilter, hreceived] at hkinds
  by_cases hmanaged : (fleetAfter Script.conduct twoKinds before).managed.has "a" = true
  · exact hmanaged
  · rw [if_neg hmanaged] at hkinds
    cases hkinds

end Scene

end ImageRollout.Controllers
