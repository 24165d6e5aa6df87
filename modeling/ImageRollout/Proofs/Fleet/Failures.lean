import ImageRollout.Proofs.Fleet.Occasions
import ImageRollout.Proofs.Fleet.Passage

/-!
# Failures stay where they are

A maker can fail while a team is made, and a member can fail to stop while its team is stopped.
Either ends the change of one namespace and nothing else: a team that could not be made was never
there, and a team that could not be stopped is gone all the same.

* `deeds_of_make_error`: a team that cannot be made was only made in part.
* `sync_of_start`: an enabled namespace without a team is tried every time.
* `namespaceName_of_mem_sync`: nothing is done to controllers of other namespaces.
* `failures_contained`: what a failure leaves, what comes of it later, and what it costs in the end.
-/

namespace ImageRollout.Controllers

open Kubernetes Namespaces

variable {C : Type}

/-- The namespace that a deed is about. -/
def Deed.namespaceName : Deed → String
  | made n _ | began n _ | ended n _ | stopped n _ | received n _ _ => n
  | syncFailed n _ _ | runFailed n _ | pushFailed n _ _ => n

namespace Team

/-- A team that could not be made left nothing behind but members, made in the order of their kinds.
-/
theorem deeds_of_makeMembers_error {n cause : String}
    {entries : List (String × (String → Except String C))} {deeds : List Deed}
    (h : makeMembers n entries = (.error cause, deeds)) :
    ∃ kinds, kinds <+: entries.map (·.1) ∧ deeds = kinds.map (Deed.made n) := by
  induction entries generalizing deeds with
  | nil => cases h
  | cons e rest ih =>
      obtain ⟨kind, maker⟩ := e
      rw [makeMembers] at h
      cases hbody : maker n with
      | error first =>
          rw [hbody] at h
          cases h
          exact ⟨[kind], by simp, rfl⟩
      | ok body =>
          cases hrest : makeMembers n rest with
          | mk made later =>
              rw [hbody, hrest] at h
              cases made with
              | ok others => cases h
              | error second =>
                  cases h
                  obtain ⟨kinds, hprefix, rfl⟩ := ih hrest
                  exact ⟨kind :: kinds, by simpa using hprefix, rfl⟩

/-- **A team that cannot be made was made in part.**  Makers were called in order, up to the one
that failed, and nothing else was done. -/
theorem deeds_of_make_error {registry : Registry (String → Except String C)} {n cause : String}
    {deeds : List Deed} (h : make registry n = (.error cause, deeds)) :
    ∃ kinds, kinds <+: registry.registered ∧ deeds = kinds.map (Deed.made n) := by
  rw [make] at h
  cases hmembers : makeMembers n registry.entries with
  | mk made later =>
      rw [hmembers] at h
      cases made with
      | ok members => cases h
      | error first =>
          cases h
          exact deeds_of_makeMembers_error hmembers

/-- Who stops the members of a team does nothing to another namespace. -/
theorem namespaceName_of_mem_stopMembers {conduct : Conduct C} {n : String}
    {members : List (Member C)} {d : Deed} (h : d ∈ (stopMembers conduct n members).2.2) :
    d.namespaceName = n := by
  induction members with
  | nil => cases h
  | cons m rest ih =>
      rw [stopMembers] at h
      cases hfail : conduct.stopFailure m.body with
      | some cause =>
          rw [hfail] at h
          rw [List.mem_singleton.1 h]
          rfl
      | none =>
          rw [hfail] at h
          rcases List.mem_cons.1 h with rfl | hrest
          · rfl
          · exact ih hrest

end Team

namespace Fleet

variable {conduct : Conduct C} {registry : Registry (String → Except String C)}
  {note : Notification} {f : Fleet C}

variable (conduct) in
/-- A maker's failure leaves the fleet as it was. -/
theorem sync_of_failsToStart (h : f.FailsToStart registry note) :
    ∃ cause deeds, Team.make registry note.object.name = (.error cause, deeds) ∧
      f.sync conduct registry note =
        (f, deeds ++ [.syncFailed note.object.name note.change cause]) := by
  obtain ⟨hdemanded, cause, deeds, herror⟩ := h
  rcases sync_cases conduct registry note f with
    ⟨t, deeds', -, hmake, -⟩ | ⟨cause', deeds', -, hmake, hsync⟩ | ⟨t, hd, -, -⟩ |
    ⟨hd, -⟩
  · rw [hmake] at herror
    cases herror
  · exact ⟨cause', deeds', hmake, hsync⟩
  · rw [hd] at hdemanded
    cases hdemanded
  · rw [hd] at hdemanded
    cases hdemanded

/-- A namespace that is enabled and has no team is tried, whatever happened before. -/
theorem sync_of_start (henabled : isEnabled note.object = true) (hlives : note.change ≠ .deleted)
    (hfree : f.managed.has note.object.name = false) :
    f.sync conduct registry note = f.startTeam registry note.change note.object.name := by
  have hdemand : demand note.change (isEnabled note.object)
      (List.lookup note.object.name f.managed).isSome = .start :=
    demand_eq_start_iff.2 ⟨hlives, henabled, hfree⟩
  rw [sync]
  simp only [hdemand]

/-- A member's failure to stop leaves the namespace without a team, and is reported. -/
theorem sync_of_failsToStop (h : f.FailsToStop conduct note) :
    (f.sync conduct registry note).1.managed = f.managed.erase note.object.name ∧
      ∃ cause, (f.sync conduct registry note).2.getLast? =
        some (.syncFailed note.object.name note.change cause) := by
  obtain ⟨hdemanded, t, hteam, hfailure⟩ := h
  rcases sync_cases conduct registry note f with
    ⟨t', deeds, hd, -, -⟩ | ⟨cause, deeds, hd, -, -⟩ | ⟨t', -, hteam', hsync⟩ |
    ⟨hd, -⟩
  · rw [hd] at hdemanded
    cases hdemanded
  · rw [hd] at hdemanded
    cases hdemanded
  · rw [hteam] at hteam'
    cases hteam'
    obtain ⟨cause, hcause⟩ := Option.isSome_iff_exists.1 hfailure
    rw [hsync]
    refine ⟨rfl, cause, ?_⟩
    simp [stopTeam, hcause]
  · rw [hd] at hdemanded
    cases hdemanded

/-- Of the teams that are managed no more, a notification adds at most its own. -/
theorem retired_sync (h : f.Intact) :
    (f.sync conduct registry note).1.retired = f.retired ∨
      ∃ t : Team C, t.namespaceName = note.object.name ∧
        (f.sync conduct registry note).1.retired = f.retired ++ [t] := by
  rcases sync_cases conduct registry note f with
    ⟨t, deeds, -, -, hsync⟩ | ⟨cause, deeds, -, -, hsync⟩ | ⟨t, -, hteam, hsync⟩ |
    ⟨-, hsync⟩
  · exact .inl (by rw [hsync])
  · exact .inl (by rw [hsync])
  · refine .inr ⟨(t.stop conduct).1, ?_, by rw [hsync]; rfl⟩
    exact h.named _ (Table.mem_of_lookup hteam)
  · exact .inl (by rw [hsync])

/-- Whatever a notification does and wherever it fails, it concerns its own namespace alone. -/
theorem namespaceName_of_mem_sync (h : f.Intact) {d : Deed}
    (hd : d ∈ (f.sync conduct registry note).2) : d.namespaceName = note.object.name := by
  rcases sync_cases conduct registry note f with
    ⟨t, deeds, -, hmake, hsync⟩ | ⟨cause, deeds, -, hmake, hsync⟩ |
    ⟨t, -, hteam, hsync⟩ | ⟨-, hsync⟩
  · obtain ⟨rfl, -⟩ := Team.deeds_of_make hmake
    rw [hsync] at hd
    obtain ⟨kind, -, rfl⟩ := List.mem_map.1 hd
    rfl
  · obtain ⟨kinds, -, rfl⟩ := Team.deeds_of_make_error hmake
    rw [hsync] at hd
    rcases List.mem_append.1 hd with hmade | hreport
    · obtain ⟨kind, -, rfl⟩ := List.mem_map.1 hmade
      rfl
    · rw [List.mem_singleton.1 hreport]
      rfl
  · have hname : t.namespaceName = note.object.name := h.named _ (Table.mem_of_lookup hteam)
    rw [hsync] at hd
    rcases List.mem_append.1 hd with hstopped | hreport
    · exact (Team.namespaceName_of_mem_stopMembers hstopped).trans hname
    · obtain ⟨cause, -, rfl⟩ := Option.map_eq_some_iff.1 (Option.mem_toList.1 hreport)
      rfl
  · rw [hsync] at hd
    cases hd

/-- A namespace stays without a team as long as nothing enables it. -/
theorem free_after {n : String} {between : List (Occasion C)}
    (h : ∀ o ∈ between, o.enables n = false) (hfree : f.managed.has n = false) :
    (f.after conduct between).managed.has n = false := by
  induction between generalizing f with
  | nil => exact hfree
  | cons o rest ih =>
      apply ih fun r hr => h r (List.mem_cons_of_mem _ hr)
      rw [← Bool.not_eq_true, has_meet]
      simp [h o List.mem_cons_self, hfree]

/-- **Failures stay where they are.**  Let anything happen to a fleet, with makers and members that
fail at any time, and then let it be notified of a change.  The change comes to its end, the fleet
being held until then and given back.  If a maker fails, the fleet is what it was, makers were
called in order and nothing else was done, and the next notification that enables the namespace
tries again.  If a member fails to stop, the namespace has no team.  No team, member or deed of
another namespace is concerned, and from then on the fleet answers as one that has its managed teams
and no others.  The namespaces that are managed would also be managed if no maker had failed; those
that are not, though they would be, are the ones that were enabled, since they were last disabled,
only by notifications at which a maker failed. -/
theorem failures_contained (conduct : Conduct C) (past : List (Occasion C))
    (registry : Registry (String → Except String C)) (note : Notification) :
    let f := ({} : Fleet C).after conduct past
    let n := note.object.name
    let f' := (f.sync conduct registry note).1
    let deeds := (f.sync conduct registry note).2
    (∃ last : Passage C, last.stage = .over ∧ last.locked = false ∧ last.fleet = f' ∧
      last.deeds = deeds ∧ Passage.Leads conduct registry note { fleet := f } last ∧
      ∀ p, Passage.Leads conduct registry note { fleet := f } p →
        Passage.Leads conduct registry note p last ∧ p.locked = p.stage.isInside) ∧
    (f.FailsToStart registry note →
      f' = f ∧
      (∃ kinds cause, kinds <+: registry.registered ∧
        deeds = kinds.map (Deed.made n) ++ [.syncFailed n note.change cause]) ∧
      ∀ (between : List (Occasion C)) (makers : Registry (String → Except String C))
        (later : Notification), (∀ o ∈ between, o.enables n = false) →
        later.object.name = n → later.change ≠ .deleted → isEnabled later.object = true →
        (f'.after conduct between).sync conduct makers later =
          (f'.after conduct between).startTeam makers later.change n) ∧
    (f.FailsToStop conduct note →
      f'.managed = f.managed.erase n ∧
      ∃ cause, deeds.getLast? = some (.syncFailed n note.change cause)) ∧
    ((∀ k, k ≠ n → List.lookup k f'.managed = List.lookup k f.managed) ∧
      (f'.retired = f.retired ∨
        ∃ t : Team C, t.namespaceName = n ∧ f'.retired = f.retired ++ [t]) ∧
      ∀ d ∈ deeds, d.namespaceName = n) ∧
    (∀ later : List (Occasion C),
      let g := ({ managed := f'.managed } : Fleet C).after conduct later
      (f'.after conduct later).managed = g.managed ∧
      ∀ o : Occasion C, o.isTold = true →
        ((f'.after conduct later).meet conduct o).2 = (g.meet conduct o).2) ∧
    ∀ (calm : Conduct C) (makers : Registry (String → Except String C)), makers.NeverFails →
      ∀ k,
        let g := ({} : Fleet C).after calm (past.map (·.under makers))
        (f.managed.has k = true → g.managed.has k = true) ∧
        (g.managed.has k = true →
          (f.managed.has k = false ↔ ∀ before o rest, past = before ++ o :: rest →
            o.enables k = true → (∀ r ∈ rest, r.disables k = false) →
            o.FailsToStart (({} : Fleet C).after conduct before))) := by
  intro f n f' deeds
  have hintact : f.Intact := intact_after intact_empty past
  have hgoing : f'.stopped = false :=
    (stopped_sync conduct registry note f).trans (stopped_after _ past)
  refine ⟨?_, ?_, sync_of_failsToStop, ⟨fun k => lookup_sync_of_other, retired_sync hintact,
    fun d => namespaceName_of_mem_sync hintact⟩, ?_, ?_⟩
  · have hlast := Passage.leads_sync conduct registry note f
    refine ⟨_, rfl, rfl, rfl, rfl, hlast, fun p hp => ?_⟩
    exact ⟨Passage.leads_last rfl hlast hp, Passage.locked_of_leads hp⟩
  · intro hfails
    obtain ⟨-, -, hfree⟩ := demand_eq_start_iff.1 hfails.1
    obtain ⟨cause, made, herror, hsync⟩ := sync_of_failsToStart conduct hfails
    obtain ⟨kinds, hkinds, rfl⟩ := Team.deeds_of_make_error herror
    have hsame : f' = f := congrArg Prod.fst hsync
    refine ⟨hsame, ⟨kinds, cause, hkinds, congrArg Prod.snd hsync⟩, ?_⟩
    intro between makers later hbetween hname hlives henabled
    have hstill : (f.after conduct between).managed.has n = false := free_after hbetween hfree
    rw [hsame, ← hname]
    exact sync_of_start henabled hlives (hname ▸ hstill)
  · intro later g
    have hmanaged : (f'.after conduct later).managed = g.managed :=
      after_congr (f := f') (g := { managed := f'.managed }) rfl hgoing later
    refine ⟨hmanaged, fun o ho => (meet_congr hmanaged ?_ o).2 ho⟩
    rw [stopped_after, stopped_after, hgoing]
  · intro calm makers hmakers k g
    have hmanaged : f.managed.has k = true ↔ _ := managed_iff past k
    have hcalm : g.managed.has k = true ↔ _ := managed_under_iff hmakers past k
    refine ⟨fun h => ?_, fun h => ⟨fun hlacks => ?_, fun hfailed => ?_⟩⟩
    · obtain ⟨before, o, rest, hsplit, henables, -, hrest⟩ := hmanaged.1 h
      exact hcalm.2 ⟨before, o, rest, hsplit, henables, hrest⟩
    · intro before o rest hsplit henables hrest
      by_contra hmakes
      have hhas := hmanaged.2 ⟨before, o, rest, hsplit, henables, hmakes, hrest⟩
      exact Bool.false_ne_true (hlacks.symm.trans hhas)
    · rw [← Bool.not_eq_true]
      intro hhas
      obtain ⟨before, o, rest, hsplit, henables, hmakes, hrest⟩ := hmanaged.1 hhas
      exact hmakes (hfailed before o rest hsplit henables hrest)

/-- The two kinds at a time when no controller of the second can be made. -/
def brokenKinds : Registry (String → Except String Script) :=
  { entries := [("deployment", fun _ => .ok {}), ("job", fun _ => .error "out of order")] }

/-- Two namespaces are enabled, the first at a time when its second controller cannot be made. -/
def badStart : List (Occasion Script) :=
  [.notify brokenKinds { change := .added, object := labelled "a" "true" },
    .notify twoKinds { change := .added, object := labelled "b" "true" }]

/-- The first of them lacks its team for no other reason, and gets it when it changes later. -/
theorem managed_at_second_try :
    let f := ({} : Fleet Script).after Script.conduct badStart
    twoKinds.NeverFails ∧ f.managed.has "a" = false ∧ f.managed.has "b" = true ∧
      ({} : Fleet Script).FailsToStart brokenKinds
        { change := .added, object := labelled "a" "true" } ∧
      (f.sync Script.conduct twoKinds
        { change := .modified, object := labelled "a" "true" }).1.managed.has "a" = true := by
  intro f
  obtain ⟨-, -, -, -, -, hcost⟩ := failures_contained Script.conduct badStart twoKinds
    { change := .modified, object := labelled "a" "true" }
  have hlacks : f.managed.has "a" = false := by decide
  have hwould : (({} : Fleet Script).after Script.conduct
      (badStart.map (·.under twoKinds))).managed.has "a" = true := by decide
  have hfailed := ((hcost Script.conduct twoKinds neverFails_twoKinds "a").2 hwould).1 hlacks
    [] _ _ rfl (by decide) (by decide)
  exact ⟨neverFails_twoKinds, hlacks, by decide, hfailed, by decide⟩

end Fleet

end ImageRollout.Controllers
