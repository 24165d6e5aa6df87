import ImageRollout.Proofs.Image.Agreement
import ImageRollout.Proofs.Kubernetes.Reading
import ImageRollout.Rollout.Plan

/-!
# Which containers a push moves

The push of a reference is to move the containers that run the reference's repository under another
tag, and to leave them in that repository.  It does where the reference and the images end in their
tags.  Where one of them has a port and no tag, a container that is moved runs another repository,
and one that should be is not.

* `plan_eq`: what is planned, deployment by deployment.
* `supersedes_iff`: which images a push supersedes.
* `other_of_supersedes`: images that are superseded by mistake.
* `moves_own_iff`: when a push moves what it should, and to where it should.
-/

namespace ImageRollout.Rollout

open Image Kubernetes

/-- Whether a container runs the repository of a reference under another tag. -/
def IsStale (u : String) (c : Container) : Prop :=
  ∃ image ∈ c.image, (Reference.parse image).IsSameRepository (.parse u) ∧
    (Reference.parse image).effectiveTag ≠ (Reference.parse u).effectiveTag

instance (u : String) : DecidablePred (IsStale u) := fun c =>
  inferInstanceAs (Decidable (∃ image ∈ c.image, _ ∧ _))

/-- A container that is moved by mistake, or is not moved by mistake: either the reference or the
image has a slash behind its last colon, and the container is outdated, or should be. -/
def IsConfused (u : String) (c : Container) : Prop :=
  (∃ image ∈ c.image, ¬ (LastColonBeginsTag u ∧ LastColonBeginsTag image)) ∧
    (isOutdated (.ofReference u) c = true ∨ IsStale u c)

/-- The containers of a deployment that are outdated. -/
def outdatedContainers (push : Push) (d : Deployment) : List Container :=
  (Listing.containers.of d).filter (isOutdated push)

/-- The containers of a deployment that run the repository of a reference under another tag. -/
def staleContainers (u : String) (d : Deployment) : List Container :=
  (Listing.containers.of d).filter (IsStale u)

/-- The plans that give an image to the containers that are due, deployment by deployment, and none
where no container is. -/
def plansFor (text : String) (due : Deployment → List Container) (ds : List Deployment) :
    List Plan :=
  (ds.filter (due · ≠ [])).map fun d =>
    { deployment := d.name, changes := (due d).map fun c => (c.name, text) }

/-- The push of a reference moves the containers that run its repository under another tag, and
these only; and it leaves them in the repository that they run. -/
structure MovesOwn (u : String) (ds : List Deployment) : Prop where
  listed : plan (.ofReference u) ds = plansFor (Push.ofReference u).text (staleContainers u) ds
  kept : ∀ d ∈ ds, ∀ c ∈ Listing.containers.of d, isOutdated (.ofReference u) c = true →
    ∀ image ∈ c.image,
      (Reference.parse (Push.ofReference u).text).IsSameRepository (.parse image)

/-- A plan's changes give the pushed image to the outdated containers. -/
theorem changes_eq (push : Push) (d : Deployment) :
    changes push d = (outdatedContainers push d).map fun c => (c.name, push.text) := by
  rw [changes, outdatedContainers, Listing.of]
  cases d.podSpec? <;> rfl

/-- A plan lists something, namely what is outdated. -/
theorem changes_of_plan {push : Push} {d : Deployment} {p : Plan} (h : planOne push d = some p) :
    p.changes ≠ [] ∧
      p.changes = (outdatedContainers push d).map fun c => (c.name, push.text) := by
  rw [← changes_eq]
  rw [planOne] at h
  split at h
  next => cases h
  next hne =>
    cases h
    exact ⟨hne, rfl⟩

section Plans

variable {text : String} {due due' : Deployment → List Container} {ds : List Deployment}

/-- Plans depend only on what is due in each deployment. -/
theorem plansFor_congr (h : ∀ d ∈ ds, due d = due' d) :
    plansFor text due ds = plansFor text due' ds := by
  have hfilter : ds.filter (due · ≠ []) = ds.filter (due' · ≠ []) :=
    List.filter_congr fun d hd => by rw [h d hd]
  rw [plansFor, plansFor, hfilter]
  exact List.map_congr_left fun d hd => by rw [h d (List.mem_filter.1 hd).1]

/-- As many containers are listed as are due. -/
theorem length_plansFor (text : String) (due : Deployment → List Container)
    (ds : List Deployment) :
    ((plansFor text due ds).flatMap (·.changes)).length = (ds.flatMap due).length := by
  rw [plansFor]
  induction ds with
  | nil => rfl
  | cons d rest ih =>
      by_cases hd : due d = []
      · rw [List.filter_cons_of_neg (by simpa using hd), ih, List.flatMap_cons,
          hd, List.nil_append]
      · rw [List.filter_cons_of_pos (by simpa using hd), List.map_cons, List.flatMap_cons,
          List.length_append, ih, List.flatMap_cons, List.length_append, List.length_map]

/-- Where less is due in every deployment, less is due altogether. -/
theorem length_flatMap_le (h : ∀ d ∈ ds, (due d).Sublist (due' d)) :
    (ds.flatMap due).length ≤ (ds.flatMap due').length := by
  induction ds with
  | nil => exact Nat.le_refl 0
  | cons d rest ih =>
      obtain ⟨hd, hrest⟩ := List.forall_mem_cons.1 h
      rw [List.flatMap_cons, List.flatMap_cons, List.length_append, List.length_append]
      exact Nat.add_le_add hd.length_le (ih hrest)

/-- Where every list is a part of another one, and there are as many items in the end, the lists are
the same. -/
theorem eq_of_length_flatMap (h : ∀ d ∈ ds, (due d).Sublist (due' d))
    (hlength : (ds.flatMap due).length = (ds.flatMap due').length) :
    ∀ d ∈ ds, due d = due' d := by
  induction ds with
  | nil => simp
  | cons d rest ih =>
      obtain ⟨hd, hrest⟩ := List.forall_mem_cons.1 h
      have hle := length_flatMap_le hrest
      have hdLe := hd.length_le
      simp only [List.flatMap_cons, List.length_append] at hlength
      refine List.forall_mem_cons.2 ⟨hd.eq_of_length (by omega), ih hrest (by omega)⟩

end Plans

/-- **What is planned**, deployment by deployment: what is outdated gets the pushed image. -/
theorem plan_eq (push : Push) (ds : List Deployment) :
    plan push ds = plansFor push.text (outdatedContainers push) ds := by
  rw [plansFor]
  induction ds with
  | nil => rfl
  | cons d rest ih =>
      have hone : planOne push d =
          if outdatedContainers push d ≠ [] then
            some { deployment := d.name
                   changes := (outdatedContainers push d).map fun c => (c.name, push.text) }
          else none := by
        rw [planOne, changes_eq]
        cases outdatedContainers push d <;> rfl
      rw [plan] at ih ⊢
      by_cases hsome : outdatedContainers push d ≠ []
      · rw [if_pos hsome] at hone
        rw [List.filterMap_cons_some hone, List.filter_cons_of_pos (by simpa using hsome), ih]
        rfl
      · rw [if_neg hsome] at hone
        rw [List.filterMap_cons_none hone, List.filter_cons_of_neg (by simpa using hsome), ih]

/-- **Which images a push supersedes**, where references and images end in their tags: those of the
same repository under another tag. -/
theorem supersedes_iff {u image : String} (hu : LastColonBeginsTag u)
    (himage : LastColonBeginsTag image) :
    (Push.ofReference u).supersedes image = true ↔
      (Reference.parse image).IsSameRepository (.parse u) ∧
        (Reference.parse image).effectiveTag ≠ (Reference.parse u).effectiveTag := by
  rw [Push.supersedes, Push.sameImage, Push.ofReference_eq hu, Push.ofReference_eq himage,
    ← Reference.name_eq_iff (Reference.isCanonical_parse image) (Reference.isCanonical_parse u)]
  simp

/-- A reference that ends in its tag is pushed under its own name and the tag that counts. -/
theorem parse_text_ofReference {u : String} (hu : LastColonBeginsTag u) :
    Reference.parse (Push.ofReference u).text =
      (Reference.parse u).withTag (Reference.parse u).effectiveTag := by
  have hcanonical := Reference.isCanonical_parse u
  rw [Push.ofReference_eq hu, Push.text, ← Reference.text_withTag]
  exact Reference.parse_text_of_isCanonical
    (Reference.isCanonical_withTag hcanonical (Reference.isTag_effectiveTag hcanonical))

/-- **Images that are superseded by mistake**: with a port and without a tag on either side, what is
superseded is an image of another repository than the one it is moved to. -/
theorem other_of_supersedes {u image : String}
    (hport : ¬ (LastColonBeginsTag u ∧ LastColonBeginsTag image))
    (h : (Push.ofReference u).supersedes image = true) :
    ¬ (Reference.parse (Push.ofReference u).text).IsSameRepository (.parse image) := by
  obtain ⟨hsame, htag⟩ := Bool.and_eq_true_iff.1 h
  have hname : (Push.ofReference image).image = (Push.ofReference u).image :=
    of_decide_eq_true hsame
  rw [← Reference.name_eq_iff (Reference.isCanonical_parse _) (Reference.isCanonical_parse image)]
  intro heq
  by_cases hu : LastColonBeginsTag u
  · -- The image is longer than the name that it has in common with the reference.
    have himage : ¬ LastColonBeginsTag image := fun himage => hport ⟨hu, himage⟩
    rw [parse_text_ofReference hu, Reference.name_parse_of_port himage] at heq
    rw [Push.ofReference_eq hu] at hname
    exact image_ofReference_ne himage (hname.trans heq)
  · rw [text_ofReference hu, Reference.name_parse_of_port hu] at heq
    by_cases himage : LastColonBeginsTag image
    · rw [Push.ofReference_eq himage] at hname
      exact image_ofReference_ne hu (hname.symm.trans heq.symm)
    · rw [Reference.name_parse_of_port himage] at heq
      simp [heq] at htag

/-- A container that is outdated is stale, unless it is confused. -/
theorem isOutdated_iff {u : String} {c : Container} (h : ¬ IsConfused u c) :
    isOutdated (.ofReference u) c = true ↔ IsStale u c := by
  cases himage : c.image with
  | none => simp [isOutdated, IsStale, himage]
  | some image =>
      by_cases hport : LastColonBeginsTag u ∧ LastColonBeginsTag image
      · simp [isOutdated, IsStale, himage, supersedes_iff hport.1 hport.2]
      · -- Then it is neither.
        obtain ⟨houtdated, hstale⟩ := not_or.1 (not_and.1 h ⟨image, himage, hport⟩)
        exact iff_of_false houtdated hstale

/-- What is moved within its repository is stale and not confused. -/
theorem isStale_of_kept {u : String} {c : Container} (h : isOutdated (.ofReference u) c = true)
    (hkept : ∀ image ∈ c.image,
      (Reference.parse (Push.ofReference u).text).IsSameRepository (.parse image)) :
    IsStale u c ∧ ¬ IsConfused u c := by
  obtain ⟨image, himage, hsupersedes⟩ := (Option.any_eq_true _ _).1 h
  have hport : LastColonBeginsTag u ∧ LastColonBeginsTag image :=
    Classical.by_contradiction fun hport =>
      other_of_supersedes hport hsupersedes (hkept image himage)
  refine ⟨⟨image, himage, (supersedes_iff hport.1 hport.2).1 hsupersedes⟩, ?_⟩
  rintro ⟨⟨other, hother, hnot⟩, -⟩
  rw [himage] at hother
  cases hother
  exact hnot hport

/-- **An image update changes only the tag**, and reaches all that it should, exactly if no
container is confused.  In particular it does where neither the reference nor any image has a slash
behind its last colon.  The containers that are moved are those that run the repository of the
reference under another tag, where an empty or a missing tag counts as the default; and each is
moved within the repository that it runs. -/
theorem moves_own_iff (u : String) (ds : List Deployment) :
    MovesOwn u ds ↔ ∀ d ∈ ds, ∀ c ∈ Listing.containers.of d, ¬ IsConfused u c := by
  let push := Push.ofReference u
  constructor
  · rintro ⟨hlisted, hkept⟩
    have hstale (d : Deployment) (hd : d ∈ ds) (c : Container)
        (hc : c ∈ Listing.containers.of d) (houtdated : isOutdated push c = true) :
        IsStale u c ∧ ¬ IsConfused u c :=
      isStale_of_kept houtdated (hkept d hd c hc houtdated)
    have hfilter (d : Deployment) (hd : d ∈ ds) :
        outdatedContainers push d = (staleContainers u d).filter (isOutdated push) := by
      rw [staleContainers, List.filter_filter]
      refine List.filter_congr fun c hc => ?_
      cases houtdated : isOutdated push c with
      | false => rfl
      | true => exact (decide_eq_true (hstale d hd c hc houtdated).1).symm
    have hsublist (d : Deployment) (hd : d ∈ ds) :
        (outdatedContainers push d).Sublist (staleContainers u d) := by
      rw [hfilter d hd]
      exact List.filter_sublist
    -- So nothing is moved by mistake, and by number nothing is left out.
    have hlength : (ds.flatMap (outdatedContainers push)).length =
        (ds.flatMap (staleContainers u)).length := by
      rw [← length_plansFor push.text, ← plan_eq, hlisted, length_plansFor]
    intro d hd c hc hconfused
    have houtdated : isOutdated push c = true := by
      refine hconfused.2.elim id fun hstaleOwn => ?_
      have hmem : c ∈ staleContainers u d := List.mem_filter.2 ⟨hc, decide_eq_true hstaleOwn⟩
      rw [← eq_of_length_flatMap hsublist hlength d hd] at hmem
      exact (List.mem_filter.1 hmem).2
    exact (hstale d hd c hc houtdated).2 hconfused
  · intro h
    refine ⟨?_, fun d hd c hc houtdated image himage => ?_⟩
    · rw [plan_eq]
      refine plansFor_congr fun d hd => List.filter_congr fun c hc => ?_
      exact Bool.eq_iff_iff.2 ((isOutdated_iff (h d hd c hc)).trans decide_eq_true_iff.symm)
    · have hport : LastColonBeginsTag u ∧ LastColonBeginsTag image :=
        Classical.by_contradiction fun hport =>
          h d hd c hc ⟨⟨image, himage, hport⟩, .inl houtdated⟩
      obtain ⟨own, hown, ⟨hhost, hproject, hrepo⟩, -⟩ :=
        (isOutdated_iff (h d hd c hc)).1 houtdated
      rw [hown] at himage
      cases himage
      rw [parse_text_ofReference hport.1]
      exact ⟨hhost.symm, hproject.symm, hrepo.symm⟩

/-- A deployment of containers with names and images. -/
def running (containers : List (String × String)) : Deployment :=
  { metadata := { name := some "web" }
    spec := some
      { template :=
          { spec := some
              { containers := containers.map fun c => { name := c.1, image := some c.2 } } } } }

example :
    plan (.ofReference "hub:5000/team/app:2") [running [("old", "hub:5000/team/app:1"),
      ("new", "hub:5000/team/app:2"), ("other", "team/app:1")]] =
        [{ deployment := "web", changes := [("old", "hub:5000/team/app:2")] }] := by
  decide

/-- A push without a tag to a registry with a port moves a container that runs another repository of
that registry. -/
theorem other_moved :
    let ds := [running [("db", "hub:5000/team/db")]]
    plan (.ofReference "hub:5000/team/app") ds =
        [{ deployment := "web", changes := [("db", "hub:5000/team/app")] }] ∧
      ¬ (Reference.parse "hub:5000/team/db").IsSameRepository (.parse "hub:5000/team/app") ∧
      ¬ MovesOwn "hub:5000/team/app" ds := by
  refine ⟨by decide, by decide, fun h => ?_⟩
  have hlisted := h.listed
  revert hlisted
  decide

end ImageRollout.Rollout
