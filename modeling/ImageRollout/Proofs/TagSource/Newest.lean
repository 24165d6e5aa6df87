import Mathlib.Data.List.Forall2
import Mathlib.Data.List.Nodup
import Mathlib.Data.Option.Defs
import ImageRollout.TagSource.Artifact

/-!
# The newest tag, read off the sorted lists

The latest tag is looked for in one passage through the artifacts, and in one through the tags of
the newest.  What is found can be told from the lists in order of their push times, the missing ones
first and equal ones as they were listed: it is what stands last.  So where no push time is given
twice, the order in which the registry lists its artifacts and tags does not matter.

* `isStableSort_inOrder`, `newest?_eq_getLast?`: the list in order, and what stands last in it.
* `newest?_perm`, `rel_newest?`: lists in another order, and lists of other items.
* `ofJson?_null`: a push time or a list of tags that is null is read as one that is missing.
* `latestTag?_eq_last`: the latest tag.
-/

namespace ImageRollout.TagSource

open Time

/-- Whether one push was not later than another. -/
def notLater (a b : Option Instant) : Bool := !pushedBefore b a

section Order

variable {a b c : Option Instant}

/-- Times that do not come later are in order. -/
theorem notLater_trans (hab : notLater a b = true) (hbc : notLater b c = true) :
    notLater a c = true := by
  cases a <;> cases b <;> cases c <;> grind [notLater, pushedBefore, Instant.before]

/-- Of two times one does not come later. -/
theorem notLater_total (a b : Option Instant) : (notLater a b || notLater b a) = true := by
  cases a <;> cases b <;> grind [notLater, pushedBefore, Instant.before]

/-- No time comes later than itself. -/
theorem notLater_refl (a : Option Instant) : notLater a a = true := by
  simpa using notLater_total a a

/-- Pushes of which neither was later were at one time. -/
theorem eq_of_notLater (hab : notLater a b = true) (hba : notLater b a = true) : a = b := by
  cases a with
  | none => cases b <;> simp_all [notLater, pushedBefore]
  | some s =>
      cases b with
      | none => simp [notLater, pushedBefore] at hab
      | some t =>
          obtain ⟨seconds, nanos⟩ := s
          obtain ⟨seconds', nanos'⟩ := t
          simp only [notLater, pushedBefore, Instant.before] at hab hba
          grind

/-- Of two pushes at different times one was before the other. -/
theorem pushedBefore_of_notLater (hab : notLater a b = true) (hne : a ≠ b) :
    pushedBefore a b = true := by
  by_contra hbefore
  exact hne (eq_of_notLater hab (by simpa [notLater] using hbefore))

end Order

section Newest

variable {α : Type} {time : α → Option Instant} {l sorted : List α}

/-- The items in order of their times, missing times first and equal times as they were. -/
def inOrder (time : α → Option Instant) (l : List α) : List α :=
  l.mergeSort fun a b => notLater (time a) (time b)

/-- A list in ascending order of its times that keeps items of one time as they were. -/
structure IsStableSort (time : α → Option Instant) (l sorted : List α) : Prop where
  perm : sorted.Perm l
  ascending : sorted.Pairwise fun a b => notLater (time a) (time b) = true
  stable : ∀ t, sorted.filter (time · = t) = l.filter (time · = t)

/-- **The list in order** is sorted, and stably so. -/
theorem isStableSort_inOrder (time : α → Option Instant) (l : List α) :
    IsStableSort time l (inOrder time l) := by
  have htrans (a b c : α) (hab : notLater (time a) (time b) = true)
      (hbc : notLater (time b) (time c) = true) : notLater (time a) (time c) = true :=
    notLater_trans hab hbc
  have htotal (a b : α) := notLater_total (time a) (time b)
  have hperm : (inOrder time l).Perm l := List.mergeSort_perm l _
  refine ⟨hperm, List.pairwise_mergeSort htrans htotal l, fun t => ?_⟩
  -- The items of one time are in order already, so they stay in a sublist.
  have hequal : (l.filter (time · = t)).Pairwise fun a b => notLater (time a) (time b) = true := by
    refine List.pairwise_of_forall_mem_list fun a ha b hb => ?_
    have hta : time a = t := by simpa using (List.mem_filter.1 ha).2
    have htb : time b = t := by simpa using (List.mem_filter.1 hb).2
    rw [hta, htb]
    exact notLater_refl t
  have hsub : (l.filter (time · = t)).Sublist (inOrder time l) :=
    List.sublist_mergeSort htrans htotal hequal List.filter_sublist
  have hkept : (l.filter (time · = t)).Sublist ((inOrder time l).filter (time · = t)) := by
    simpa only [List.filter_filter, Bool.and_self] using hsub.filter (time · = t)
  exact (hkept.eq_of_length (hperm.filter _).length_eq.symm).symm

/-- What stands alone is the newest. -/
theorem newest?_cons_of_none {a : α} (h : newest? time l = none) :
    newest? time (a :: l) = some a := by
  rw [newest?, h]

/-- What comes first is the newest if it was pushed after the newest of the others. -/
theorem newest?_cons_of_some {a b : α} (h : newest? time l = some b) :
    newest? time (a :: l) = if pushedBefore (time b) (time a) then some a else some b := by
  rw [newest?, h]

/-- The newest is one of the list. -/
theorem mem_of_newest? {a : α} (h : newest? time l = some a) : a ∈ l := by
  induction l generalizing a with
  | nil => cases h
  | cons b rest ih =>
      cases hrest : newest? time rest with
      | none =>
          rw [newest?_cons_of_none hrest] at h
          cases h
          exact List.mem_cons_self
      | some c =>
          rw [newest?_cons_of_some hrest] at h
          split at h
          · cases h
            exact List.mem_cons_self
          · cases h
            exact List.mem_cons_of_mem _ (ih hrest)

/-- What no earlier item outdoes, and every later one stays behind, is the newest. -/
theorem newest?_eq_some {before after : List α} {a : α}
    (hbefore : ∀ b ∈ before, notLater (time b) (time a) = true)
    (hafter : ∀ b ∈ after, pushedBefore (time b) (time a) = true) :
    newest? time (before ++ a :: after) = some a := by
  induction before with
  | nil =>
      cases hrest : newest? time after with
      | none => exact newest?_cons_of_none hrest
      | some b =>
          rw [List.nil_append, newest?_cons_of_some hrest]
          exact if_pos (hafter b (mem_of_newest? hrest))
  | cons b rest ih =>
      obtain ⟨hb, hrest⟩ := List.forall_mem_cons.1 hbefore
      rw [List.cons_append, newest?_cons_of_some (ih hrest)]
      have hnot : ¬ pushedBefore (time a) (time b) = true := by simpa [notLater] using hb
      exact if_neg hnot

/-- **The newest item is the last in order.** -/
theorem newest?_eq_getLast? (h : IsStableSort time l sorted) :
    newest? time l = sorted.getLast? := by
  obtain ⟨hperm, hascending, hstable⟩ := h
  rcases List.eq_nil_or_concat' sorted with rfl | ⟨others, a, rfl⟩
  · rw [List.nil_perm.1 hperm]
    rfl
  · -- The last of the items that were pushed when `a` was is `a` itself.
    have hsame := hstable (time a)
    rw [List.filter_append, List.filter_cons_of_pos (by simp), List.filter_nil] at hsame
    obtain ⟨front, back, rfl, -, hback⟩ := List.filter_eq_append_iff.1 hsame.symm
    obtain ⟨between, after, rfl, -, -, hnone⟩ := List.filter_eq_cons_iff.1 hback
    have hle : ∀ b ∈ front ++ (between ++ a :: after), notLater (time b) (time a) = true := by
      intro b hb
      rcases List.mem_append.1 (hperm.mem_iff.2 hb) with hmem | hmem
      · exact (List.pairwise_append.1 hascending).2.2 b hmem a List.mem_cons_self
      · rw [List.mem_singleton.1 hmem]
        exact notLater_refl _
    rw [← List.append_assoc, List.getLast?_append, List.getLast?_singleton, Option.some_or]
    refine newest?_eq_some (fun b hb => hle b ?_) fun b hb => ?_
    · rw [← List.append_assoc]
      exact List.mem_append_left _ hb
    · have hne : time b ≠ time a := by simpa using List.filter_eq_nil_iff.1 hnone b hb
      exact pushedBefore_of_notLater (hle b (by simp [hb])) hne

/-- **Where no time is given twice**, the newest item does not depend on the order. -/
theorem newest?_perm {l' : List α} (hdistinct : (l.map time).Nodup) (h : l.Perm l') :
    newest? time l' = newest? time l := by
  have hsort := isStableSort_inOrder time l
  have hsort' : IsStableSort time l' (inOrder time l) := by
    refine ⟨hsort.perm.trans h, hsort.ascending, fun t => ?_⟩
    rw [hsort.stable]
    -- There is at most one item of a time, so it stands alone in both lists.
    refine (h.filter _).eq_of_pairwise (fun a b ha hb _ _ => ?_)
      (List.pairwise_of_forall fun _ _ => trivial) (List.pairwise_of_forall fun _ _ => trivial)
    obtain ⟨ha, hta⟩ := List.mem_filter.1 ha
    obtain ⟨hb, htb⟩ := List.mem_filter.1 hb
    exact List.inj_on_of_nodup_map hdistinct ha (h.mem_iff.2 hb)
      ((of_decide_eq_true hta).trans (of_decide_eq_true htb).symm)
  rw [newest?_eq_getLast? hsort, newest?_eq_getLast? hsort']

/-- The newest of other items with the same times stands where the newest did. -/
theorem rel_newest? {R : α → α → Prop} {l' : List α} (h : List.Forall₂ R l l')
    (htime : ∀ a b, R a b → time b = time a) :
    Option.Rel R (newest? time l) (newest? time l') := by
  induction h with
  | nil => exact .none
  | @cons a b rest rest' hab hrest ih =>
      generalize hnewest : newest? time rest = found at ih
      generalize hnewest' : newest? time rest' = found' at ih
      cases ih with
      | none =>
          rw [newest?_cons_of_none hnewest, newest?_cons_of_none hnewest']
          exact .some hab
      | @some c d hcd =>
          rw [newest?_cons_of_some hnewest, newest?_cons_of_some hnewest', htime a b hab,
            htime c d hcd]
          split
          · exact .some hab
          · exact .some hcd

end Newest

section Records

variable {α : Type} {before after : List (String × Json)} {key : String}

/-- A record is read the same where a member is null and where it is missing. -/
def ReadsNullAsMissing (read? : Json → Option α) (key : String) : Prop :=
  ∀ before after, (∀ m ∈ before ++ after, m.1 ≠ key) →
    read? (.obj (before ++ (key, .null) :: after)) = read? (.obj (before ++ after))

/-- A field that no member bears is absent. -/
theorem slotIn?_missing {members : List (String × Json)} (h : ∀ m ∈ members, m.1 ≠ key) :
    Json.slotIn? members key = some .absent := by
  have hfilter : members.filter (·.1 == key) = [] :=
    List.filter_eq_nil_iff.2 fun m hm => by simpa using h m hm
  rw [Json.slotIn?, hfilter]

/-- A field that is null was given as null. -/
theorem slotIn?_null (h : ∀ m ∈ before ++ after, m.1 ≠ key) :
    Json.slotIn? (before ++ (key, .null) :: after) key = some (.given .null) := by
  have hfilter : (before ++ after).filter (·.1 == key) = [] :=
    List.filter_eq_nil_iff.2 fun m hm => by simpa using h m hm
  obtain ⟨hbefore, hafter⟩ :=
    List.append_eq_nil_iff.1 ((List.filter_append ..).symm.trans hfilter)
  rw [Json.slotIn?, List.filter_append, List.filter_cons_of_pos (by simp), hbefore, hafter]
  rfl

/-- A field that is null makes no difference to the others. -/
theorem slotIn?_other (before after : List (String × Json)) {field : String} (h : field ≠ key) :
    Json.slotIn? (before ++ (key, .null) :: after) field =
      Json.slotIn? (before ++ after) field := by
  have hfilter : (before ++ (key, .null) :: after).filter (·.1 == field) =
      (before ++ after).filter (·.1 == field) := by
    simp [List.filter_append, h.symm]
  rw [Json.slotIn?, hfilter, Json.slotIn?]

/-- **Null and nothing** are the same push time, and the same list of tags. -/
theorem ofJson?_null :
    ReadsNullAsMissing Artifact.ofJson? "push_time" ∧
      ReadsNullAsMissing Artifact.ofJson? "tags" ∧
        ReadsNullAsMissing Tag.ofJson? "push_time" := by
  refine ⟨fun before after h => ?_, fun before after h => ?_, fun before after h => ?_⟩
  · have htags := slotIn?_other before after (show "tags" ≠ "push_time" by decide)
    simp only [Artifact.ofJson?, Json.slots?, List.mapM_cons, List.mapM_nil, slotIn?_null h,
      slotIn?_missing h, htags]
    cases Json.slotIn? (before ++ after) "tags" <;> rfl
  · have htime := slotIn?_other before after (show "push_time" ≠ "tags" by decide)
    simp only [Artifact.ofJson?, Json.slots?, List.mapM_cons, List.mapM_nil, slotIn?_null h,
      slotIn?_missing h, htime]
    cases Json.slotIn? (before ++ after) "push_time" <;> rfl
  · have hname := slotIn?_other before after (show "name" ≠ "push_time" by decide)
    simp only [Tag.ofJson?, Json.slots?, List.mapM_cons, List.mapM_nil, slotIn?_null h,
      slotIn?_missing h, hname]
    cases Json.slotIn? (before ++ after) "name" <;> rfl

end Records

/-- An artifact that differs from another one in the order of its tags at most. -/
structure HasSameTags (a b : Artifact) : Prop where
  pushTime : b.pushTime = a.pushTime
  tags : (a.tags.getD []).Perm (b.tags.getD [])

/-- The artifacts in any order, each with its tags in any order. -/
def IsReordering (artifacts others : List Artifact) : Prop :=
  ∃ moved, artifacts.Perm moved ∧ List.Forall₂ HasSameTags moved others

/-- No two of the artifacts have one push time, and no two tags of any of them. -/
structure HaveDistinctTimes (artifacts : List Artifact) : Prop where
  ofArtifacts : (artifacts.map Artifact.pushTime).Nodup
  ofTags : ∀ a ∈ artifacts, ((a.tags.getD []).map Tag.pushTime).Nodup

/-- The latest tag is the newest of the newest artifact's tags. -/
theorem latestTag?_eq_bind (artifacts : List Artifact) :
    latestTag? artifacts = (newest? Artifact.pushTime artifacts).bind fun a =>
      (newest? Tag.pushTime (a.tags.getD [])).map Tag.name := by
  cases hartifact : newest? Artifact.pushTime artifacts with
  | none => simp [latestTag?, hartifact]
  | some a =>
      rw [Option.bind_some, Option.map_eq_bind, latestTag?, hartifact]
      rfl

/-- With distinct times the latest tag does not depend on any order. -/
theorem latestTag?_reordered {artifacts others : List Artifact} (h : HaveDistinctTimes artifacts)
    (hothers : IsReordering artifacts others) : latestTag? others = latestTag? artifacts := by
  obtain ⟨moved, hperm, hsame⟩ := hothers
  have hnewest : Option.Rel HasSameTags (newest? Artifact.pushTime moved)
      (newest? Artifact.pushTime others) :=
    rel_newest? hsame fun _ _ => HasSameTags.pushTime
  rw [newest?_perm h.ofArtifacts hperm] at hnewest
  rw [latestTag?_eq_bind, latestTag?_eq_bind]
  generalize hfound : newest? Artifact.pushTime artifacts = found at hnewest
  generalize newest? Artifact.pushTime others = found' at hnewest
  cases hnewest with
  | none => rfl
  | @some a b hab =>
      have hdistinct := h.ofTags a (mem_of_newest? hfound)
      rw [Option.bind_some, Option.bind_some, newest?_perm hdistinct hab.tags]

/-- **The latest tag** is the last tag, in order of the push times, of the last artifact in order of
the push times; missing times come first, and equal ones stay as they were listed.  There is none
exactly if there is no artifact, or the last one has no tags.  Where no time is given twice, the
latest tag is the same in whatever order the artifacts and their tags are listed.  And a time or a
list of tags that is null counts as missing. -/
theorem latestTag?_eq_last (artifacts : List Artifact) :
    (latestTag? artifacts =
      (inOrder Artifact.pushTime artifacts).getLast?.bind fun a =>
        (inOrder Tag.pushTime (a.tags.getD [])).getLast?.map Tag.name) ∧
    (latestTag? artifacts = none ↔
      artifacts = [] ∨
        ∃ a, (inOrder Artifact.pushTime artifacts).getLast? = some a ∧ a.tags.getD [] = []) ∧
    (HaveDistinctTimes artifacts → ∀ others, IsReordering artifacts others →
      latestTag? others = latestTag? artifacts) ∧
    ReadsNullAsMissing Artifact.ofJson? "push_time" ∧
      ReadsNullAsMissing Artifact.ofJson? "tags" ∧
        ReadsNullAsMissing Tag.ofJson? "push_time" := by
  have hlast : latestTag? artifacts =
      (inOrder Artifact.pushTime artifacts).getLast?.bind fun a =>
        (inOrder Tag.pushTime (a.tags.getD [])).getLast?.map Tag.name := by
    rw [latestTag?_eq_bind, newest?_eq_getLast? (isStableSort_inOrder Artifact.pushTime artifacts)]
    refine congrArg _ (funext fun a => ?_)
    rw [newest?_eq_getLast? (isStableSort_inOrder Tag.pushTime (a.tags.getD []))]
  have hnil {α : Type} (time : α → Option Instant) (l : List α) :
      (inOrder time l).getLast? = none ↔ l = [] := by
    rw [List.getLast?_eq_none_iff, ← List.length_eq_zero_iff, ← List.length_eq_zero_iff,
      (isStableSort_inOrder time l).perm.length_eq]
  refine ⟨hlast, ?_, fun h _ => latestTag?_reordered h, ofJson?_null⟩
  rw [hlast, ← hnil Artifact.pushTime artifacts]
  cases (inOrder Artifact.pushTime artifacts).getLast? with
  | none => simp
  | some a => simp [hnil]

/-- A tag that was pushed so many seconds after 1970. -/
def tagAt (name : String) (seconds : Int) : Tag :=
  { name, pushTime := some { seconds, nanos := 0 } }

/-- An artifact that was pushed so many seconds after 1970. -/
def artifactAt (seconds : Int) (tags : List Tag) : Artifact :=
  { pushTime := some { seconds, nanos := 0 }, tags := some tags }

/-- The newer artifact is listed first, and its newer tag last. -/
def newerFirst : List Artifact :=
  [artifactAt 2 [tagAt "v10" 2, tagAt "v9" 3], artifactAt 1 [tagAt "v11" 1]]

/-- The same the other way round. -/
def newerLast : List Artifact :=
  [artifactAt 1 [tagAt "v11" 1], artifactAt 2 [tagAt "v9" 3, tagAt "v10" 2]]

/-- The newest tag of the newest artifact is found wherever the two are listed. -/
theorem latestTag?_newerLast :
    HaveDistinctTimes newerFirst ∧ IsReordering newerFirst newerLast ∧
      latestTag? newerLast = some "v9" := by
  have hdistinct : HaveDistinctTimes newerFirst := ⟨by decide, by decide⟩
  have hreordering : IsReordering newerFirst newerLast :=
    ⟨_, .swap _ _ _, .cons ⟨rfl, .refl _⟩ (.cons ⟨rfl, .swap _ _ _⟩ .nil)⟩
  have hsame := (latestTag?_eq_last newerFirst).2.2.1 hdistinct newerLast hreordering
  exact ⟨hdistinct, hreordering, hsame.trans (by decide)⟩

end ImageRollout.TagSource
