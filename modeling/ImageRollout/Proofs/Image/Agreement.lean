import ImageRollout.Image.Push
import ImageRollout.Proofs.Image.Canonical

/-!
# References and pushes

A text is read as a reference and as a push, and both readings cut it at its last colon.  A
reference does so only where no slash stands behind the colon, a push always.  So where the text
ends in its tag, or holds no colon, they agree; otherwise the push takes the port of a registry,
with all that follows it, for a tag.

* `name_eq_iff`: references of one repository are those of one name.
* `ofReference_eq`: what the push is where the readings agree.
* `name_parse_of_port`, `text_ofReference`: what the reference and the push are where they do not.
* `readings_agree_iff`: where the two agree, told from the text.
-/

namespace ImageRollout.Image

/-- No slash stands behind the last colon of the text, so that the colon can be that of a tag. -/
def LastColonBeginsTag (s : String) : Prop :=
  ∀ cut ∈ Text.splitLast? ':' s.toList, '/' ∉ cut.2

instance (s : String) : Decidable (LastColonBeginsTag s) :=
  inferInstanceAs (Decidable (∀ cut ∈ Text.splitLast? ':' s.toList, '/' ∉ cut.2))

namespace Reference

/-- The tag that counts: an empty one means the default. -/
def effectiveTag (r : Reference) : String := if r.tag = "" then defaultTag else r.tag

/-- Whether two references name one repository, with one project and one host. -/
def IsSameRepository (r s : Reference) : Prop :=
  r.host = s.host ∧ r.project = s.project ∧ r.repo = s.repo

instance (r s : Reference) : Decidable (r.IsSameRepository s) :=
  inferInstanceAs (Decidable (_ ∧ _))

theorem isTag_effectiveTag {r : Reference} (h : r.IsCanonical) : IsTag r.effectiveTag := by
  have hdefault : IsTag defaultTag := by decide
  rw [effectiveTag]
  split
  · exact hdefault
  · rcases h.tag with ⟨-, htag⟩ | ⟨-, hlatest, -⟩
    · exact htag
    · rw [hlatest]
      exact hdefault

theorem shape_eq {a b : Shape} (hhost : a.writesHost = b.writesHost)
    (hproject : a.writesProject = b.writesProject) : a = b := by
  revert hhost hproject
  cases a <;> cases b <;> decide

/-- **References of one repository are those of one name.** -/
theorem name_eq_iff {r s : Reference} (hr : r.IsCanonical) (hs : s.IsCanonical) :
    r.name = s.name ↔ r.IsSameRepository s := by
  constructor
  · intro h
    have hread := congrArg (segments ·.toList) h
    simp only [toList_name, segments_lead hr.toFits, segments_lead hs.toFits,
      Prod.mk.injEq] at hread
    exact ⟨hread.1, hread.2.1, String.toList_injective hread.2.2.1⟩
  · rintro ⟨hhost, hproject, hrepo⟩
    have hshape : r.shape = s.shape :=
      shape_eq (by rw [← hr.host_isSome, hhost, hs.host_isSome])
        (by rw [← hr.project_isSome, hproject, hs.project_isSome])
    simp only [name, hostOrEmpty, projectOrEmpty, hhost, hproject, hrepo, hshape]

/-- A name that was read is the text up to the tag. -/
theorem name_parse_of_tag {s : String} {name : List Char} {tag : String} (htag : IsTag tag)
    (hs : s.toList = name ++ ':' :: tag.toList) :
    (parse s).name = String.ofList name ∧ (parse s).tag = tag := by
  obtain ⟨host, project, repo, shape, hfits, rfl⟩ := exists_lead name
  have hcolon : '/' ∉ ':' :: tag.toList := by simp [htag.1]
  rw [parse_of_lead (hfits.append hcolon) (by rw [hs, List.append_assoc]),
    splitTag_append repo htag]
  refine ⟨String.toList_injective ?_, by simp⟩
  rw [toList_name, String.toList_ofList, String.toList_ofList]

/-- A text that ends in no tag is a name as it is. -/
theorem name_parse_of_no_tag {s : String}
    (h : ¬ ∃ name tag, IsTag tag ∧ s.toList = name ++ ':' :: tag.toList) :
    (parse s).name = s ∧ (parse s).tag = defaultTag := by
  obtain ⟨host, project, last, shape, hfits, hs⟩ := exists_lead s.toList
  have huntagged : IsUntagged last := by
    refine (isUntagged_or_tagged last).resolve_right ?_
    rintro ⟨repo, tag, htag, rfl⟩
    exact h ⟨lead host project shape ++ repo, tag, htag, by rw [hs, List.append_assoc]⟩
  rw [parse_of_lead hfits hs, splitTag_of_isUntagged huntagged]
  refine ⟨String.toList_injective ?_, rfl⟩
  rw [toList_name, String.toList_ofList, hs]

/-- Where a slash stands behind the last colon, there is no tag. -/
theorem name_parse_of_port {s : String} (h : ¬ LastColonBeginsTag s) : (parse s).name = s := by
  refine (name_parse_of_no_tag ?_).1
  rintro ⟨name, tag, htag, hs⟩
  refine h fun cut hcut => ?_
  rw [Text.splitLast?_eq_some_iff.2 ⟨hs, htag.2⟩] at hcut
  cases hcut
  exact htag.1

end Reference

/-- **Where the readings agree, a push is the name of the reference and the tag that counts.** -/
theorem Push.ofReference_eq {s : String} (h : LastColonBeginsTag s) :
    ofReference s =
      { image := (Reference.parse s).name, tag := (Reference.parse s).effectiveTag } := by
  rw [ofReference]
  cases hcut : Text.splitLast? ':' s.toList with
  | none =>
      have hcolon := Text.splitLast?_eq_none_iff.1 hcut
      obtain ⟨hname, htag⟩ := Reference.name_parse_of_no_tag (s := s) (by
        rintro ⟨name, tag, -, hs⟩
        exact hcolon (by simp [hs]))
      rw [hname, Reference.effectiveTag, htag]
      rfl
  | some cut =>
      obtain ⟨image, tag⟩ := cut
      obtain ⟨hs, hcolon⟩ := Text.splitLast?_eq_some_iff.1 hcut
      have htag : IsTag (String.ofList tag) :=
        ⟨by simpa using h _ hcut, by simpa using hcolon⟩
      obtain ⟨hname, hread⟩ := Reference.name_parse_of_tag htag (by simpa using hs)
      rw [hname, Reference.effectiveTag, hread]
      cases tag with
      | nil => rfl
      | cons c rest => simp

/-- A reference with a port and without a tag is pushed as it is. -/
theorem text_ofReference {u : String} (hu : ¬ LastColonBeginsTag u) :
    (Push.ofReference u).text = u := by
  simp only [LastColonBeginsTag, not_forall, not_not] at hu
  obtain ⟨⟨registry, path⟩, hcut, hslash⟩ := hu
  obtain ⟨hs, -⟩ := Text.splitLast?_eq_some_iff.1 hcut
  rw [Push.ofReference, hcut]
  cases path with
  | nil => cases hslash
  | cons c rest =>
      refine String.toList_injective ?_
      rw [hs]
      simp [Push.text]

/-- With a port and without a tag, a reference is longer than the name that it is pushed under. -/
theorem image_ofReference_ne {u : String} (hu : ¬ LastColonBeginsTag u) :
    (Push.ofReference u).image ≠ u := by
  intro heq
  have hlength := congrArg String.length (text_ofReference hu)
  simp only [Push.text, String.length_append, heq] at hlength
  have hcolon : ":".length = 1 := rfl
  omega

/-- What the condition says of the text itself. -/
theorem lastColonBeginsTag_iff {s : String} :
    LastColonBeginsTag s ↔
      ':' ∉ s.toList ∨
        ∃ before after,
          s.toList = before ++ ':' :: after ∧ ':' ∉ after ∧ '/' ∉ after := by
  rw [LastColonBeginsTag]
  constructor
  · intro h
    cases hcut : Text.splitLast? ':' s.toList with
    | none => exact .inl (Text.splitLast?_eq_none_iff.1 hcut)
    | some cut =>
        obtain ⟨hs, hcolon⟩ := Text.splitLast?_eq_some_iff.1 hcut
        exact .inr ⟨cut.1, cut.2, hs, hcolon, h cut hcut⟩
  · intro h cut hcut
    rcases h with hnone | ⟨before, after, hs, hcolon, hslash⟩
    · rw [Text.splitLast?_eq_none_iff.2 hnone] at hcut
      cases hcut
    · rw [Text.splitLast?_eq_some_iff.2 ⟨hs, hcolon⟩] at hcut
      cases hcut
      exact hslash

/-- **Both readings have one name** exactly where no slash stands behind the last colon. -/
theorem image_eq_name_iff {s : String} :
    (Push.ofReference s).image = (Reference.parse s).name ↔ LastColonBeginsTag s := by
  constructor
  · intro heq
    by_contra h
    rw [Reference.name_parse_of_port h] at heq
    exact image_ofReference_ne h heq
  · intro h
    rw [Push.ofReference_eq h]

/-- The tag that was read is empty where the text ends with its colon. -/
theorem tag_parse_eq_empty_iff {s : String} (h : LastColonBeginsTag s) :
    (Reference.parse s).tag = "" ↔ s.toList.getLast? = some ':' := by
  rcases lastColonBeginsTag_iff.1 h with hnone | ⟨before, after, hs, hcolon, hslash⟩
  · have huntagged : ¬ ∃ name tag, IsTag tag ∧ s.toList = name ++ ':' :: tag.toList := by
      intro h
      obtain ⟨name, tag, -, hs⟩ := h
      exact hnone (by simp [hs])
    obtain ⟨-, htag⟩ := Reference.name_parse_of_no_tag huntagged
    have hlast : s.toList.getLast? ≠ some ':' := fun hend => hnone (List.mem_of_getLast? hend)
    rw [htag]
    exact iff_of_false (by decide) hlast
  · have htag : IsTag (String.ofList after) := ⟨by simpa using hslash, by simpa using hcolon⟩
    obtain ⟨-, hread⟩ := Reference.name_parse_of_tag htag (by simpa using hs)
    rw [hread, hs]
    cases after with
    | nil => simp
    | cons c rest =>
        have hlast : (c :: rest).getLast? ≠ some ':' := fun hend =>
          hcolon (List.mem_of_getLast? hend)
        simpa [List.getLast?_append] using hlast

/-- **Both readings have one tag** exactly where that of the reference is not empty. -/
theorem tag_eq_tag_iff {s : String} (h : LastColonBeginsTag s) :
    (Push.ofReference s).tag = (Reference.parse s).tag ↔ s.toList.getLast? ≠ some ':' := by
  rw [Ne, ← tag_parse_eq_empty_iff h, Push.ofReference_eq h, Reference.effectiveTag]
  have hdefault : defaultTag ≠ "" := by decide
  by_cases hempty : (Reference.parse s).tag = ""
  · rw [if_pos hempty, hempty]
    exact iff_of_false hdefault (not_not_intro rfl)
  · rw [if_neg hempty]
    exact iff_of_true rfl hempty

/-- **The border of the agreement.**  Every text reads as a push and as a reference.  The push is of
the reference's name exactly if the text has no colon, or no slash stands behind its last one; and
it is also under the reference's tag exactly if, moreover, the text does not end with a colon. -/
theorem readings_agree_iff (s : String) :
    ((Push.ofReference s).image = (Reference.parse s).name ↔
      ':' ∉ s.toList ∨
        ∃ before after, s.toList = before ++ ':' :: after ∧ ':' ∉ after ∧ '/' ∉ after) ∧
    ((Push.ofReference s).image = (Reference.parse s).name ∧
        (Push.ofReference s).tag = (Reference.parse s).tag ↔
      (':' ∉ s.toList ∨
        ∃ before after, s.toList = before ++ ':' :: after ∧ ':' ∉ after ∧ '/' ∉ after) ∧
      s.toList.getLast? ≠ some ':') := by
  rw [image_eq_name_iff, ← lastColonBeginsTag_iff]
  exact ⟨Iff.rfl, and_congr_right tag_eq_tag_iff⟩

end ImageRollout.Image
