import Mathlib.Data.List.Induction
import ImageRollout.Image.Push

/-!
# Images read as pushes

A container's image is read as a push, and a container that moves gets the text of a push for its
image.  For a push with a tag that is not empty and holds no colon the two are inverse, and every
push that was read from a reference has such a tag.  So what becomes of an image while pushes come
in can be told from the pushes alone.

* `ofReference_text`, `isReadable_ofReference`: pushes that read back as themselves.
* `ofReference_settle`: after any pushes an image has the tag of the last push of its name.
-/

namespace ImageRollout.Image.Push

/-- A push whose text reads back as the push. -/
structure IsReadable (p : Push) : Prop where
  tag_ne : p.tag ≠ ""
  no_colon : ':' ∉ p.tag.toList

/-- **The text of a readable push reads as the push.** -/
theorem ofReference_text {p : Push} (h : p.IsReadable) : ofReference p.text = p := by
  have hcut : Text.splitLast? ':' p.text.toList = some (p.image.toList, p.tag.toList) := by
    rw [Text.splitLast?_eq_some_iff]
    exact ⟨by simp [text], h.no_colon⟩
  rw [ofReference, hcut]
  cases htag : p.tag.toList with
  | nil => exact absurd (String.toList_eq_nil_iff.1 htag) h.tag_ne
  | cons c rest =>
      simp only [← htag, String.ofList_toList]

/-- **A push that was read from a reference is readable**, whatever the reference. -/
theorem isReadable_ofReference (reference : String) : (ofReference reference).IsReadable := by
  have hlatest : defaultTag ≠ "" ∧ ':' ∉ defaultTag.toList := by decide
  rw [ofReference]
  split
  next => exact ⟨hlatest.1, hlatest.2⟩
  next image tag hne hcut =>
    obtain ⟨-, hcolon⟩ := Text.splitLast?_eq_some_iff.1 hcut
    refine ⟨fun hempty => ?_, by simpa using hcolon⟩
    have htag : tag = [] := by simpa using hempty
    exact hne htag
  next => exact ⟨hlatest.1, hlatest.2⟩

/-- What becomes of an image that every push moves if it supersedes it. -/
def settle (pushes : List Push) (image : String) : String :=
  pushes.foldl (fun image p => if p.supersedes image then p.text else image) image

/-- The tag of the last push of a name. -/
def lastTag? (pushes : List Push) (name : String) : Option String :=
  (pushes.filter (·.image = name)).getLast?.map (·.tag)

theorem settle_concat (pushes : List Push) (p : Push) (image : String) :
    settle (pushes ++ [p]) image =
      if p.supersedes (settle pushes image) then p.text else settle pushes image :=
  List.foldl_append

theorem lastTag?_concat (pushes : List Push) (p : Push) (name : String) :
    lastTag? (pushes ++ [p]) name =
      if p.image = name then some p.tag else lastTag? pushes name := by
  rw [lastTag?, List.filter_append]
  by_cases h : p.image = name
  · simp [h]
  · simp [h, lastTag?]

/-- **The last push of its name decides an image's tag.**  Its name stays what it was. -/
theorem ofReference_settle {pushes : List Push} (h : ∀ p ∈ pushes, p.IsReadable)
    (image : String) :
    ofReference (settle pushes image) =
      { image := (ofReference image).image
        tag := (lastTag? pushes (ofReference image).image).getD (ofReference image).tag } := by
  induction pushes using List.reverseRecOn with
  | nil => rfl
  | append_singleton earlier p ih =>
      have hread := ih fun q hq => h q (List.mem_append_left _ hq)
      have hp := h p (List.mem_append_right _ (List.mem_singleton.2 rfl))
      rw [settle_concat, lastTag?_concat, supersedes, sameImage, hread]
      by_cases hname : p.image = (ofReference image).image
      · simp only [hname, decide_true, Bool.true_and, if_true, Option.getD_some]
        split
        next => rw [ofReference_text hp, ← hname]
        next hsame =>
          rw [hread]
          simpa using hsame
      · rw [if_neg hname, if_neg (by simp [Ne.symm hname]), hread]

/-- An image of another name than all pushes is left as it was, to the letter. -/
theorem settle_eq_self {pushes : List Push} {image : String}
    (h : ∀ p ∈ pushes, p.image ≠ (ofReference image).image) :
    settle pushes image = image := by
  induction pushes using List.reverseRecOn with
  | nil => rfl
  | append_singleton earlier p ih =>
      have hearlier := ih fun q hq => h q (List.mem_append_left _ hq)
      have hp := h p (List.mem_append_right _ (List.mem_singleton.2 rfl))
      rw [settle_concat, hearlier, supersedes, sameImage]
      simp [Ne.symm hp]

/-- The last push of its name supersedes no image any more. -/
theorem not_supersedes_settle {before after : List Push} {p : Push}
    (h : ∀ q ∈ before ++ p :: after, q.IsReadable)
    (hlast : ∀ q ∈ after, q.image ≠ p.image)
    (image : String) : p.supersedes (settle (before ++ p :: after) image) = false := by
  have hfilter : after.filter (·.image = p.image) = [] := by
    simpa [List.filter_eq_nil_iff] using hlast
  have htag : lastTag? (before ++ p :: after) p.image = some p.tag := by
    simp [lastTag?, List.filter_append, hfilter]
  rw [supersedes, sameImage, ofReference_settle h]
  by_cases hname : (ofReference image).image = p.image
  · simp [hname, htag]
  · simp [hname]

end ImageRollout.Image.Push
