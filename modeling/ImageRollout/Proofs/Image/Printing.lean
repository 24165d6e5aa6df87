import Mathlib.Data.List.Basic
import ImageRollout.Image.Reference

/-!
# References as they were written

A reference prints as the text it was read from, and under another tag it differs from that in
nothing but the tag.

* `text_parse`: reading and printing gives back the text.
* `text_withTag`: the name is printed as it was written, and then the new tag.
-/

namespace ImageRollout.Image.Reference

theorem joinWith_splitOn (s : List Char) : Text.joinWith '/' (s.splitOn '/') = s :=
  List.intercalate_splitOn '/'

/-- What is printed before the repository. -/
def lead (host project : Option String) : Shape → List Char
  | .repo => []
  | .projectRepo => (project.getD "").toList ++ ['/']
  | .hostProjectRepo => (host.getD "").toList ++ '/' :: ((project.getD "").toList ++ ['/'])

theorem toList_name (r : Reference) :
    r.name.toList = lead r.host r.project r.shape ++ r.repo.toList := by
  rw [name]
  cases r.shape <;> simp [lead, hostOrEmpty, projectOrEmpty]

/-- The segments of a text, printed with slashes between them. -/
theorem lead_segments (s : List Char) :
    lead (segments s).1 (segments s).2.1 (segments s).2.2.2 ++ (segments s).2.2.1 = s := by
  have hjoin := joinWith_splitOn s
  rw [segments]
  rcases hsplit : s.splitOn '/' with _ | ⟨first, _ | ⟨second, _ | ⟨third, rest⟩⟩⟩
  · rfl
  · rfl
  · rw [hsplit] at hjoin
    simpa [lead, Text.joinWith] using hjoin
  · rw [hsplit] at hjoin
    simpa [lead, Text.joinWith] using hjoin

/-- The last part of a text, printed with a colon before its tag if it has one. -/
theorem splitTag_eq (last : List Char) :
    ((splitTag last).2 = none ∧ (splitTag last).1 = last) ∨
      ∃ tag, (splitTag last).2 = some tag ∧ (splitTag last).1 ++ ':' :: tag = last := by
  rw [splitTag]
  cases hcut : Text.splitLast? ':' last with
  | none => exact .inl ⟨rfl, rfl⟩
  | some cut =>
      obtain ⟨repo, tag⟩ := cut
      obtain ⟨hlast, -⟩ := Text.splitLast?_eq_some_iff.1 hcut
      by_cases hslash : '/' ∈ tag
      · exact .inl (by simp [hslash])
      · exact .inr ⟨tag, by simp [hslash], by simp [hslash, hlast]⟩

/-- **A reference prints as it was written.** -/
theorem text_parse (s : String) : (parse s).text = s := by
  have hlead := lead_segments s.toList
  apply String.toList_injective
  rcases splitTag_eq (segments s.toList).2.2.1 with ⟨htag, hrepo⟩ | ⟨tag, htag, hrepo⟩
  · have hname : (parse s).text = (parse s).name := by simp [text, parse, htag]
    rw [hname, toList_name]
    simp only [parse, String.toList_ofList, hrepo]
    exact hlead
  · have hspelled : (parse s).text = (parse s).name ++ ":" ++ String.ofList tag := by
      simp [text, parse, htag]
    rw [hspelled, String.toList_append, String.toList_append, toList_name]
    simp only [parse, String.toList_ofList, List.append_assoc]
    exact (congrArg _ hrepo).trans hlead

/-- Under another tag the name stays as it was written. -/
theorem text_withTag (r : Reference) (tag : String) :
    (r.withTag tag).text = r.name ++ ":" ++ tag :=
  rfl

end ImageRollout.Image.Reference
