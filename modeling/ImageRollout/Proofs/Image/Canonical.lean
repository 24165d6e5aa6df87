import ImageRollout.Proofs.Image.Printing

/-!
# Canonical references

A reference that was read from a text has the leading segments of its shape, none of which holds a
slash, and a tag that can be told from the repository before it.  These are the canonical
references.  They are read back from the texts that they print as, and no others are.

* `segments_lead`, `splitTag_append`: parts that were printed are read back.
* `isCanonical_parse`, `parse_text_of_isCanonical`: what reading yields, and what it gets back.
* `parse_text_withTag_iff`: the tags under which a reference that was read is read back.
* `exact_both_ways`: texts and canonical references are two forms of the same.
-/

namespace ImageRollout.Image

/-- Whether references of the shape write a host. -/
def Shape.writesHost : Shape → Bool
  | .hostProjectRepo => true
  | .projectRepo | .repo => false

/-- Whether references of the shape write a project. -/
def Shape.writesProject : Shape → Bool
  | .hostProjectRepo | .projectRepo => true
  | .repo => false

/-- A text that can follow a colon as a tag. -/
def IsTag (tag : String) : Prop := '/' ∉ tag.toList ∧ ':' ∉ tag.toList

instance (tag : String) : Decidable (IsTag tag) := inferInstanceAs (Decidable (_ ∧ _))

/-- No colon of the text begins a tag: each has a slash behind it. -/
def IsUntagged (last : List Char) : Prop := ∀ repo tag, last = repo ++ ':' :: tag → '/' ∈ tag

namespace Reference

/-- Leading segments and what follows them, as a text of the shape has them. -/
structure Fits (host project : Option String) (last : List Char) (shape : Shape) : Prop where
  host_isSome : host.isSome = shape.writesHost
  project_isSome : project.isSome = shape.writesProject
  host_flat : ∀ h, host = some h → '/' ∉ h.toList
  project_flat : ∀ p, project = some p → '/' ∉ p.toList
  last_flat : shape ≠ .hostProjectRepo → '/' ∉ last

/-- A reference that is what its text says. -/
structure IsCanonical (r : Reference) : Prop
    extends Fits r.host r.project r.repo.toList r.shape where
  tag : (r.tagSpelled = true ∧ IsTag r.tag) ∨
    (r.tagSpelled = false ∧ r.tag = defaultTag ∧ IsUntagged r.repo.toList)

section Segments

/-- **Leading segments that were printed are read back.** -/
theorem segments_lead {host project : Option String} {last : List Char} {shape : Shape}
    (h : Fits host project last shape) :
    segments (lead host project shape ++ last) = (host, project, last, shape) := by
  obtain ⟨hhost, hproject, hhostFlat, hprojectFlat, hlast⟩ := h
  cases shape with
  | repo =>
      obtain rfl : host = none := by simpa [Shape.writesHost] using hhost
      obtain rfl : project = none := by simpa [Shape.writesProject] using hproject
      rw [lead, List.nil_append, segments, List.splitOn_eq_singleton (hlast (by decide))]
  | projectRepo =>
      obtain rfl : host = none := by simpa [Shape.writesHost] using hhost
      obtain ⟨p, rfl⟩ := Option.isSome_iff_exists.1 hproject
      have hsplit : (p.toList ++ '/' :: last).splitOn '/' = [p.toList, last] := by
        rw [List.splitOn_append_cons_self_of_not_mem (hprojectFlat p rfl),
          List.splitOn_eq_singleton (hlast (by decide))]
      simp [lead, segments, hsplit]
  | hostProjectRepo =>
      obtain ⟨h, rfl⟩ := Option.isSome_iff_exists.1 hhost
      obtain ⟨p, rfl⟩ := Option.isSome_iff_exists.1 hproject
      have hsplit : (h.toList ++ '/' :: (p.toList ++ '/' :: last)).splitOn '/' =
          h.toList :: p.toList :: last.splitOn '/' := by
        rw [List.splitOn_append_cons_self_of_not_mem (hhostFlat h rfl),
          List.splitOn_append_cons_self_of_not_mem (hprojectFlat p rfl)]
      have hjoin := joinWith_splitOn last
      obtain ⟨first, rest, hrest⟩ := List.exists_cons_of_ne_nil (List.splitOn_ne_nil '/' last)
      rw [hrest] at hsplit hjoin
      simp [lead, segments, hsplit, hjoin]

/-- Every text has leading segments, if only none. -/
theorem exists_lead (s : List Char) : ∃ host project last shape,
    Fits host project last shape ∧ s = lead host project shape ++ last := by
  by_cases hs : '/' ∈ s
  · obtain ⟨first, rest, rfl, hfirst⟩ := List.eq_append_cons_of_mem hs
    by_cases hrest : '/' ∈ rest
    · obtain ⟨second, last, rfl, hsecond⟩ := List.eq_append_cons_of_mem hrest
      refine ⟨some (.ofList first), some (.ofList second), last, .hostProjectRepo,
        ⟨rfl, rfl, ?_, ?_, fun h => absurd rfl h⟩, by simp [lead]⟩
      · rintro _ ⟨⟩
        simpa using hfirst
      · rintro _ ⟨⟩
        simpa using hsecond
    · refine ⟨none, some (.ofList first), rest, .projectRepo, ⟨rfl, rfl, by simp, ?_,
        fun _ => hrest⟩, by simp [lead]⟩
      rintro _ ⟨⟩
      simpa using hfirst
  · exact ⟨none, none, s, .repo, ⟨rfl, rfl, by simp, by simp, fun _ => hs⟩, rfl⟩

/-- What follows the leading segments may grow, as long as it does not get another slash. -/
theorem Fits.append {host project : Option String} {last : List Char} {shape : Shape}
    (h : Fits host project last shape) {more : List Char} (hmore : '/' ∉ more) :
    Fits host project (last ++ more) shape :=
  { h with last_flat := fun hshape => by simp [h.last_flat hshape, hmore] }

theorem Fits.of_append {host project : Option String} {last more : List Char} {shape : Shape}
    (h : Fits host project (last ++ more) shape) : Fits host project last shape :=
  { h with last_flat := fun hshape hmem => h.last_flat hshape (List.mem_append_left _ hmem) }

end Segments

section Tags

/-- **A tag that was printed is read back.** -/
theorem splitTag_append (repo : List Char) {tag : String} (h : IsTag tag) :
    splitTag (repo ++ ':' :: tag.toList) = (repo, some tag.toList) := by
  have hcut : Text.splitLast? ':' (repo ++ ':' :: tag.toList) = some (repo, tag.toList) :=
    Text.splitLast?_eq_some_iff.2 ⟨rfl, h.2⟩
  simp [splitTag, hcut, h.1]

theorem splitTag_of_isUntagged {last : List Char} (h : IsUntagged last) :
    splitTag last = (last, none) := by
  rw [splitTag]
  cases hcut : Text.splitLast? ':' last with
  | none => rfl
  | some cut =>
      obtain ⟨repo, tag⟩ := cut
      obtain ⟨hlast, -⟩ := Text.splitLast?_eq_some_iff.1 hcut
      simp [h repo tag hlast]

/-- A text begins no tag, or it ends in one. -/
theorem isUntagged_or_tagged (last : List Char) :
    IsUntagged last ∨ ∃ repo tag, IsTag tag ∧ last = repo ++ ':' :: tag.toList := by
  cases hcut : Text.splitLast? ':' last with
  | none =>
      refine .inl fun repo tag hlast => absurd ?_ (Text.splitLast?_eq_none_iff.1 hcut)
      simp [hlast]
  | some cut =>
      obtain ⟨repo, tag⟩ := cut
      obtain ⟨rfl, hcolon⟩ := Text.splitLast?_eq_some_iff.1 hcut
      by_cases hslash : '/' ∈ tag
      · left
        intro repo' tag' hlast
        -- The other colon stands no later than the last one, so it has the slash behind it too.
        rcases List.append_eq_append_iff.1 hlast with
          ⟨between, -, htag⟩ | ⟨between, -, htag⟩
        · cases between with
          | nil => exact (List.cons.inj htag).2 ▸ hslash
          | cons c between =>
              obtain ⟨-, rfl⟩ := List.cons.inj htag
              exact absurd (List.mem_append_right _ List.mem_cons_self) hcolon
        · cases between with
          | nil => exact (List.cons.inj htag).2 ▸ hslash
          | cons c between =>
              obtain ⟨-, rfl⟩ := List.cons.inj htag
              exact List.mem_append_right _ (List.mem_cons_of_mem _ hslash)
      · exact .inr ⟨repo, .ofList tag, ⟨by simpa using hslash, by simpa using hcolon⟩,
          by simp⟩

end Tags

/-- Reading by way of the leading segments and what follows them. -/
theorem parse_of_lead {s : String} {host project : Option String} {last : List Char}
    {shape : Shape} (h : Fits host project last shape)
    (hs : s.toList = lead host project shape ++ last) :
    parse s =
      { host, project, repo := String.ofList (splitTag last).1
        tag := ((splitTag last).2.map String.ofList).getD defaultTag
        tagSpelled := (splitTag last).2.isSome, shape } := by
  rw [parse, hs, segments_lead h]

/-- **Every reference that was read is canonical.** -/
theorem isCanonical_parse (s : String) : (parse s).IsCanonical := by
  obtain ⟨host, project, last, shape, hfits, hs⟩ := exists_lead s.toList
  rw [parse_of_lead hfits hs]
  rcases isUntagged_or_tagged last with huntagged | ⟨repo, tag, htag, rfl⟩
  · rw [splitTag_of_isUntagged huntagged]
    exact ⟨by simpa using hfits, .inr ⟨rfl, rfl, by simpa using huntagged⟩⟩
  · rw [splitTag_append repo htag]
    exact ⟨by simpa using hfits.of_append, .inl ⟨rfl, by simpa using htag⟩⟩

/-- **Every canonical reference is read back from its text.** -/
theorem parse_text_of_isCanonical {r : Reference} (h : r.IsCanonical) : parse r.text = r := by
  obtain ⟨host, project, repo, tag, tagSpelled, shape⟩ := r
  obtain ⟨hfits, ⟨rfl, htag⟩ | ⟨rfl, rfl, huntagged⟩⟩ := h
  · have hcolon : '/' ∉ ':' :: tag.toList := by simp [htag.1]
    have htext := parse_of_lead (s := text ⟨host, project, repo, tag, true, shape⟩)
      (hfits.append hcolon) (by simp [text, toList_name])
    rw [htext, splitTag_append repo.toList htag]
    simp
  · have htext := parse_of_lead (s := text ⟨host, project, repo, defaultTag, false, shape⟩)
      hfits (by simp [text, toList_name])
    rw [htext, splitTag_of_isUntagged huntagged]
    simp

theorem isCanonical_withTag {r : Reference} (h : r.IsCanonical) {tag : String} (htag : IsTag tag) :
    (r.withTag tag).IsCanonical :=
  ⟨h.toFits, .inl ⟨rfl, htag⟩⟩

/-- **The tags under which a reference that was read is read back.** -/
theorem parse_text_withTag_iff (s tag : String) :
    parse ((parse s).withTag tag).text = (parse s).withTag tag ↔ IsTag tag := by
  constructor
  · intro h
    have hcanonical := isCanonical_parse ((parse s).withTag tag).text
    rw [h] at hcanonical
    rcases hcanonical.tag with ⟨-, htag⟩ | ⟨hunspelled, -⟩
    · exact htag
    · cases hunspelled
  · intro htag
    exact parse_text_of_isCanonical (isCanonical_withTag (isCanonical_parse s) htag)

/-- **Texts and canonical references are two forms of the same.**  Reading a text and printing what
was read gives the text; printing a reference and reading the text gives the reference exactly if it
is canonical.  So no two texts are read alike, and the canonical references are all that is read. -/
theorem exact_both_ways :
    (∀ s, (parse s).text = s) ∧ (∀ r : Reference, parse r.text = r ↔ r.IsCanonical) ∧
      Function.Injective parse ∧ ∀ r : Reference, (∃ s, parse s = r) ↔ r.IsCanonical := by
  have hback (r : Reference) : parse r.text = r ↔ r.IsCanonical :=
    ⟨fun h => h ▸ isCanonical_parse r.text, parse_text_of_isCanonical⟩
  refine ⟨text_parse, hback, Function.LeftInverse.injective text_parse, fun r => ?_⟩
  constructor
  · rintro ⟨s, rfl⟩
    exact isCanonical_parse s
  · intro h
    exact ⟨r.text, (hback r).2 h⟩

end Reference

end ImageRollout.Image
