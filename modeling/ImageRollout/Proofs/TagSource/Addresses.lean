import Mathlib.Data.List.TakeDrop
import ImageRollout.Image.Reference
import ImageRollout.TagSource.Basic
import ImageRollout.Proofs.Text.Percent

/-!
# Where a request for artifacts leads

The path of a request is put together from the configured prefix and the names of the project and
of the repository, and it is settled before the request is made.  The encoding of a name has no
separator in it, so a name is one segment of the path, unless it is one dot or two dots: dots are
not encoded, so that segment is settled away, alone or with the one in front of it.

* `isHere_percentEncode`, `isUp_percentEncode`: the names whose encodings are dots.
* `settleSegments_artifacts`: the settled path, name by name.
* `toList_requestedAddress`, `pathSegments_of_toList`: the address that is requested, and its path.
* `leadsTo_iff`: when the path that is requested is the prefix with the two names below it.
-/

namespace ImageRollout.TagSource

open Text

section Statement

/-- What a path keeps as it is: visible ASCII characters without those that end a path or a segment
or that a path has to encode. -/
def isPlain (c : Char) : Bool :=
  '!' ≤ c && c ≤ '~' && c ∉ "\"#/<>?\\^`\x7b\x7d".toList

/-- A segment that a path keeps as it is.  It may be empty. -/
structure IsOrdinary (segment : String) : Prop where
  plain : segment.toList.all isPlain = true
  notHere : isHere segment.toList = false
  notUp : isUp segment.toList = false

/-- A host, with or without a port: it ends before the path and before the query. -/
structure IsHost (host : String) : Prop where
  nonempty : host ≠ ""
  whole : (host.toList.all fun c => !isSeparator c && c ≠ '?' && c ≠ '#') = true

/-- The segments of the configured prefix without the slashes at its ends. -/
def Options.prefixSegments (o : Options) : List String :=
  let path := trimEnds '/' o.apiPathPrefix.toList
  if path = [] then [] else (path.splitOn '/').map String.ofList

/-- The segments of an address's path: what stands behind the host and before the query. -/
def pathSegments (address : String) : List String :=
  let behindHost := ((address.toList.dropWhile (· ≠ ':')).drop 3).dropWhile (· ≠ '/')
  (((behindHost.takeWhile (· ≠ '?')).drop 1).splitOn '/').map String.ofList

/-- Whether the address leads to the artifacts of the repository: its path is the prefix, and below
it the project, percent-encoded once, and the repository, percent-encoded twice. -/
def LeadsTo (o : Options) (address project repo : String) : Prop :=
  ∃ P R : String, percentDecode? P = some project ∧
    (percentDecode? R).bind percentDecode? = some repo ∧
    pathSegments address = o.prefixSegments ++ ["projects", P, "repositories", R, "artifacts"]

end Statement

section Names

/-- Whether a segment neither is broken up nor ends the path. -/
def isWhole (s : List Char) : Bool := s.all fun c => !isSeparator c && c ≠ '?'

/-- A segment is whole just if nothing in it ends a segment or the path. -/
theorem isWhole_iff {s : List Char} :
    isWhole s = true ↔ ∀ c ∈ s, isSeparator c = false ∧ c ≠ '?' := by
  simp [isWhole]

/-- The encoding of a name neither is broken up nor ends the path. -/
theorem isWhole_percentEncode (s : String) : isWhole (percentEncode s).toList = true := by
  have hall : ∀ n : Fin 256, isWhole (percentByte (UInt8.ofNat n)) = true := by decide +kernel
  rw [percentEncode, String.toList_ofList, isWhole, List.all_flatMap, List.all_eq_true]
  intro b _
  have hb := hall ⟨b.toNat, b.toNat_lt⟩
  rw [UInt8.ofNat_toNat] at hb
  exact hb

/-- A name is given by the bytes for which its encoding stands. -/
theorem eq_of_percentBytes {s t : String}
    (h : percentBytes (percentEncode s).toList = toUtf8 t) : s = t := by
  have hs := percentDecode?_percentEncode s
  rw [percentDecode?, h, ofUtf8?_toUtf8] at hs
  exact (Option.some.inj hs).symm

/-- **The encoding of a name is a dot only if the name is one.** -/
theorem isHere_percentEncode {s : String} : isHere (percentEncode s).toList = true ↔ s = "." := by
  constructor
  · intro h
    have hdots : ∀ a ∈ dots, percentBytes a = toUtf8 "." := by decide
    exact eq_of_percentBytes (hdots _ (of_decide_eq_true h))
  · rintro rfl
    decide

/-- **The encoding of a name is two dots only if the name is.** -/
theorem isUp_percentEncode {s : String} : isUp (percentEncode s).toList = true ↔ s = ".." := by
  constructor
  · intro h
    have hdots : ∀ a ∈ dots, ∀ b ∈ dots, percentBytes (a ++ b) = toUtf8 ".." := by decide
    obtain ⟨a, ha, hb⟩ := List.any_eq_true.mp h
    obtain ⟨b, hb, heq⟩ := List.any_eq_true.mp hb
    exact eq_of_percentBytes (of_decide_eq_true heq ▸ hdots a ha b hb)
  · rintro rfl
    decide

/-- A name that is encoded once more is a dot, or two, only if it was before. -/
theorem percentEncode_eq_iff (s : String) {dotted : String} (h : percentEncode dotted = dotted) :
    percentEncode s = dotted ↔ s = dotted :=
  ⟨fun hs => percentEncode_injective (hs.trans h.symm), fun hs => hs ▸ h⟩

end Names

section Settling

/-- Settled segments with one more segment, if it is not the last. -/
theorem settleSegments_cons {settled rest : List (List Char)} {s : List Char} (h : rest ≠ []) :
    settleSegments settled (s :: rest) =
      settleSegments
        (if isUp s then settled.drop 1 else if isHere s then settled else s :: settled) rest := by
  rw [settleSegments]
  simp only [List.isEmpty_eq_false_iff.mpr h, Bool.false_and, Bool.false_eq_true, if_false]

/-- Segments without dots stay. -/
theorem settleSegments_append {settled rest : List (List Char)} (hrest : rest ≠ [])
    (front : List (List Char)) (h : ∀ s ∈ front, isHere s = false ∧ isUp s = false) :
    settleSegments settled (front ++ rest) = settleSegments (front.reverse ++ settled) rest := by
  induction front generalizing settled with
  | nil => rfl
  | cons s front ih =>
      obtain ⟨hhere, hup⟩ := h s List.mem_cons_self
      rw [List.cons_append, settleSegments_cons (by simp [hrest]), hup, hhere,
        if_neg Bool.false_ne_true, if_neg Bool.false_ne_true,
        ih fun t ht => h t (List.mem_cons_of_mem _ ht), List.reverse_cons, List.append_assoc,
        List.singleton_append]

/-- What is left of a word and the name behind it. -/
def kept (word name : List Char) : List (List Char) :=
  if isUp name then [] else if isHere name then [word] else [word, name]

/-- A word and the name behind it are settled together. -/
theorem settleSegments_word {settled rest : List (List Char)} (hrest : rest ≠ [])
    {word : List Char} (hhere : isHere word = false) (hup : isUp word = false) (name : List Char) :
    settleSegments settled (word :: name :: rest) =
      settleSegments ((kept word name).reverse ++ settled) rest := by
  rw [settleSegments_cons (by simp), hup, hhere, if_neg Bool.false_ne_true,
    if_neg Bool.false_ne_true, settleSegments_cons hrest, kept]
  split
  · rfl
  · split <;> rfl

/-- **The settled path of a request for artifacts**, name by name. -/
theorem settleSegments_artifacts (front : List (List Char))
    (h : ∀ s ∈ front, isHere s = false ∧ isUp s = false) (project repo : List Char) :
    settleSegments [] (front ++ ["projects".toList, project, "repositories".toList, repo,
        "artifacts".toList]) =
      front ++ (kept "projects".toList project ++
        (kept "repositories".toList repo ++ ["artifacts".toList])) := by
  rw [settleSegments_append (by simp) front h,
    settleSegments_word (by simp) (by decide) (by decide),
    settleSegments_word (by simp) (by decide) (by decide)]
  have hlast (settled : List (List Char)) :
      settleSegments settled ["artifacts".toList] = settled.reverse ++ ["artifacts".toList] :=
    List.reverse_cons
  rw [hlast]
  simp

/-- A word and a name both stay unless the name is dots. -/
theorem kept_eq_pair {word name : List Char} (hhere : isHere name = false)
    (hup : isUp name = false) : kept word name = [word, name] := by
  rw [kept, hup, hhere, if_neg Bool.false_ne_true, if_neg Bool.false_ne_true]

/-- No more than the two segments stay. -/
theorem length_kept_le (word name : List Char) : (kept word name).length ≤ 2 := by
  rw [kept]
  grind

/-- Less than the two stays if the name is dots. -/
theorem not_dots_of_length_kept {word name : List Char} (h : (kept word name).length = 2) :
    isHere name = false ∧ isUp name = false := by
  rw [kept] at h
  grind

/-- No others stay. -/
theorem mem_kept {word name s : List Char} (h : s ∈ kept word name) : s = word ∨ s = name := by
  rw [kept] at h
  grind

end Settling

section Paths

variable {stops : Char → Bool} {parts : List (List Char)}

/-- Segments with a slash in front of each. -/
def written (parts : List (List Char)) : List Char := parts.flatMap ('/' :: ·)

theorem written_nil : written [] = [] :=
  rfl

theorem written_cons (s : List Char) (parts : List (List Char)) :
    written (s :: parts) = '/' :: (s ++ written parts) :=
  rfl

/-- Segments can be written in two parts. -/
theorem written_append (front back : List (List Char)) :
    written (front ++ back) = written front ++ written back :=
  List.flatMap_append

/-- A text is what is written for its segments. -/
theorem written_splitOn (s : List Char) : written (s.splitOn '/') = '/' :: s := by
  have hjoined (first : List Char) (parts : List (List Char)) :
      written (first :: parts) = '/' :: ['/'].intercalate (first :: parts) := by
    induction parts generalizing first with
    | nil => simp [written]
    | cons second parts ih =>
        rw [List.intercalate_cons_cons, ← List.singleton_append (l := second :: parts),
          List.singleton_append, List.append_assoc, List.singleton_append, ← ih second]
        rfl
  obtain ⟨first, parts, hparts⟩ := List.exists_cons_of_ne_nil (List.splitOn_ne_nil '/' s)
  rw [hparts, hjoined, ← hparts, List.intercalate_splitOn]

/-- The segments are read from what is written for them. -/
theorem splitOnP_written (hstops : stops '/' = true) (hne : parts ≠ [])
    (hparts : ∀ s ∈ parts, ∀ c ∈ s, stops c = false) :
    ((written parts).drop 1).splitOnP stops = parts := by
  induction parts with
  | nil => exact absurd rfl hne
  | cons s parts ih =>
      have hs : s.splitOnP stops = [s] :=
        List.splitOnP_eq_singleton (hparts s List.mem_cons_self)
      cases parts with
      | nil => simpa [written] using hs
      | cons t parts =>
          have htail := ih (List.cons_ne_nil _ _) fun r hr => hparts r (List.mem_cons_of_mem _ hr)
          change (s ++ '/' :: ((written (t :: parts)).drop 1)).splitOnP stops = s :: t :: parts
          rw [List.splitOnP_append_cons _ _ hstops, hs, htail, List.singleton_append]

/-- A text is cut where the first character stands that does not pass. -/
theorem takeWhile_cut {passes : Char → Bool} {c : Char} {front : List Char}
    (h : ∀ a ∈ front, passes a = true) (hc : passes c = false) (rest : List Char) :
    (front ++ c :: rest).takeWhile passes = front := by
  rw [List.takeWhile_append_of_pos h, List.takeWhile_cons_of_neg (by simp [hc]), List.append_nil]

/-- What is left of the text begins where it was cut. -/
theorem dropWhile_cut {passes : Char → Bool} {c : Char} {front : List Char}
    (h : ∀ a ∈ front, passes a = true) (hc : passes c = false) (rest : List Char) :
    (front ++ c :: rest).dropWhile passes = c :: rest := by
  rw [List.dropWhile_append_of_pos h, List.dropWhile_cons_of_neg (by simp [hc])]

/-- What is requested: the host as it is, and the segments of the path settled. -/
theorem toList_requestedAddress {protocol behind : String} {host : List Char}
    (hhost : host ≠ []) (hwhole : ∀ c ∈ host, isSeparator c = false) (hne : parts ≠ [])
    (hparts : ∀ s ∈ parts, ∀ c ∈ s, isSeparator c = false)
    (hbehind : behind.toList = host ++ written parts) :
    (requestedAddress protocol behind).toList =
      protocol.toList ++ "://".toList ++ host ++ written (settleSegments [] parts) := by
  obtain ⟨first, host, rfl⟩ := List.exists_cons_of_ne_nil hhost
  obtain ⟨s, parts, rfl⟩ := List.exists_cons_of_ne_nil hne
  have hfront : behind.toList.dropWhile isSeparator = behind.toList := by
    rw [hbehind, List.cons_append, List.dropWhile_cons_of_neg]
    simp [hwhole first List.mem_cons_self]
  have hspan : behind.toList.span (fun c => !isSeparator c) =
      (first :: host, written (s :: parts)) := by
    have hends (c : Char) (hc : c ∈ first :: host) : (!isSeparator c) = true := by
      rw [hwhole c hc]
      rfl
    rw [hbehind, List.span_eq_takeWhile_dropWhile, written_cons, takeWhile_cut hends (by decide),
      dropWhile_cut hends (by decide)]
  have hsegments : segments ((written (s :: parts)).drop 1) = s :: parts :=
    splitOnP_written (by decide) hne hparts
  simp only [requestedAddress, hfront, hspan, hsegments, String.toList_append,
    String.toList_ofList, List.append_assoc]
  rfl

/-- The path of an address is read behind its host. -/
theorem pathSegments_of_toList {address : String} {protocol host query : List Char}
    (hprotocol : ':' ∉ protocol) (hhost : '/' ∉ host) (hne : parts ≠ [])
    (hparts : ∀ s ∈ parts, ∀ c ∈ s, c ≠ '/' ∧ c ≠ '?')
    (haddress : address.toList =
      protocol ++ "://".toList ++ host ++ written parts ++ '?' :: query) :
    pathSegments address = parts.map String.ofList := by
  have hhostward : address.toList.dropWhile (· ≠ ':') =
      "://".toList ++ (host ++ (written parts ++ '?' :: query)) := by
    have hpasses (c : Char) (hc : c ∈ protocol) : decide (c ≠ ':') = true :=
      decide_eq_true fun h => hprotocol (h ▸ hc)
    simp only [haddress, List.append_assoc]
    exact dropWhile_cut (c := ':') hpasses (by decide) _
  have hbehind : ((address.toList.dropWhile (· ≠ ':')).drop 3).dropWhile (· ≠ '/') =
      written parts ++ '?' :: query := by
    have hpasses (c : Char) (hc : c ∈ host) : decide (c ≠ '/') = true :=
      decide_eq_true fun h => hhost (h ▸ hc)
    obtain ⟨s, parts, rfl⟩ := List.exists_cons_of_ne_nil hne
    rw [hhostward]
    exact dropWhile_cut (c := '/') hpasses (by decide) _
  have hpath : (written parts ++ '?' :: query).takeWhile (· ≠ '?') = written parts := by
    refine takeWhile_cut (fun c hc => decide_eq_true ?_) (by decide) _
    obtain ⟨s, hs, hc⟩ := List.mem_flatMap.mp hc
    rcases List.mem_cons.mp hc with rfl | hc
    · decide
    · exact (hparts s hs c hc).2
  have hread : ((written parts).drop 1).splitOn '/' = parts :=
    splitOnP_written (by decide) hne fun s hs c hc => beq_false_of_ne (hparts s hs c hc).1
  rw [pathSegments, hbehind, hpath, hread]

end Paths

section Requests

variable {o : Options}

/-- Nothing in a host ends a segment. -/
theorem IsHost.not_isSeparator {host : String} (h : IsHost host) {c : Char}
    (hc : c ∈ host.toList) : isSeparator c = false := by
  have hwhole := List.all_eq_true.mp h.whole c hc
  rw [Bool.and_eq_true, Bool.and_eq_true] at hwhole
  simpa using hwhole.1.1

/-- The segments of the prefix as they are written into the address; there is always one. -/
def Options.front (o : Options) : List (List Char) :=
  (trimEnds '/' o.apiPathPrefix.toList).splitOn '/'

/-- An empty prefix is written as one empty segment. -/
theorem front_cases (o : Options) :
    (o.prefixSegments = [] ∧ o.front = [[]]) ∨
      (o.prefixSegments ≠ [] ∧ o.prefixSegments = o.front.map String.ofList) := by
  rw [Options.prefixSegments, Options.front]
  by_cases h : trimEnds '/' o.apiPathPrefix.toList = []
  · exact .inl ⟨if_pos h, by rw [h]; rfl⟩
  · refine .inr ⟨?_, if_neg h⟩
    rw [if_neg h, ne_eq, List.map_eq_nil_iff]
    exact List.splitOn_ne_nil _ _

/-- Segments in front of the project are ordinary if the prefix has only such. -/
theorem isOrdinary_of_mem_front (hordinary : ∀ s ∈ o.prefixSegments, IsOrdinary s)
    {s : List Char} (hs : s ∈ o.front) : IsOrdinary (String.ofList s) := by
  obtain ⟨-, hfront⟩ | ⟨-, hfront⟩ := front_cases o
  · rw [hfront, List.mem_singleton] at hs
    subst hs
    exact ⟨rfl, rfl, rfl⟩
  · exact hordinary _ (hfront ▸ List.mem_map_of_mem hs)

/-- A plain character neither separates segments nor ends the path. -/
theorem not_isSeparator_of_isPlain {c : Char} (h : isPlain c = true) :
    isSeparator c = false ∧ c ≠ '?' := by
  have hne {a : Char} (ha : isPlain a = false) : c ≠ a := by
    rintro rfl
    exact Bool.false_ne_true (ha.symm.trans h)
  have hslash : isPlain '/' = false := by decide
  have hbackslash : isPlain '\\' = false := by decide
  have hquestion : isPlain '?' = false := by decide
  rw [isSeparator, decide_eq_false (hne hslash), decide_eq_false (hne hbackslash)]
  exact ⟨rfl, hne hquestion⟩

/-- An ordinary segment is whole. -/
theorem isWhole_of_isOrdinary {s : List Char} (h : IsOrdinary (String.ofList s)) :
    isWhole s = true := by
  have hplain := h.plain
  rw [String.toList_ofList, List.all_eq_true] at hplain
  exact isWhole_iff.mpr fun c hc => not_isSeparator_of_isPlain (hplain c hc)

/-- The segments that the address has below the prefix as it is written down. -/
def below (project repo : String) : List (List Char) :=
  ["projects".toList, (percentEncode project).toList, "repositories".toList,
    (percentEncode (percentEncode repo)).toList, "artifacts".toList]

/-- What is left of them in the address that is requested. -/
def settledBelow (project repo : String) : List (List Char) :=
  kept "projects".toList (percentEncode project).toList ++
    (kept "repositories".toList (percentEncode (percentEncode repo)).toList ++
      ["artifacts".toList])

/-- What is left below the prefix was written below it. -/
theorem mem_below_of_mem_settledBelow {project repo : String} {s : List Char}
    (h : s ∈ settledBelow project repo) : s ∈ below project repo := by
  rw [settledBelow, List.mem_append, List.mem_append] at h
  simp only [below, List.mem_cons, List.not_mem_nil, or_false]
  rcases h with h | h | h
  · exact (mem_kept h).elim .inl fun h => .inr (.inl h)
  · exact (mem_kept h).elim (fun h => .inr (.inr (.inl h))) fun h => .inr (.inr (.inr (.inl h)))
  · exact .inr (.inr (.inr (.inr (List.mem_singleton.mp h))))

/-- No segment of the address is broken up or ends the path. -/
theorem isWhole_of_mem (hordinary : ∀ s ∈ o.prefixSegments, IsOrdinary s)
    (project repo : String) : ∀ s ∈ o.front ++ below project repo, isWhole s = true := by
  have hbelow : ∀ s ∈ below project repo, isWhole s = true := by
    simp only [below, List.forall_mem_cons]
    exact ⟨by decide, isWhole_percentEncode _, by decide, isWhole_percentEncode _, by decide,
      fun _ h => nomatch h⟩
  intro s hs
  rcases List.mem_append.mp hs with hs | hs
  · exact isWhole_of_isOrdinary (isOrdinary_of_mem_front hordinary hs)
  · exact hbelow s hs

/-- The address as it is written down, segment by segment. -/
theorem toList_artifactsAddress (o : Options) (project repo : String) :
    (artifactsAddress o.base project repo).toList =
      o.host.toList ++ written (o.front ++ below project repo) := by
  have hprojects : "/projects/".toList = '/' :: ("projects".toList ++ ['/']) := by decide
  have hrepositories : "/repositories/".toList = '/' :: ("repositories".toList ++ ['/']) := by
    decide
  have hartifacts : "/artifacts".toList = '/' :: "artifacts".toList := by decide
  have hslash : "/".toList = ['/'] := by decide
  have htrimmed : (String.ofList (trimEnds '/' o.apiPathPrefix.toList)).toList =
      trimEnds '/' o.apiPathPrefix.toList := String.toList_ofList
  rw [written_append, Options.front, written_splitOn]
  simp only [artifactsAddress, Options.base, below, String.toList_append, htrimmed, hprojects,
    hrepositories, hartifacts, hslash, written_cons, written_nil, List.append_assoc,
    List.cons_append, List.nil_append, List.append_nil]

/-- **The path that is requested**: the prefix, and what is left of the two names. -/
theorem pathSegments_artifactsRequest (hhost : IsHost o.host)
    (hprotocol : o.protocol = "http" ∨ o.protocol = "https")
    (hordinary : ∀ s ∈ o.prefixSegments, IsOrdinary s) (project repo : String) :
    pathSegments (artifactsRequest o.protocol o.base project repo).address =
      (o.front ++ settledBelow project repo).map String.ofList := by
  have hwhole (s : List Char) (hs : s ∈ o.front ++ below project repo) :
      ∀ c ∈ s, isSeparator c = false ∧ c ≠ '?' :=
    isWhole_iff.mp (isWhole_of_mem hordinary project repo s hs)
  have hsettled : settleSegments [] (o.front ++ below project repo) =
      o.front ++ settledBelow project repo := by
    refine settleSegments_artifacts o.front (fun s hs => ?_) _ _
    have hs := isOrdinary_of_mem_front hordinary hs
    have hhere := hs.notHere
    have hup := hs.notUp
    rw [String.toList_ofList] at hhere hup
    exact ⟨hhere, hup⟩
  have hrequested : (requestedAddress o.protocol (artifactsAddress o.base project repo)).toList =
      o.protocol.toList ++ "://".toList ++ o.host.toList ++
        written (o.front ++ settledBelow project repo) := by
    rw [← hsettled]
    refine toList_requestedAddress ?_ (fun c hc => hhost.not_isSeparator hc) (by simp [below])
      (fun s hs c hc => (hwhole s hs c hc).1) (toList_artifactsAddress o project repo)
    exact fun h => hhost.nonempty (String.toList_eq_nil_iff.mp h)
  have hcolon : ':' ∉ o.protocol.toList := by
    rcases hprotocol with h | h <;> rw [h] <;> decide
  have hslash : '/' ∉ o.host.toList := fun h =>
    absurd (hhost.not_isSeparator h) (by decide)
  have haddress : (artifactsRequest o.protocol o.base project repo).address.toList =
      o.protocol.toList ++ "://".toList ++ o.host.toList ++
        written (o.front ++ settledBelow project repo) ++ '?' :: artifactsQuery.toList := by
    have hquestion : "?".toList = ['?'] := by decide
    rw [artifactsRequest]
    simp only [String.toList_append, hrequested, hquestion, List.append_assoc,
      List.singleton_append]
  refine pathSegments_of_toList hcolon hslash (by simp [settledBelow]) (fun s hs c hc => ?_)
    haddress
  have hs : s ∈ o.front ++ below project repo :=
    (List.mem_append.mp hs).elim (List.mem_append_left _)
      fun hs => List.mem_append_right _ (mem_below_of_mem_settledBelow hs)
  obtain ⟨hsep, hquery⟩ := hwhole s hs c hc
  refine ⟨?_, hquery⟩
  rintro rfl
  exact absurd hsep (by decide)

/-- Only a source for the host itself makes requests. -/
theorem ofOptions_eq_harbor {source : TagSource} (hsource : ofOptions o = .ok source)
    (hmock : o.mock = false) (hhost : o.host ≠ "") :
    source = .harbor o.host o.protocol o.base ∧
      (o.protocol = "http" ∨ o.protocol = "https") := by
  rw [ofOptions, Options.validate] at hsource
  split at hsource
  next => cases hsource
  next hvalid =>
    rw [if_neg (by simp [hmock]), if_neg hhost] at hsource
    refine ⟨(Except.ok.inj hsource).symm, ?_⟩
    by_contra hprotocol
    rw [if_neg hprotocol] at hvalid
    cases hvalid

/-- A name stays a segment of its own unless it is dots. -/
theorem not_dots_iff {name : String} :
    isHere (percentEncode name).toList = false ∧ isUp (percentEncode name).toList = false ↔
      name ∉ [".", ".."] := by
  rw [← Bool.not_eq_true, ← Bool.not_eq_true, isHere_percentEncode, isUp_percentEncode]
  simp

/-- Encoding makes no dot segment and hides none. -/
theorem percentEncode_mem_dots_iff {name : String} :
    percentEncode name ∉ [".", ".."] ↔ name ∉ [".", ".."] := by
  have hhere : percentEncode "." = "." := by decide
  have hup : percentEncode ".." = ".." := by decide
  simp only [List.mem_cons, List.not_mem_nil, or_false, percentEncode_eq_iff name hhere,
    percentEncode_eq_iff name hup]

/-- Names without dots are read back from the path. -/
theorem leadsTo_of_settledBelow {address project repo : String}
    (hpath : pathSegments address = (o.front ++ settledBelow project repo).map String.ofList)
    (hsegments : o.prefixSegments ≠ []) (hproject : project ∉ [".", ".."])
    (hrepo : repo ∉ [".", ".."]) : LeadsTo o address project repo := by
  obtain ⟨hproject, hproject'⟩ := not_dots_iff.mpr hproject
  obtain ⟨hrepo, hrepo'⟩ := not_dots_iff.mpr (percentEncode_mem_dots_iff.mpr hrepo)
  have hfront : o.prefixSegments = o.front.map String.ofList :=
    (front_cases o).elim (fun h => absurd h.1 hsegments) And.right
  refine ⟨percentEncode project, percentEncode (percentEncode repo),
    percentDecode?_percentEncode _, ?_, ?_⟩
  · rw [percentDecode?_percentEncode, Option.bind_some, percentDecode?_percentEncode]
  · rw [hpath, hfront, List.map_append, settledBelow, kept_eq_pair hproject hproject',
      kept_eq_pair hrepo hrepo']
    simp only [List.map_cons, List.map_nil, String.ofList_toList, List.cons_append,
      List.nil_append]

/-- Names are read back from the path only if they are not dots. -/
theorem LeadsTo.of_settledBelow {address project repo : String}
    (hpath : pathSegments address = (o.front ++ settledBelow project repo).map String.ofList)
    (h : LeadsTo o address project repo) :
    o.prefixSegments ≠ [] ∧ project ∉ [".", ".."] ∧ repo ∉ [".", ".."] := by
  obtain ⟨P, R, -, -, hP⟩ := h
  rw [hpath, List.map_append] at hP
  obtain ⟨hempty, hfront⟩ | ⟨hsegments, hfront⟩ := front_cases o
  · -- The path starts with an empty segment, and not with a word.
    rw [hempty, hfront] at hP
    exact absurd (List.cons.inj hP).1 (by decide)
  · -- Behind the prefix there are five segments only if both names were kept.
    rw [hfront] at hP
    have hlength := congrArg List.length (List.append_cancel_left hP)
    have hproject := length_kept_le "projects".toList (percentEncode project).toList
    have hrepo := length_kept_le "repositories".toList (percentEncode (percentEncode repo)).toList
    simp only [settledBelow, List.length_map, List.length_append, List.length_cons,
      List.length_nil] at hlength
    have hproject : (kept "projects".toList (percentEncode project).toList).length = 2 := by omega
    have hrepo : (kept "repositories".toList
        (percentEncode (percentEncode repo)).toList).length = 2 := by omega
    exact ⟨hsegments, not_dots_iff.mp (not_dots_of_length_kept hproject),
      percentEncode_mem_dots_iff.mp (not_dots_iff.mp (not_dots_of_length_kept hrepo))⟩

/-- **A request leads below the prefix unless a name is dots.**  Whatever the names of the project
and of the repository are, the one request that is made for them leads to the repository's artifacts
exactly if the prefix is not empty and neither name is one dot or two dots. -/
theorem leadsTo_iff {source : TagSource} (hsource : ofOptions o = .ok source)
    (hmock : o.mock = false) (hhost : IsHost o.host)
    (hordinary : ∀ s ∈ o.prefixSegments, IsOrdinary s) (project repo : String) :
    let request := artifactsRequest o.protocol o.base project repo
    (∀ transport : Transport, source.latestTag transport o.host project repo =
        source.latestTag (fun _ => transport request) o.host project repo) ∧
      (LeadsTo o request.address project repo ↔
        o.prefixSegments ≠ [] ∧ project ∉ [".", ".."] ∧ repo ∉ [".", ".."]) := by
  obtain ⟨rfl, hprotocol⟩ := ofOptions_eq_harbor hsource hmock hhost.nonempty
  have hpath := pathSegments_artifactsRequest hhost hprotocol hordinary project repo
  exact ⟨fun _ => rfl, fun h => h.of_settledBelow hpath,
    fun ⟨hne, hproject, hrepo⟩ => leadsTo_of_settledBelow hpath hne hproject hrepo⟩

/-- The prefix that is used by default is ordinary. -/
theorem isOrdinary_default : ∀ s ∈ ({} : Options).prefixSegments, IsOrdinary s := by
  have hsegments : ({} : Options).prefixSegments = ["api", "v2.0"] := by decide
  simp only [hsegments, List.forall_mem_cons]
  exact ⟨⟨by decide, by decide, by decide⟩, ⟨by decide, by decide, by decide⟩,
    fun _ h => nomatch h⟩

/-- A repository with a slash in its name is found below its project. -/
theorem leadsTo_nested :
    let o : Options := { host := "harbor.example.com" }
    let image := Image.Reference.parse "harbor.example.com/team/app/web"
    ∃ source, ofOptions o = .ok source ∧ o.mock = false ∧ IsHost o.host ∧
      (∀ s ∈ o.prefixSegments, IsOrdinary s) ∧ image.projectOrEmpty = "team" ∧
      image.repo = "app/web" ∧
      LeadsTo o (artifactsRequest o.protocol o.base image.projectOrEmpty image.repo).address
        "team" "app/web" := by
  intro o image
  have hproject : image.projectOrEmpty = "team" := by decide
  have hrepo : image.repo = "app/web" := by decide
  have hhost : IsHost o.host := ⟨by decide, by decide⟩
  refine ⟨_, rfl, rfl, hhost, isOrdinary_default, hproject, hrepo, ?_⟩
  rw [hproject, hrepo]
  exact (leadsTo_iff rfl rfl hhost isOrdinary_default "team" "app/web").2.mpr
    ⟨by decide, by decide, by decide⟩

/-- **Images with dots for a name, and any image below an empty prefix, lead elsewhere.** -/
theorem leads_elsewhere :
    let o : Options := { host := "harbor.example.com" }
    let address := fun (o : Options) (image : Image.Reference) =>
      (artifactsRequest o.protocol o.base image.projectOrEmpty image.repo).address
    let leads := fun (o : Options) (image : Image.Reference) =>
      LeadsTo o (address o image) image.projectOrEmpty image.repo
    let above := Image.Reference.parse "harbor.example.com/team/.."
    let aside := Image.Reference.parse "harbor.example.com/../app"
    let plain := Image.Reference.parse "harbor.example.com/team/app"
    let bare := { o with apiPathPrefix := "" }
    (IsHost o.host ∧ (∀ s ∈ o.prefixSegments, IsOrdinary s) ∧ bare.prefixSegments = []) ∧
      (pathSegments (address o above) = ["api", "v2.0", "projects", "team", "artifacts"] ∧
        ¬ leads o above) ∧
      (pathSegments (address o aside) =
          ["api", "v2.0", "repositories", "app", "artifacts"] ∧ ¬ leads o aside) ∧
      (pathSegments (address bare plain) =
          ["", "projects", "team", "repositories", "app", "artifacts"] ∧
          ¬ leads bare plain) := by
  intro o address leads above aside plain bare
  have habove : pathSegments (address o above) =
      ["api", "v2.0", "projects", "team", "artifacts"] := by decide +kernel
  have haside : pathSegments (address o aside) =
      ["api", "v2.0", "repositories", "app", "artifacts"] := by decide +kernel
  have hplain : pathSegments (address bare plain) =
      ["", "projects", "team", "repositories", "app", "artifacts"] := by decide +kernel
  have hsegments : o.prefixSegments = ["api", "v2.0"] := by decide
  have hbare : bare.prefixSegments = [] := by decide
  refine ⟨⟨⟨by decide, by decide⟩, isOrdinary_default, hbare⟩,
    ⟨habove, ?_⟩, ⟨haside, ?_⟩, ⟨hplain, ?_⟩⟩
  · rintro ⟨P, R, -, -, hpath⟩
    simp [habove, hsegments] at hpath
  · rintro ⟨P, R, -, -, hpath⟩
    simp [haside, hsegments] at hpath
  · rintro ⟨P, R, -, -, hpath⟩
    simp [hplain, hbare] at hpath

end Requests

end ImageRollout.TagSource
