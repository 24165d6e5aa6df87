import Mathlib.Data.List.Induction
import ImageRollout.ConfigMaps.Versions
import ImageRollout.Proofs.Sequences

/-!
# Changes of config maps, read off the history

Whether a config map has changed is decided from three fields: the versions seen so far, the names
in the list that is under way, and whether a list was ever complete.  This module says the same of
the history alone.  A history *shows* a config map when it lists or applies it.  It *forgets* a name
when it deletes the name, or when it ends a list that leaves the name out.

* `lastShown_concat`, `leavesOut_concat`: one more event, seen from the history.
* `follows_observe`, `follows_follow`: the three fields say of every history what it says itself.
* `filter_reports`: between two losses of a name, its reports are its changes of version.
* `changed_iff_last_shown_otherwise`: which events report a change.
-/

namespace ImageRollout.Watch.Event

variable {α : Type}

/-- The object that the event shows to be there. -/
def shown? : Event α → Option α
  | listed a | applied a => some a
  | listing | listEnd | deleted _ => none

end ImageRollout.Watch.Event

namespace ImageRollout.ConfigMaps.Versions

open Kubernetes Watch

/-- The versions after a run of events. -/
def follow (es : List (Event ConfigMap)) (v : Versions) : Versions :=
  es.foldl (fun v e => (v.observe e).1) v

/-- The config maps that a run of events shows to have changed, in order. -/
def reports : List (Event ConfigMap) → Versions → List ConfigMap
  | [], _ => []
  | e :: rest, v => (v.observe e).2.toList ++ reports rest (v.observe e).1

/-- A history in which a list is under way, and what it holds since that list began. -/
def UnderWay (past during : List (Event ConfigMap)) : Prop :=
  (∃ before, past = before ++ .listing :: during) ∧ ∀ e ∈ during, e.object?.isSome

/-- A history in which a list is under way that has left a name out so far. -/
def LeavesOut (past : List (Event ConfigMap)) (name : String) : Prop :=
  ∃ during, UnderWay past during ∧ ∀ c, .listed c ∈ during → c.name ≠ name

/-- An event after a history makes a name forgotten: it deletes the name, or it ends a list that
leaves the name out. -/
def Forgets (past : List (Event ConfigMap)) (name : String) : Event ConfigMap → Prop
  | .deleted c => c.name = name
  | .listEnd => LeavesOut past name
  | .listing | .listed _ | .applied _ => False

/-- No event of a run that goes on from a history makes a name forgotten. -/
def Keeps (past : List (Event ConfigMap)) (name : String) : List (Event ConfigMap) → Prop
  | [] => True
  | e :: rest => ¬ Forgets past name e ∧ Keeps (past ++ [e]) name rest

/-- A config map is what a history has last shown under its name, which it has not forgotten
since. -/
def LastShown (past : List (Event ConfigMap)) (c : ConfigMap) : Prop :=
  ∃ before e after, past = before ++ e :: after ∧ e.shown? = some c ∧
    (∀ e' ∈ after, ∀ c', e'.shown? = some c' → c'.name ≠ c.name) ∧
    Keeps (before ++ [e]) c.name after

/-- The config maps of a sequence whose version is not that of the one before. -/
def changes (version : Option String) : List ConfigMap → List ConfigMap
  | [] => []
  | c :: rest =>
    if c.version = version then changes version rest else c :: changes c.version rest

section History

variable {past : List (Event ConfigMap)} {e : Event ConfigMap}

theorem keeps_concat {name : String} {es : List (Event ConfigMap)} :
    Keeps past name (es ++ [e]) ↔ Keeps past name es ∧ ¬ Forgets (past ++ es) name e := by
  induction es generalizing past with
  | nil => simp [Keeps]
  | cons e' rest ih => simp [Keeps, ih, and_assoc]

/-- What is last shown once one more event has come. -/
theorem lastShown_concat {c : ConfigMap} :
    LastShown (past ++ [e]) c ↔
      e.shown? = some c ∨
        LastShown past c ∧ (∀ c', e.shown? = some c' → c'.name ≠ c.name) ∧
          ¬ Forgets past c.name e := by
  constructor
  · rintro ⟨before, shower, after, hpast, hshown, hlast, hkept⟩
    rcases split_concat hpast with ⟨-, rfl, -⟩ | ⟨others, rfl, rfl⟩
    · exact .inl hshown
    · obtain ⟨hkept, hstays⟩ := keeps_concat.1 hkept
      refine .inr ⟨⟨before, shower, others, rfl, hshown, ?_, hkept⟩, ?_, ?_⟩
      · intro e' he'
        exact hlast e' (by simp [he'])
      · exact hlast e (by simp)
      · simpa using hstays
  · rintro (hshown | ⟨⟨before, shower, after, rfl, hshown, hlast, hkept⟩, hother, hstays⟩)
    · exact ⟨past, e, [], rfl, hshown, by simp, trivial⟩
    · refine ⟨before, shower, after ++ [e], by simp, hshown, ?_,
        keeps_concat.2 ⟨hkept, ?_⟩⟩
      · intro e' he'
        rcases List.mem_append.1 he' with hmem | hmem
        · exact hlast e' hmem
        · rw [List.mem_singleton.1 hmem]
          exact hother
      · simpa using hstays

/-- What a list holds once one more object was reported. -/
theorem underWay_concat {during : List (Event ConfigMap)} (he : e.object?.isSome) :
    UnderWay (past ++ [e]) during ↔
      ∃ earlier, during = earlier ++ [e] ∧ UnderWay past earlier := by
  constructor
  · rintro ⟨⟨before, hpast⟩, hobjects⟩
    rcases split_concat hpast with ⟨-, rfl, -⟩ | ⟨earlier, rfl, rfl⟩
    · cases he
    · exact ⟨earlier, rfl, ⟨before, rfl⟩, fun e' he' => hobjects e' (by simp [he'])⟩
  · rintro ⟨earlier, rfl, ⟨before, rfl⟩, hobjects⟩
    refine ⟨⟨before, by simp⟩, fun e' he' => ?_⟩
    rcases List.mem_append.1 he' with hmem | hmem
    · exact hobjects e' hmem
    · rw [List.mem_singleton.1 hmem]
      exact he

/-- A list that has just begun leaves every name out. -/
theorem leavesOut_listing (name : String) : LeavesOut (past ++ [.listing]) name :=
  ⟨[], ⟨⟨past, rfl⟩, by simp⟩, by simp⟩

/-- No list is under way once one has ended. -/
theorem not_leavesOut_listEnd (name : String) : ¬ LeavesOut (past ++ [.listEnd]) name := by
  rintro ⟨during, ⟨⟨before, hpast⟩, hobjects⟩, -⟩
  rcases split_concat hpast with ⟨-, hend, -⟩ | ⟨earlier, rfl, -⟩
  · cases hend
  · have hobject := hobjects .listEnd (by simp)
    cases hobject

/-- What a list leaves out once one more object was reported. -/
theorem leavesOut_concat {name : String} (he : e.object?.isSome) :
    LeavesOut (past ++ [e]) name ↔
      LeavesOut past name ∧ ∀ c, e = .listed c → c.name ≠ name := by
  constructor
  · rintro ⟨during, hduring, hout⟩
    obtain ⟨earlier, rfl, hearlier⟩ := (underWay_concat he).1 hduring
    refine ⟨⟨earlier, hearlier, fun c hc => hout c (by simp [hc])⟩, ?_⟩
    rintro c rfl
    exact hout c (by simp)
  · rintro ⟨⟨earlier, hearlier, hout⟩, hlast⟩
    refine ⟨earlier ++ [e], (underWay_concat he).2 ⟨earlier, rfl, hearlier⟩, fun c hc => ?_⟩
    rcases List.mem_append.1 hc with hmem | hmem
    · exact hout c hmem
    · exact hlast c (List.mem_singleton.1 hmem).symm

end History

/-- What an event leaves of the version that was known of a name. -/
def knownAfter (v : Versions) (name : String) : Event ConfigMap → Option (Option String)
  | .listing => v.known.lookup name
  | .listed c | .applied c => if name = c.name then some c.version else v.known.lookup name
  | .listEnd => if v.relisted.all (name ∈ ·) then v.known.lookup name else none
  | .deleted c => if name = c.name then none else v.known.lookup name

theorem lookup_known_observe (v : Versions) (e : Event ConfigMap) (name : String) :
    List.lookup name (v.observe e).1.known = v.knownAfter name e := by
  cases e with
  | listing => rfl
  | listed c => exact Table.lookup_insert c.name name c.version v.known
  | applied c => exact Table.lookup_insert c.name name c.version v.known
  | deleted c => exact Table.lookup_erase c.name name v.known
  | listEnd =>
      cases hlist : v.relisted with
      | none => simp [observe, knownAfter, hlist]
      | some names =>
          have hkept := Table.lookup_filter (fun n => decide (n ∈ names)) name v.known
          simpa [observe, knownAfter, hlist] using hkept

/-- What an event reports, read off the fields. -/
theorem observe_eq_some_iff (v : Versions) (e : Event ConfigMap) (c : ConfigMap) :
    (v.observe e).2 = some c ↔
      (e = .applied c ∨ e = .listed c ∧ v.synced = true) ∧
        ∃ previous, List.lookup c.name v.known = some previous ∧ previous ≠ c.version := by
  have hrecord (v : Versions) (c : ConfigMap) : (v.record c).2 = true ↔
      ∃ previous, List.lookup c.name v.known = some previous ∧ previous ≠ c.version := by
    cases hknown : List.lookup c.name v.known <;> simp [record, hknown]
  cases e with
  | listing | listEnd | deleted => simp [observe]
  | applied d =>
      have hreport : (v.observe (.applied d)).2 = if (v.record d).2 then some d else none := rfl
      rw [hreport, Option.ite_none_right_eq_some, hrecord]
      grind
  | listed d =>
      have hreport : (v.observe (.listed d)).2 =
          if (v.synced && (v.record d).2) = true then some d else none := rfl
      rw [hreport, Option.ite_none_right_eq_some, Bool.and_eq_true, hrecord]
      grind

/-- The three fields say of a history what it says itself. -/
structure Follows (past : List (Event ConfigMap)) (v : Versions) : Prop where
  known : ∀ name version, List.lookup name v.known = some version ↔
    ∃ c, LastShown past c ∧ c.name = name ∧ c.version = version
  relisted : ∀ name, v.relisted.all (name ∈ ·) = false ↔ LeavesOut past name
  synced : v.synced = true ↔ .listEnd ∈ past

theorem follows_empty : Follows [] {} where
  known := by simp [LastShown]
  relisted := by simp [LeavesOut, UnderWay]
  synced := by simp

/-- Every event keeps the fields in step with the history. -/
theorem follows_observe {past : List (Event ConfigMap)} {v : Versions} (h : Follows past v)
    (e : Event ConfigMap) : Follows (past ++ [e]) (v.observe e).1 := by
  refine ⟨fun name version => ?_, fun name => ?_, ?_⟩
  · rw [lookup_known_observe]
    have hknown := h.known name version
    -- What shows a config map decides for the name of that one; anything else keeps or forgets.
    cases e with
    | listing => simpa [knownAfter, lastShown_concat, Event.shown?, Forgets] using hknown
    | listed c | applied c =>
        simp only [knownAfter, lastShown_concat, Event.shown?, Option.some.injEq, Forgets]
        by_cases hname : name = c.name
        · rw [if_pos hname]
          grind
        · rw [if_neg hname, hknown]
          grind
    | deleted c =>
        simp only [knownAfter, lastShown_concat, Event.shown?, Forgets]
        by_cases hname : name = c.name
        · rw [if_pos hname]
          grind
        · rw [if_neg hname, hknown]
          grind
    | listEnd =>
        have hout := h.relisted name
        simp only [knownAfter, lastShown_concat, Event.shown?, Forgets]
        by_cases hall : v.relisted.all (name ∈ ·) = true
        · rw [if_pos hall, hknown]
          grind
        · rw [if_neg hall]
          grind
  · have hout := h.relisted name
    cases e with
    | listing => simpa [observe] using leavesOut_listing name
    | listEnd => simpa [observe] using not_leavesOut_listEnd name
    | applied c | deleted c =>
        rw [leavesOut_concat rfl]
        simpa [observe, record] using hout
    | listed c =>
        rw [leavesOut_concat rfl, ← hout]
        cases hlist : v.relisted with
        | none => simp [observe, record, noteListed, hlist]
        | some names =>
            simp only [observe, record, noteListed, hlist, Option.map_some, Option.all_some]
            grind
  · have hsynced := h.synced
    cases e with
    | listEnd => simp [observe]
    | listing | listed | applied | deleted =>
        simpa [observe, record, noteListed] using hsynced

theorem follows_follow {past es : List (Event ConfigMap)} {v : Versions} (h : Follows past v) :
    Follows (past ++ es) (v.follow es) := by
  induction es using List.reverseRecOn with
  | nil =>
      rw [List.append_nil]
      exact h
  | append_singleton earlier e ih =>
      have hnext := follows_observe ih e
      rwa [List.append_assoc, show ((v.follow earlier).observe e).1 = v.follow (earlier ++ [e]) by
        simp [follow]] at hnext

/-- **The reports of a live config map are its changes.**  From where a name is known after a
complete list, and as long as it is not forgotten, the reports of the name are those of its
showings whose version is not that of the showing before. -/
theorem filter_reports {past es : List (Event ConfigMap)} {v : Versions} (h : Follows past v)
    (hsynced : .listEnd ∈ past) {c : ConfigMap} (hc : LastShown past c)
    (hkept : Keeps past c.name es) :
    (reports es v).filter (·.name = c.name) =
      changes c.version ((es.filterMap Event.shown?).filter (·.name = c.name)) := by
  induction es generalizing past v c with
  | nil => rfl
  | cons e rest ih =>
      obtain ⟨hstays, hlater⟩ := hkept
      have hnext : Follows (past ++ [e]) (v.observe e).1 := follows_observe h e
      have hsynced' : .listEnd ∈ past ++ [e] := List.mem_append_left _ hsynced
      have hknown : List.lookup c.name v.known = some c.version :=
        (h.known _ _).2 ⟨c, hc, rfl, rfl⟩
      have hreport := observe_eq_some_iff v e
      rw [reports, List.filter_append]
      by_cases hshown : ∃ d, e.shown? = some d ∧ d.name = c.name
      · obtain ⟨d, hd, hname⟩ := hshown
        have hafter := ih hnext hsynced' (lastShown_concat.2 (.inl hd)) (by rwa [hname])
        rw [hname] at hafter
        have he : e = .applied d ∨ e = .listed d ∧ v.synced = true := by
          have := h.synced.2 hsynced
          cases e with
          | listing | listEnd | deleted => cases hd
          | listed | applied => cases hd; simp [this]
        have hown : (v.observe e).2 = if d.version = c.version then none else some d := by
          by_cases hversion : d.version = c.version
          · rw [if_pos hversion, Option.eq_none_iff_forall_ne_some]
            intro d' hd'
            obtain ⟨hd'', previous, hprevious, hne⟩ := (hreport d').1 hd'
            have : d' = d := by
              rcases he with rfl | ⟨rfl, -⟩ <;> grind
            grind
          · rw [if_neg hversion, hreport]
            exact ⟨he, c.version, hname ▸ hknown, fun heq => hversion heq.symm⟩
        rw [hafter, hown, List.filterMap_cons, hd]
        by_cases hversion : d.version = c.version
        · simp [hversion, hname, changes]
        · simp [hversion, hname, changes]
      · have hothers : ∀ d, e.shown? = some d → d.name ≠ c.name := by
          intro d hd hname
          exact hshown ⟨d, hd, hname⟩
        have hafter :=
          ih hnext hsynced' (lastShown_concat.2 (.inr ⟨hc, hothers, hstays⟩)) hlater
        have hnone : (v.observe e).2.toList.filter (·.name = c.name) = [] := by
          rw [List.filter_eq_nil_iff]
          intro d hd
          have hsome := (hreport d).1 (Option.mem_toList.1 hd)
          have hd : e.shown? = some d := by
            rcases hsome.1 with rfl | ⟨rfl, -⟩ <;> rfl
          simpa using hothers d hd
        rw [hafter, hnone, List.nil_append, List.filterMap_cons]
        cases hd : e.shown? with
        | none => rfl
        | some d => simp [hothers d hd]

/-- **Which events report a change.**  After every history whatever, an event reports a config map
exactly if it applies it, or lists it after a list was complete, and the history has last shown the
name under another version and not forgotten it since.  So as long as a name is not forgotten, each
change of its version after a complete list is reported once and nothing else is; what the history
never showed is not reported, nor is anything that is listed before a list was complete. -/
theorem changed_iff_last_shown_otherwise (past : List (Event ConfigMap)) :
    (∀ e c, ((follow past {}).observe e).2 = some c ↔
      (e = .applied c ∨ e = .listed c ∧ .listEnd ∈ past) ∧
        ∃ earlier, LastShown past earlier ∧ earlier.name = c.name ∧
          earlier.version ≠ c.version) ∧
    (∀ es c, .listEnd ∈ past → LastShown past c → Keeps past c.name es →
      (reports es (follow past {})).filter (·.name = c.name) =
        changes c.version ((es.filterMap Event.shown?).filter (·.name = c.name))) ∧
    (∀ e c,
      (∀ e' ∈ past, ∀ earlier, e'.shown? = some earlier → earlier.name ≠ c.name) →
      ((follow past {}).observe e).2 ≠ some c) ∧
    (∀ c, .listEnd ∉ past → ((follow past {}).observe (.listed c)).2 = none) := by
  have hfollows : Follows past (follow past {}) := follows_follow follows_empty
  have hiff : ∀ e c, ((follow past {}).observe e).2 = some c ↔
      (e = .applied c ∨ e = .listed c ∧ .listEnd ∈ past) ∧
        ∃ earlier, LastShown past earlier ∧ earlier.name = c.name ∧
          earlier.version ≠ c.version := by
    intro e c
    rw [observe_eq_some_iff, hfollows.synced]
    refine and_congr_right fun _ => ⟨?_, ?_⟩
    · rintro ⟨previous, hknown, hne⟩
      obtain ⟨earlier, hlast, hname, rfl⟩ := (hfollows.known _ _).1 hknown
      exact ⟨earlier, hlast, hname, hne⟩
    · rintro ⟨earlier, hlast, hname, hne⟩
      exact ⟨earlier.version, (hfollows.known _ _).2 ⟨earlier, hlast, hname, rfl⟩, hne⟩
  refine ⟨hiff, ?_, ?_, ?_⟩
  · intro es c hsynced hc hkept
    exact filter_reports hfollows hsynced hc hkept
  · intro e c hnever hreport
    obtain ⟨-, earlier, ⟨before, e', after, rfl, hshown, -⟩, hname, -⟩ :=
      (hiff e c).1 hreport
    exact hnever e' (by simp) earlier hshown hname
  · intro c hunsynced
    rw [Option.eq_none_iff_forall_ne_some]
    intro d hreport
    rcases ((hiff _ d).1 hreport).1 with happlied | ⟨-, hsynced⟩
    · cases happlied
    · exact hunsynced hsynced

/-- A config map under a version. -/
def configMapAt (name version : String) : ConfigMap :=
  { metadata := { name := some name, resourceVersion := some version } }

/-- The list that begins a watch, and a second one that has just begun. -/
def beforeRelist : List (Event ConfigMap) :=
  [.listing, .listed (configMapAt "b" "1"), .listed (configMapAt "a" "1"), .listEnd, .listing]

/-- The second list, which leaves `b` out, and what is applied after it. -/
def afterRelist : List (Event ConfigMap) :=
  [.listed (configMapAt "a" "3"), .listEnd, .applied (configMapAt "a" "3"),
    .applied (configMapAt "b" "2"), .applied (configMapAt "a" "4")]

/-- Of the config map that stays, the second list reports the change that it shows. -/
theorem reported_across_relist :
    .listEnd ∈ beforeRelist ∧ LastShown beforeRelist (configMapAt "a" "1") ∧
      Keeps beforeRelist "a" afterRelist ∧
      (reports afterRelist (follow beforeRelist {})).filter (·.name = "a") =
        [configMapAt "a" "3", configMapAt "a" "4"] := by
  have hlisted : .listEnd ∈ beforeRelist := by simp [beforeRelist]
  -- A list that has just held `a` does not leave it out.
  have hheld (past : List (Event ConfigMap)) (version : String) :
      ¬ LeavesOut (past ++ [.listed (configMapAt "a" version)]) "a" := by
    intro hout
    exact ((leavesOut_concat rfl).1 hout).2 _ rfl rfl
  have hlast : LastShown beforeRelist (configMapAt "a" "1") := by
    refine ⟨[.listing, .listed (configMapAt "b" "1")], _, _, rfl, rfl, by decide, ?_⟩
    exact ⟨hheld _ "1", not_false, trivial⟩
  have hkept : Keeps beforeRelist "a" afterRelist :=
    ⟨not_false, hheld _ "3", not_false, not_false, not_false, trivial⟩
  obtain ⟨-, hreports, -, -⟩ := changed_iff_last_shown_otherwise beforeRelist
  exact ⟨hlisted, hlast, hkept, hreports afterRelist (configMapAt "a" "1") hlisted hlast hkept⟩

end ImageRollout.ConfigMaps.Versions
