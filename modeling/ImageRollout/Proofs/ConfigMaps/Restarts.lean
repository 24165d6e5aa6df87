import ImageRollout.Cluster.Controller
import ImageRollout.Proofs.ConfigMaps.History
import ImageRollout.Proofs.Watch.Presence

/-!
# Restarts and the first list

Config maps are watched from the start, and so are the deployments that are to be restarted for
them.  Neither watch waits for the other.  When a config map has changed, each deployment that it
names is looked up in the cache at its turn, and the cache has nothing before its first list is
complete.

* `configMapEvent?`, `restartsFor_eq`: which events call for restarts.
* `moveRestarts?_nil`, `moveRestarts?_cons`: what a move of the restarts does.
* `isSound_step`, `isSound_run`: what the record says of the controller.
* `Restarter.restarted_iff_listed`: every deployment that a changed config map names has its turn,
  and one that was listed is restarted exactly if that list was complete by then.
-/

namespace ImageRollout.ConfigMaps

open Cluster Kubernetes Watch

/-- The event of a config map that the event of an object is. -/
def configMapEvent? : Event Object → Option (Event ConfigMap)
  | .listing => some .listing
  | .listEnd => some .listEnd
  | .listed o => o.configMap?.map .listed
  | .applied o => o.configMap?.map .applied
  | .deleted o => o.configMap?.map .deleted

/-- The config map that an event shows to have changed. -/
def changed? (v : Versions) (e : Event Object) : Option ConfigMap :=
  (configMapEvent? e).bind fun e => (v.observe e).2

/-- **What an event calls for**: the deployments of the config map that it shows to have changed. -/
theorem restartsFor_eq (v : Versions) (e : Event Object) :
    Controller.restartsFor v e =
      (v.follow (configMapEvent? e).toList,
        (changed? v e).map fun c => { configMap := c.name, deployments := deployments c },
        (changed? v e).elim [] fun c => (annotationNotice? c).toList) := by
  cases e with
  | listing | listEnd =>
      simp only [Controller.restartsFor, changed?, configMapEvent?, Versions.follow]
      split <;> simp_all
  | listed o | applied o | deleted o =>
      cases hmap : o.configMap? with
      | none => simp [Controller.restartsFor, changed?, configMapEvent?, hmap, Versions.follow]
      | some c =>
          simp only [Controller.restartsFor, changed?, configMapEvent?, hmap, Versions.follow]
          split <;> simp_all

/-- A restart of the deployment is requested. -/
def IsRestart (n name : String) (w : Write) : Prop :=
  w.request = { verb := .patch, kind := .deployment, namespaceName := n, name } ∧
    ∃ time, w.content = .patch (.restart time)

/-- What follows when a deployment that a config map names has its turn: it is restarted if it is
known, and otherwise it is reported to be missing. -/
def Follows (n configMap name : String) (writes : List Write) (notices : List Notice) :
    Bool → Prop
  | true => (∃ w, writes = [w] ∧ IsRestart n name w) ∧
      .deploymentMissing configMap n name ∉ notices
  | false => writes = [] ∧ .deploymentMissing configMap n name ∈ notices

/-- What was added to a sequence that grows at its end. -/
def added {α : Type} (before after : List α) : List α := after.drop before.length

/-- What was appended is what is new. -/
theorem added_append {α : Type} (before later : List α) :
    added before (before ++ later) = later :=
  List.drop_left ..

/-- Nothing is new where nothing was appended. -/
theorem added_self {α : Type} (l : List α) : added l l = [] := List.drop_length

section Moves

variable {n : String} {known : Cache Object} {r : Restarting} {s s' : Site}
  {r' : Option Restarting}

theorem over?_ready (s : Site) : s.over? .ready = some .accepted := rfl

theorem report_nil (s : Site) : s.report [] = s := by simp [Site.report]

/-- A restart that was waited for leaves at most its failure to be reported. -/
theorem exists_ready (n : String) (known : Cache Object) (hover : (s.over? r.wait).isSome) :
    ∃ failed, (failed = [] ∨ failed = [.patchFailed .configMap n]) ∧
      Controller.moveRestarts? n known r s =
        Controller.moveRestarts? n known { r with wait := .ready } (s.report failed) := by
  obtain ⟨reply, hreply⟩ := Option.isSome_iff_exists.1 hover
  cases reply with
  | accepted =>
      refine ⟨[], .inl rfl, ?_⟩
      rw [report_nil]
      simp only [Controller.moveRestarts?, hreply, over?_ready]
  | refused | silence =>
      refine ⟨_, .inr rfl, ?_⟩
      simp only [Controller.moveRestarts?, hreply, over?_ready]

/-- Restarts that move have nothing more to wait for. -/
theorem over?_of_moveRestarts? (h : Controller.moveRestarts? n known r s = some (s', r')) :
    (s.over? r.wait).isSome := by
  rw [Controller.moveRestarts?] at h
  split at h
  next => cases h
  next hover => simp [hover]

/-- **The last move of the restarts** ends them. -/
theorem moveRestarts?_nil (n : String) (known : Cache Object) (hr : r.deployments = [])
    (hover : (s.over? r.wait).isSome) :
    ∃ notices,
      Controller.moveRestarts? n known r s = some (s.report notices, none) := by
  obtain ⟨failed, -, hready⟩ := exists_ready n known hover
  refine ⟨failed, ?_⟩
  rw [hready]
  simp [Controller.moveRestarts?, over?_ready, hr]

/-- **Any other move of the restarts** is the turn of one deployment. -/
theorem moveRestarts?_cons (n : String) (known : Cache Object) {name : String}
    {rest : List String} (hr : r.deployments = name :: rest) (hover : (s.over? r.wait).isSome) :
    ∃ s' wait writes notices,
      Controller.moveRestarts? n known r s =
        some (s', some { r with deployments := rest, wait }) ∧
      s'.writes = s.writes ++ writes ∧ s'.notices = s.notices ++ notices ∧
      Follows n r.configMap name writes notices (known.get? name).isSome := by
  obtain ⟨failed, hfailed, hready⟩ := exists_ready n known hover
  rw [hready]
  cases hknown : (known.get? name).isSome with
  | false =>
      refine ⟨(s.report failed).report [.deploymentMissing r.configMap n name], .ready, [],
        failed ++ [.deploymentMissing r.configMap n name], ?_, by simp [Site.report],
        by simp [Site.report], rfl, by simp⟩
      simp [Controller.moveRestarts?, over?_ready, hr, hknown, measure]
  | true =>
      let sent := (s.report failed).write
        { verb := .patch, kind := .deployment, namespaceName := n, name }
        (.patch (.restart { seconds := s.now.millis / 1000, nanos := 0 }))
      refine ⟨sent.1, sent.2, _, failed, ?_, rfl, rfl, ⟨_, rfl, rfl, _, rfl⟩, ?_⟩
      · simp [Controller.moveRestarts?, over?_ready, hr, hknown, measure, sent, Site.report]
      · rcases hfailed with rfl | rfl <;> simp

end Moves

/-- What there is to say about a controller of config maps. -/
inductive Mark where
  /-- Its watch on deployments showed something. -/
  | saw (e : Event Object)
  /-- Its watch on config maps showed something. -/
  | heard (e : Event Object) (notices : List Notice)
  /-- A deployment that a config map names had its turn. -/
  | judged (configMap name : String) (writes : List Write) (notices : List Notice)
  /-- The restarts for a config map came to their end. -/
  | done (notices : List Notice)

namespace Mark

/-- What the watch on deployments showed. -/
def saw? : Mark → Option (Event Object)
  | saw e => some e
  | _ => none

/-- What the watch on config maps showed. -/
def heard? : Mark → Option (Event ConfigMap)
  | heard e _ => configMapEvent? e
  | _ => none

/-- Whether the watch on config maps showed something. -/
def isHeard : Mark → Bool
  | heard .. => true
  | _ => false

/-- Whose turn it was: a config map and a deployment that it names. -/
def turn? : Mark → Option (String × String)
  | judged configMap name _ _ => some (configMap, name)
  | _ => none

/-- The writes that were sent. -/
def writes : Mark → List Write
  | judged _ _ writes _ => writes
  | _ => []

/-- The notices that were given. -/
def notices : Mark → List Notice
  | saw _ => []
  | heard _ notices | judged _ _ _ notices | done notices => notices

/-- A move of the restarts, told by what it added to the scene. -/
def ofMove (r : Restarting) (s s' : Site) : Mark :=
  match r.deployments with
  | [] => done (added s.notices s'.notices)
  | name :: _ => judged r.configMap name (added s.writes s'.writes) (added s.notices s'.notices)

end Mark

/-- What the watch on deployments has shown. -/
def sights (record : List Mark) : List (Event Object) := record.filterMap Mark.saw?

/-- What the watch on config maps has shown. -/
def hearings (record : List Mark) : List (Event ConfigMap) := record.filterMap Mark.heard?

/-- The turns up to the next event of config maps. -/
def turns (record : List Mark) : List (String × String) :=
  (record.takeWhile (!·.isHeard)).filterMap Mark.turn?

/-- The turns that an event calls for after a history. -/
def calls (past : List Mark) (e : Event Object) : List (String × String) :=
  (changed? (Versions.follow (hearings past) {}) e).elim [] fun c =>
    (deployments c).map (c.name, ·)

section Record

variable {record : List Mark} {m : Mark}

theorem sights_concat : sights (record ++ [m]) = sights record ++ m.saw?.toList := by
  cases h : m.saw? <;> simp [sights, h]

theorem hearings_concat : hearings (record ++ [m]) = hearings record ++ m.heard?.toList := by
  cases h : m.heard? <;> simp [hearings, h]

/-- The last mark counts as long as nothing was heard before. -/
theorem turns_concat :
    turns (record ++ [m]) =
      if record.any Mark.isHeard then turns record else turns record ++ m.turn?.toList := by
  induction record with
  | nil => cases m <;> rfl
  | cons first rest ih =>
      cases first with
      | heard => rfl
      | saw | done => exact ih
      | judged configMap name writes notices =>
          have hcons (later : List Mark) :
              turns (.judged configMap name writes notices :: later) =
                (configMap, name) :: turns later := rfl
          rw [List.cons_append, hcons, hcons, ih, List.cons_append, apply_ite (List.cons _)]
          rfl

end Record

/-- A controller of config maps as it restarts deployments, with the record of what has happened. -/
structure Restarter where
  deployments : Cache Object := {}
  versions : Versions := {}
  restarting : Option Restarting := none
  record : List Mark := []

namespace Restarter

/-- Its watch on deployments shows something. -/
def see (e : Event Object) (t : Restarter) : Restarter :=
  { t with deployments := t.deployments.observe Object.name e, record := t.record ++ [.saw e] }

/-- Its watch on config maps shows something. -/
def hear (e : Event Object) (t : Restarter) : Restarter :=
  let (versions, restarting, notices) := Controller.restartsFor t.versions e
  { t with versions, restarting, record := t.record ++ [.heard e notices] }

/-- A move of the restarts, if one can be made. -/
def move? (n : String) (s : Site) (t : Restarter) : Option (Site × Restarter) :=
  t.restarting.bind fun r => (Controller.moveRestarts? n t.deployments r s).map fun (s', r') =>
    (s', { t with restarting := r', record := t.record ++ [.ofMove r s s'] })

/-- What can happen in a namespace.  Both watches show events at any time, but changes only after a
complete list; config maps are heard of only between restarts. -/
inductive Step (n : String) (t : Restarter) : Restarter → Prop
  | see {e : Event Object}
      (hopen : ¬ e.IsOfList → t.deployments.synced = true) :
      Step n t (t.see e)
  | hear (e : Event Object) (hidle : t.restarting = none) : Step n t (t.hear e)
  | move {s s' : Site} {t' : Restarter} (hmove : t.move? n s = some (s', t')) : Step n t t'

/-- All that can come about. -/
inductive Run (n : String) : Restarter → Prop
  | start : Run n {}
  | next {t t' : Restarter} (h : Run n t) (hstep : Step n t t') : Run n t'

/-- The turns that are still to come. -/
def left (t : Restarter) : List (String × String) :=
  t.restarting.elim [] fun r => r.deployments.map (r.configMap, ·)

/-- What a step does, told by the mark that it makes. -/
inductive Effect (n : String) (t t' : Restarter) : Mark → Prop
  | saw {e : Event Object}
      (hopen : ¬ e.IsOfList → t.deployments.synced = true)
      (hdeployments : t'.deployments = t.deployments.observe Object.name e)
      (hversions : t'.versions = t.versions) (hleft : t'.left = t.left) :
      Effect n t t' (.saw e)
  | heard {e : Event Object} {notices : List Notice}
      (hdeployments : t'.deployments = t.deployments)
      (hversions : t'.versions = t.versions.follow (configMapEvent? e).toList)
      (hbefore : t.left = [])
      (hleft : t'.left =
        (changed? t.versions e).elim [] fun c => (ConfigMaps.deployments c).map (c.name, ·)) :
      Effect n t t' (.heard e notices)
  | judged {configMap name : String} {writes : List Write} {notices : List Notice}
      (hdeployments : t'.deployments = t.deployments) (hversions : t'.versions = t.versions)
      (hleft : t.left = (configMap, name) :: t'.left)
      (hfollows : Follows n configMap name writes notices (t.deployments.get? name).isSome) :
      Effect n t t' (.judged configMap name writes notices)
  | done {notices : List Notice}
      (hdeployments : t'.deployments = t.deployments) (hversions : t'.versions = t.versions)
      (hbefore : t.left = []) (hleft : t'.left = []) :
      Effect n t t' (.done notices)

variable {n : String} {t t' : Restarter}

/-- Where the restarts can move, the move is a turn, or the end. -/
theorem move?_cases {s : Site} {r : Restarting} (hr : t.restarting = some r)
    (hover : (s.over? r.wait).isSome) :
    ∃ s' t' m, t.move? n s = some (s', t') ∧ t'.record = t.record ++ [m] ∧
      s'.writes = s.writes ++ m.writes ∧ s'.notices = s.notices ++ m.notices ∧
      t'.left = t.left.tail ∧ Effect n t t' m := by
  have hleft : t.left = r.deployments.map (r.configMap, ·) := by simp [left, hr]
  cases hlist : r.deployments with
  | nil =>
      obtain ⟨notices, hmove⟩ := moveRestarts?_nil n t.deployments hlist hover
      rw [hlist] at hleft
      have hend : t.move? n s = some (s.report notices, { t with
          restarting := none, record := t.record ++ [.ofMove r s (s.report notices)] }) := by
        simp [move?, hr, hmove]
      refine ⟨_, _, .done notices, hend, ?_, ?_, rfl, ?_, .done rfl rfl hleft rfl⟩
      · simp [Mark.ofMove, hlist, added, Site.report]
      · simp [Mark.writes, Site.report]
      · rw [hleft]
        rfl
  | cons name rest =>
      obtain ⟨s', wait, writes, notices, hmove, hwrites, hnotices, hfollows⟩ :=
        moveRestarts?_cons n t.deployments hlist hover
      rw [hlist] at hleft
      have hturn : t.move? n s = some (s', { t with
          restarting := some { r with deployments := rest, wait }
          record := t.record ++ [.ofMove r s s'] }) := by
        simp [move?, hr, hmove]
      refine ⟨s', _, .judged r.configMap name writes notices, hturn, ?_, hwrites, hnotices, ?_,
        .judged rfl rfl hleft hfollows⟩
      · simp [Mark.ofMove, hlist, added, hwrites, hnotices]
      · rw [hleft]
        rfl

/-- **What a step can do**, whichever it is. -/
theorem step_effect (h : Step n t t') :
    ∃ m, t'.record = t.record ++ [m] ∧ Effect n t t' m := by
  cases h with
  | see hopen => exact ⟨_, rfl, .saw hopen rfl rfl rfl⟩
  | hear e hidle =>
      refine ⟨_, rfl, .heard rfl ?_ (by simp [left, hidle]) ?_⟩
      · simp only [hear, restartsFor_eq]
      · simp only [hear, left, restartsFor_eq]
        cases changed? t.versions e <;> rfl
  | @move s s' _ hmove =>
      cases hr : t.restarting with
      | none => simp [move?, hr] at hmove
      | some r =>
          have hover : (s.over? r.wait).isSome := by
            simp only [move?, hr, Option.bind_some] at hmove
            obtain ⟨⟨s₁, r₁⟩, hmoved, -⟩ := Option.map_eq_some_iff.1 hmove
            exact over?_of_moveRestarts? hmoved
          obtain ⟨s₁, t₁, m, hmoved, hrecord, -, -, -, heffect⟩ :=
            move?_cases (n := n) hr hover
          rw [hmoved] at hmove
          cases hmove
          exact ⟨m, hrecord, heffect⟩

/-- What the record says of the controller. -/
structure IsSound (n : String) (t : Restarter) : Prop where
  /-- It knows what was seen. -/
  seen : t.deployments = Cache.follow Object.name (sights t.record) {}
  /-- Before its first list is complete it knows no deployment. -/
  unlisted : .listEnd ∉ sights t.record → t.deployments.objects = []
  heard : t.versions = Versions.follow (hearings t.record) {}
  /-- All turns that an event calls for are taken before the next event is heard. -/
  called : ∀ before e notices after, t.record = before ++ .heard e notices :: after →
    turns after ++ (if after.any Mark.isHeard then [] else t.left) = calls before e
  /-- What follows from a turn depends on what was seen before. -/
  judged : ∀ before configMap name writes notices after,
    t.record = before ++ .judged configMap name writes notices :: after →
      (.listEnd ∉ sights before →
          (Cache.follow Object.name (sights before) {}).objects = []) ∧
        Follows n configMap name writes notices
          ((Cache.follow Object.name (sights before) {}).get? name).isSome

/-- What is left of the turns after a step, together with the one that was taken. -/
theorem left_of_effect {m : Mark} (h : Effect n t t' m) :
    t.left = m.turn?.toList ++ if m.isHeard then [] else t'.left := by
  cases h with
  | saw _ _ _ hleft => exact hleft.symm
  | heard _ _ hbefore => exact hbefore
  | judged _ _ hleft => exact hleft
  | done _ _ hbefore hleft => exact hbefore.trans hleft.symm

section Effect

variable {m : Mark} (h : IsSound n t) (hrecord : t'.record = t.record ++ [m])
  (heffect : Effect n t t' m)
include h hrecord heffect

/-- What is known of the deployments is what was seen of them. -/
theorem seen_of_effect : t'.deployments = Cache.follow Object.name (sights t'.record) {} := by
  rw [hrecord, sights_concat]
  cases heffect with
  | saw _ hdeployments =>
      rw [hdeployments, h.seen]
      exact (Cache.follow_concat _).symm
  | heard hdeployments | judged hdeployments | done hdeployments =>
      rw [hdeployments, h.seen]
      exact congrArg (Cache.follow Object.name · {}) (List.append_nil _).symm

/-- The versions that are known are those that were heard of. -/
theorem heard_of_effect : t'.versions = Versions.follow (hearings t'.record) {} := by
  rw [hrecord, hearings_concat]
  cases heffect with
  | heard _ hversions =>
      rw [hversions, h.heard]
      exact (List.foldl_append ..).symm
  | saw _ _ hversions | judged _ hversions | done _ hversions =>
      rw [hversions, h.heard]
      exact congrArg (Versions.follow · {}) (List.append_nil _).symm

/-- Nothing but the end of a list brings a deployment into a cache that has had no list yet. -/
theorem unlisted_of_effect (hunlisted : .listEnd ∉ sights t'.record) :
    t'.deployments.objects = [] := by
  rw [hrecord, sights_concat] at hunlisted
  have hbefore : .listEnd ∉ sights t.record := fun hmem => hunlisted (List.mem_append_left _ hmem)
  cases heffect with
  | @saw e hopen hdeployments =>
      have hclosed : ¬ t.deployments.synced = true := by
        rw [h.seen, Cache.synced_follow]
        exact hbefore
      rw [hdeployments, ← h.unlisted hbefore]
      cases e with
      | listing | listed => rfl
      | listEnd => simp [Mark.saw?] at hunlisted
      | applied | deleted => exact absurd (hopen not_false) hclosed
  | heard hdeployments | judged hdeployments | done hdeployments =>
      rw [hdeployments]
      exact h.unlisted hbefore

/-- The turns that were taken and those that are left are together what was called for. -/
theorem called_of_effect {before after : List Mark} {e : Event Object} {notices : List Notice}
    (hsplit : t'.record = before ++ .heard e notices :: after) :
    turns after ++ (if after.any Mark.isHeard then [] else t'.left) = calls before e := by
  rw [hrecord] at hsplit
  rcases split_concat hsplit with ⟨rfl, rfl, rfl⟩ | ⟨others, rfl, hold⟩
  · -- The event was just heard, and none of its turns was taken.
    cases heffect with
    | heard _ _ _ hleft =>
        rw [calls, ← h.heard, ← hleft]
        rfl
  · rw [← h.called before e notices others hold, turns_concat, List.any_append, List.any_cons,
      List.any_nil, Bool.or_false]
    by_cases hheard : others.any Mark.isHeard = true
    · simp [hheard]
    · -- It is the last event that was heard, so a turn that was taken is one of its own.
      simp only [hheard, Bool.false_or, Bool.false_eq_true, if_false, List.append_assoc]
      rw [left_of_effect heffect]

/-- A turn goes by what was seen before it. -/
theorem judged_of_effect {before after : List Mark} {configMap name : String}
    {writes : List Write} {notices : List Notice}
    (hsplit : t'.record = before ++ .judged configMap name writes notices :: after) :
    (.listEnd ∉ sights before → (Cache.follow Object.name (sights before) {}).objects = []) ∧
      Follows n configMap name writes notices
        ((Cache.follow Object.name (sights before) {}).get? name).isSome := by
  rw [hrecord] at hsplit
  rcases split_concat hsplit with ⟨rfl, rfl, -⟩ | ⟨others, -, hold⟩
  · cases heffect with
    | judged _ _ _ hfollows =>
        rw [← h.seen]
        exact ⟨h.unlisted, hfollows⟩
  · exact h.judged before configMap name writes notices others hold

end Effect

/-- **What the record says stays true**, whatever happens. -/
theorem isSound_step (h : IsSound n t) (hstep : Step n t t') : IsSound n t' := by
  obtain ⟨m, hrecord, heffect⟩ := step_effect hstep
  exact ⟨seen_of_effect h hrecord heffect, unlisted_of_effect h hrecord heffect,
    heard_of_effect h hrecord heffect, fun _ _ _ _ => called_of_effect h hrecord heffect,
    fun _ _ _ _ _ _ => judged_of_effect h hrecord heffect⟩

/-- Every run keeps what all steps keep. -/
theorem isSound_run (h : Run n t) : IsSound n t := by
  induction h with
  | start => exact ⟨rfl, fun _ => rfl, rfl, by simp, by simp⟩
  | next _ hstep ih => exact isSound_step ih hstep

/-- **Restarts depend on the first list.**  Let both watches show events in any order.  Whenever a
config map is seen to have changed, each deployment that it names has one turn, in order and before
anything else is heard of config maps; the next turn can be taken as soon as the restart before was
answered.  What becomes of a deployment that the first list held, and that was not lost since, then
depends on that list alone: if it was complete by then, a restart is sent and the deployment is not
reported to be missing; if it was not, the deployment is reported to be missing and no restart is
sent. -/
theorem restarted_iff_listed (h : Run n t) :
    (∀ before e notices after, t.record = before ++ .heard e notices :: after →
      turns after ++ (if after.any Mark.isHeard then [] else t.left) = calls before e) ∧
    (∀ r s, t.restarting = some r → (s.over? r.wait).isSome →
      ∃ s' t', t.move? n s = some (s', t') ∧ t'.left = t.left.tail) ∧
    (∀ before configMap name writes notices after,
      t.record = before ++ .judged configMap name writes notices :: after →
      Cache.FirstHolds Object.name (sights t.record) name →
      Cache.KeptSinceFirst Object.name (sights before) name →
        (.listEnd ∈ sights before →
          (∃ w, writes = [w] ∧ IsRestart n name w) ∧
            .deploymentMissing configMap n name ∉ notices) ∧
        (.listEnd ∉ sights before →
          writes = [] ∧ .deploymentMissing configMap n name ∈ notices)) := by
  have hsound := isSound_run h
  refine ⟨hsound.called, fun r s hr hover => ?_, ?_⟩
  · obtain ⟨s', t', -, hmove, -, -, -, hleft, -⟩ := move?_cases (n := n) hr hover
    exact ⟨s', t', hmove, hleft⟩
  · intro before configMap name writes notices after hsplit hfirst hkept
    obtain ⟨hunlisted, hfollows⟩ :=
      hsound.judged before configMap name writes notices after hsplit
    constructor
    · intro hlisted
      have hsights : sights t.record = sights before ++ sights after := by
        rw [hsplit, sights, List.filterMap_append]
        rfl
      rw [hsights] at hfirst
      rw [Cache.isSome_get?_of_firstHolds hfirst hlisted hkept] at hfollows
      exact hfollows
    · intro hnot
      rw [Cache.get?, hunlisted hnot] at hfollows
      exact hfollows

/-- A deployment. -/
def web : Object := .deployment { metadata := { name := some "web" } }

/-- The deployment is listed. -/
def listWeb (t : Restarter) : Restarter := ((t.see .listing).see (.listed web)).see .listEnd

/-- A config map of the deployment is listed, and then changes. -/
def updateConfig (t : Restarter) : Restarter :=
  (((t.hear .listing).hear (.listed (.configMap (Versions.configMapAt "web-config" "1")))).hear
    .listEnd).hear (.applied (.configMap (Versions.configMapAt "web-config" "2")))

/-- The restarts move, if they can. -/
def turn (n : String) (t : Restarter) : Restarter := (t.move? n {}).elim t (·.2)

/-- The deployment can be listed. -/
theorem run_listWeb (h : Run n t) : Run n t.listWeb := by
  have hlist {t : Restarter} {e : Event Object} (h : Run n t) (he : e.IsOfList) : Run n (t.see e) :=
    h.next (.see (absurd he))
  exact hlist (hlist (hlist h trivial) trivial) trivial

/-- The config map can change, where it was not seen before and no restart is under way. -/
theorem run_updateConfig (h : Run n t) (hversions : t.versions = {}) (hidle : t.restarting = none) :
    Run n t.updateConfig := by
  obtain ⟨known, versions, restarting, record⟩ := t
  cases hversions
  cases hidle
  exact (((h.next (.hear _ rfl)).next (.hear _ rfl)).next (.hear _ rfl)).next (.hear _ rfl)

/-- The restarts can take their turn. -/
theorem run_turn (h : Run n t) : Run n (t.turn n) := by
  rw [turn]
  cases hmove : t.move? n {} with
  | none => exact h
  | some moved => exact h.next (.move hmove)

theorem firstHolds_web :
    Cache.FirstHolds Object.name [.listing, .listed web, .listEnd] "web" :=
  ⟨[.listing, .listed web], [], rfl, by simp, [.listing], web, [], rfl, rfl, by simp⟩

/-- The deployment has been there since the first list. -/
theorem keptSinceFirst_web :
    Cache.KeptSinceFirst Object.name [.listing, .listed web, .listEnd] "web" := by
  intro before after hpast hbefore
  have hfirst : [.listing, .listed web] ++ .listEnd :: [] = before ++ .listEnd :: after := hpast
  cases eq_of_first hfirst (by simp) hbefore
  cases hfirst
  trivial

/-- Where the deployments are listed first, the change of the config map restarts its deployment. -/
theorem restarted_after_list :
    ∃ t before writes notices, Run "a" t ∧
      t.record = before ++ [.judged "web-config" "web" writes notices] ∧
      Cache.FirstHolds Object.name (sights t.record) "web" ∧
      Cache.KeptSinceFirst Object.name (sights before) "web" ∧
      .listEnd ∈ sights before ∧ ∃ w, writes = [w] ∧ IsRestart "a" "web" w := by
  have hrun : Run "a" ((({} : Restarter).listWeb.updateConfig).turn "a") :=
    run_turn (run_updateConfig (run_listWeb .start) rfl rfl)
  obtain ⟨-, -, hjudged⟩ := restarted_iff_listed hrun
  have hlisted : .listEnd ∈ sights ({} : Restarter).listWeb.updateConfig.record :=
    List.mem_of_getElem? (i := 2) rfl
  have hrestart := (hjudged ({} : Restarter).listWeb.updateConfig.record "web-config" "web" _ _ []
    rfl firstHolds_web keptSinceFirst_web).1 hlisted
  exact ⟨_, _, _, _, hrun, rfl, firstHolds_web, keptSinceFirst_web, hlisted, hrestart.1⟩

/-- Where the config maps are listed first, a change of one can come before the list of deployments.
The deployment is on that list, and yet it is reported to be missing and never restarted. -/
theorem overlooked_before_list :
    ∃ t before after, Run "a" t ∧
      t.record = before ++
        .judged "web-config" "web" [] [.deploymentMissing "web-config" "a" "web"] :: after ∧
      .listEnd ∈ hearings before ∧ .listEnd ∉ sights before ∧
      Cache.FirstHolds Object.name (sights t.record) "web" ∧
      Cache.KeptSinceFirst Object.name (sights t.record) "web" ∧
      t.left = [] ∧ t.record.flatMap Mark.writes = [] := by
  have hrun : Run "a" ((({} : Restarter).updateConfig).turn "a").listWeb :=
    run_listWeb (run_turn (run_updateConfig .start rfl rfl))
  have hheard : .listEnd ∈ hearings ({} : Restarter).updateConfig.record :=
    List.mem_of_getElem? (i := 2) rfl
  exact ⟨_, ({} : Restarter).updateConfig.record,
    [.saw .listing, .saw (.listed web), .saw .listEnd], hrun, rfl, hheard, List.not_mem_nil,
    firstHolds_web, keptSinceFirst_web, rfl, rfl⟩

end Restarter

end ImageRollout.ConfigMaps
