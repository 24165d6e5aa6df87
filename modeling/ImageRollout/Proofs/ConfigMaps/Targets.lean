import Mathlib.Data.List.Forall2
import ImageRollout.Proofs.ConfigMaps.Restarts

/-!
# What a changed config map restarts

A config map names deployments in two ways, by its own name and in an annotation, and both may name
the same one.  When the config map has changed, a restart is requested of each that the cache has at
its turn.  The requests are sent one after another, and each may fail.

* `mem_deployments_iff`: which deployments a config map names.
* `exists_sent`, `exists_sent_of_course`: what one move sends, and what a whole course does.
* `exists_move`: there is another move as soon as the last request was answered.
* `restarts_of_event`: what comes of an event.
-/

namespace ImageRollout.ConfigMaps

open Cluster Kubernetes Watch

/-- The config map names the deployment: before the ending of its own name, or in an annotation
that is an array of texts. -/
def Names (c : ConfigMap) (deployment : String) : Prop :=
  c.name = deployment ++ nameSuffix ∨
    ∃ written names, c.metadata.annotated? associationKey = some written ∧
      Json.parseText? written = some (.texts names) ∧ deployment ∈ names

theorem deploymentOfName?_eq_some_iff {name deployment : String} :
    deploymentOfName? name = some deployment ↔ name = deployment ++ nameSuffix := by
  simp only [deploymentOfName?, Option.map_eq_some_iff, List.isSuffixOf?_eq_some_iff_append_eq]
  constructor
  · intro h
    obtain ⟨before, happend, rfl⟩ := h
    rw [← String.toList_inj, String.toList_append, String.toList_ofList, happend]
  · intro h
    subst h
    exact ⟨deployment.toList, (String.toList_append ..).symm, String.ofList_toList⟩

theorem mapM_text?_eq_some_iff {items : List Json} {names : List String} :
    items.mapM Json.text? = some names ↔ items = names.map .str := by
  induction items generalizing names with
  | nil => cases names <;> simp
  | cons item rest ih =>
      simp only [List.mapM_cons, Option.bind_eq_bind, Option.bind_eq_some_iff, Option.pure_def,
        Option.some.injEq, ih]
      cases names with
      | nil => simp
      | cons name names => cases item <;> simp [Json.text?, and_comm]

/-- Nothing but an array of texts is read as names. -/
theorem namesInAnnotation?_eq_some_iff {written : String} {names : List String} :
    namesInAnnotation? written = some names ↔ Json.parseText? written = some (.texts names) := by
  have hlist (v : Json) : Json.listOf? Json.text? v = some names ↔ v = .texts names := by
    rw [Json.texts, Json.listOf?]
    cases v with
    | arr items => simp [Json.items?, mapM_text?_eq_some_iff]
    | _ => simp [Json.items?]
  simp only [namesInAnnotation?, Option.bind_eq_some_iff, hlist, exists_eq_right]

theorem mem_annotatedNames_iff {c : ConfigMap} {deployment : String} :
    deployment ∈ annotatedNames c ↔
      ∃ written names, c.metadata.annotated? associationKey = some written ∧
        Json.parseText? written = some (.texts names) ∧ deployment ∈ names := by
  rw [annotatedNames]
  constructor
  · intro hmem
    cases hread : (c.metadata.annotated? associationKey).bind namesInAnnotation? with
    | none =>
        rw [hread] at hmem
        cases hmem
    | some names =>
        rw [hread] at hmem
        obtain ⟨written, hwritten, hnames⟩ := Option.bind_eq_some_iff.1 hread
        exact ⟨written, names, hwritten, namesInAnnotation?_eq_some_iff.1 hnames, hmem⟩
  · intro h
    obtain ⟨written, names, hwritten, hnames, hmem⟩ := h
    rw [hwritten, Option.bind_some, namesInAnnotation?_eq_some_iff.2 hnames]
    exact hmem

/-- **Which deployments a config map names**, however often and in either way. -/
theorem mem_deployments_iff {c : ConfigMap} {deployment : String} :
    deployment ∈ deployments c ↔ Names c deployment := by
  rw [deployments, Text.mem_ascending, List.mem_append, Option.mem_toList,
    deploymentOfName?_eq_some_iff, mem_annotatedNames_iff, Names]

/-- The restarts that an event of a config map begins. -/
def begun (v : Versions) (e : Event ConfigMap) : Option Restarting :=
  (Controller.restartsFor v (e.map .configMap)).2.1

theorem begun_eq (v : Versions) (e : Event ConfigMap) :
    begun v e =
      (v.observe e).2.map fun c => { configMap := c.name, deployments := deployments c } := by
  have hevent : configMapEvent? (e.map .configMap) = some e := by
    cases e <;> rfl
  rw [begun, restartsFor_eq, changed?, hevent]
  rfl

/-- What may become of restarts, with all that is sent: from move to move the scene may be any
other, and so may the cache, as long as it has the deployment whose turn it is exactly if that one
is `held`. -/
inductive Course (n : String) (held : String → Bool) :
    Option Restarting → List Write → Option Restarting → Prop
  | still (r : Option Restarting) : Course n held r [] r
  | move {known : Cache Object} {r : Restarting} {s s' : Site} {r₁ r₂ : Option Restarting}
      {writes : List Write}
      (hheld : ∀ name rest, r.deployments = name :: rest → (known.get? name).isSome = held name)
      (hmove : Controller.moveRestarts? n known r s = some (s', r₁))
      (h : Course n held r₁ writes r₂) :
      Course n held (some r) (added s.writes s'.writes ++ writes) r₂

/-- The deployments that are still to be restarted. -/
def due (held : String → Bool) (r : Option Restarting) : List String :=
  r.elim [] fun r => r.deployments.filter held

/-- How many moves there are to come. -/
def movesLeft (r : Option Restarting) : Nat := r.elim 0 fun r => r.deployments.length + 1

section Course

variable {n : String} {held : String → Bool} {known : Cache Object} {r : Restarting} {s s' : Site}
  {r₁ r₂ : Option Restarting} {writes : List Write}

/-- **What a move sends** is due first. -/
theorem exists_sent
    (hheld : ∀ name rest, r.deployments = name :: rest → (known.get? name).isSome = held name)
    (hmove : Controller.moveRestarts? n known r s = some (s', r₁)) :
    ∃ sent, due held (some r) = sent ++ due held r₁ ∧
      List.Forall₂ (IsRestart n) sent (added s.writes s'.writes) := by
  have hover := over?_of_moveRestarts? hmove
  cases hlist : r.deployments with
  | nil =>
      obtain ⟨notices, hlast⟩ := moveRestarts?_nil n known hlist hover
      rw [hlast] at hmove
      cases hmove
      refine ⟨[], by simp [due, hlist], ?_⟩
      have hsent : added s.writes (s.report notices).writes = [] := added_self s.writes
      rw [hsent]
      exact .nil
  | cons name rest =>
      obtain ⟨s₁, wait, writes, notices, hturn, hwrites, -, hfollows⟩ :=
        moveRestarts?_cons n known hlist hover
      rw [hturn] at hmove
      cases hmove
      rw [hwrites, added_append]
      rw [hheld name rest hlist] at hfollows
      cases hname : held name with
      | true =>
          rw [hname] at hfollows
          obtain ⟨⟨w, rfl, hrestart⟩, -⟩ := hfollows
          exact ⟨[name], by simp [due, hlist, hname], .cons hrestart .nil⟩
      | false =>
          rw [hname] at hfollows
          obtain ⟨rfl, -⟩ := hfollows
          exact ⟨[], by simp [due, hlist, hname], .nil⟩

/-- **What a course sends** is due first, whatever becomes of the requests. -/
theorem exists_sent_of_course {r : Option Restarting} (h : Course n held r writes r₂) :
    ∃ sent, due held r = sent ++ due held r₂ ∧ List.Forall₂ (IsRestart n) sent writes := by
  induction h with
  | still r => exact ⟨[], rfl, .nil⟩
  | move hheld hmove _ ih =>
      obtain ⟨first, hfirst, hsent⟩ := exists_sent hheld hmove
      obtain ⟨later, hlater, hsentLater⟩ := ih
      refine ⟨first ++ later, by rw [hfirst, hlater, List.append_assoc], ?_⟩
      exact List.rel_append hsent hsentLater

/-- **There is another move** as soon as the last request was answered, be it with a refusal. -/
theorem exists_move (n : String) (known : Cache Object) (hover : (s.over? r.wait).isSome) :
    ∃ s' r', Controller.moveRestarts? n known r s = some (s', r') ∧
      movesLeft (some r) = movesLeft r' + 1 := by
  cases hlist : r.deployments with
  | nil =>
      obtain ⟨notices, hlast⟩ := moveRestarts?_nil n known hlist hover
      exact ⟨_, _, hlast, by simp [movesLeft, hlist]⟩
  | cons name rest =>
      obtain ⟨s', wait, -, -, hturn, -⟩ := moveRestarts?_cons n known hlist hover
      exact ⟨_, _, hturn, by simp [movesLeft, hlist]⟩

end Course

/-- **What comes of an event.**  If it shows no config map to have changed, nothing is sent.  If it
does, the deployments that the config map names, and that the cache has at their turns, are put in
order, each once.  Whichever requests fail, one restart is sent for each of them, in this order, and
nothing else: there is another move after every answer, and every move brings the end nearer. -/
theorem restarts_of_event (n : String) (held : String → Bool) (v : Versions)
    (e : Event ConfigMap) :
    ((v.observe e).2 = none →
      ∀ writes r, Course n held (begun v e) writes r → writes = [] ∧ r = none) ∧
    ∀ c, (v.observe e).2 = some c →
      ∃ names : List String, names.Pairwise (· < ·) ∧
        (∀ name, name ∈ names ↔ held name = true ∧ Names c name) ∧
        ∀ writes r, Course n held (begun v e) writes r →
          ∃ sent left, names = sent ++ left ∧ List.Forall₂ (IsRestart n) sent writes ∧
            (r = none → left = []) ∧
            ∀ r' known s, r = some r' → (s.over? r'.wait).isSome →
              ∃ s' r'', Controller.moveRestarts? n known r' s = some (s', r'') ∧
                movesLeft r'' < movesLeft r := by
  rw [begun_eq]
  constructor
  · intro hnone writes r h
    rw [hnone] at h
    cases h
    exact ⟨rfl, rfl⟩
  · intro c hsome
    rw [hsome]
    refine ⟨(deployments c).filter held, (Text.pairwise_ascending _).filter held, ?_, ?_⟩
    · intro name
      rw [List.mem_filter, mem_deployments_iff, and_comm]
    · intro writes r h
      obtain ⟨sent, hsplit, hsent⟩ := exists_sent_of_course h
      refine ⟨sent, due held r, hsplit, hsent, ?_, ?_⟩
      · intro hend
        rw [hend]
        rfl
      · intro r' known s hr hover
        rw [hr]
        obtain ⟨s', r'', hmove, hleft⟩ := exists_move n known hover
        exact ⟨s', r'', hmove, by omega⟩

/-- A config map that names two deployments, one of them in both ways. -/
def sharedConfig : ConfigMap :=
  { metadata :=
      { name := some "web-config", resourceVersion := some "2"
        annotations := some [(associationKey, "[\"web\",\"api\",\"web\"]")] } }

/-- Both deployments are known. -/
def both : Cache Object :=
  { objects := [("web", Restarter.web), ("api", Restarter.web)] }

/-- The restarts that are left for a config map. -/
def leftFor (deployments : List String) (wait : Wait) : Restarting :=
  { configMap := "web-config", deployments, wait }

/-- A time at which an API server has no deployment, and so refuses every patch. -/
def emptySite (millis : Nat) : Site := { now := ⟨millis, 0⟩ }

/-- Although every request is refused, both deployments have their restart. -/
theorem restarts_of_event_refused :
    ∃ names writes,
      Course "a" (fun name => (both.get? name).isSome)
        (begun { known := [("web-config", some "1")] } (.applied sharedConfig)) writes none ∧
      "api" ∈ names ∧ "web" ∈ names ∧ List.Forall₂ (IsRestart "a") names writes := by
  obtain ⟨-, hchanged⟩ := restarts_of_event "a" (fun name => (both.get? name).isSome)
    { known := [("web-config", some "1")] } (.applied sharedConfig)
  obtain ⟨names, -, hnames, hcourse⟩ := hchanged sharedConfig rfl
  have hbegun : begun { known := [("web-config", some "1")] } (.applied sharedConfig) =
      some (leftFor ["api", "web"] .ready) := rfl
  have hfirst : Controller.moveRestarts? "a" both (leftFor ["api", "web"] .ready) (emptySite 0) =
      some (_, some (leftFor ["web"] (.reply ⟨0, 1⟩ (.refused 404)))) := rfl
  have hsecond : Controller.moveRestarts? "a" both
      (leftFor ["web"] (.reply ⟨0, 1⟩ (.refused 404))) (emptySite 1) =
        some (_, some (leftFor [] (.reply ⟨1, 1⟩ (.refused 404)))) := rfl
  have hlast : Controller.moveRestarts? "a" both
      (leftFor [] (.reply ⟨1, 1⟩ (.refused 404))) (emptySite 2) = some (_, none) := rfl
  have hends := Course.move (fun _ _ _ => rfl) hfirst
    (.move (fun _ _ _ => rfl) hsecond (.move (fun _ _ _ => rfl) hlast (.still none)))
  rw [← hbegun] at hends
  obtain ⟨sent, left, rfl, hsent, hleft, -⟩ := hcourse _ _ hends
  rw [hleft rfl, List.append_nil] at hnames
  have hwritten : Json.parseText? "[\"web\",\"api\",\"web\"]" =
      some (.texts ["web", "api", "web"]) := rfl
  exact ⟨sent, _, hends, (hnames "api").2 ⟨rfl, .inr ⟨_, _, rfl, hwritten, by decide⟩⟩,
    (hnames "web").2 ⟨rfl, .inl rfl⟩, hsent⟩

end ImageRollout.ConfigMaps
