import ImageRollout.Http.Service
import ImageRollout.Proofs.Cluster.Convergence
import ImageRollout.Proofs.Rollout.Matching
import ImageRollout.Rerun.Decision

/-!
# Containers that run a push

The last colon of a text is cut at in three places: to make a push of a reference, to read what a
container runs, and, since a container is moved to the text of a push, to read what it was moved to.
The last reading gives back the push for exactly the tags that the first one can give.  So a
container that has been moved to a push settles: the push plans nothing for it any more, and it is
not for its sake that the push reruns a job, unless it pulls its image always.

* `Push.ofReference_text_iff`: which pushes read back as themselves.
* `Http.isReadable_of_announced`: the pushes that requests announce do.
* `plan_without_runs`, `needsRerun_eq`: what a push makes of the containers that run it.
* `settles_once_moved`: all of it, for every push that is announced.
-/

namespace ImageRollout

namespace Image.Push

/-- **The pushes that read back as themselves** are the readable ones. -/
theorem ofReference_text_iff {p : Push} : ofReference p.text = p ↔ p.IsReadable := by
  constructor
  · intro h
    rw [← h]
    exact isReadable_ofReference p.text
  · exact ofReference_text

/-- A push can be read again just if its tag is neither empty nor has a colon. -/
theorem isReadable_iff {p : Push} : p.IsReadable ↔ p.tag ≠ "" ∧ ':' ∉ p.tag.toList :=
  ⟨fun h => ⟨h.tag_ne, h.no_colon⟩, fun h => ⟨h.1, h.2⟩⟩

end Image.Push

namespace Http

/-- Every push that a request announces is readable. -/
theorem isReadable_of_announced {r : Request} {p : Image.Push} (h : p ∈ pushes r) :
    p.IsReadable := by
  rw [pushes] at h
  split at h
  next =>
    have hbody : p ∈ (Cluster.Body.harbor r.body).pushes := h
    exact Cluster.Server.isReadable_of_mem_pushes hbody
  next =>
    have hbody : p ∈ (Cluster.Body.gitHub r.body).pushes := h
    exact Cluster.Server.isReadable_of_mem_pushes hbody
  next => cases h

end Http

namespace Kubernetes

/-- The template without some of its containers. -/
def PodTemplate.without (q : Container → Bool) (t : PodTemplate) : PodTemplate :=
  { t with spec := t.spec.map fun pod => { pod with containers := pod.containers.filter (!q ·) } }

/-- The deployment without some of its containers. -/
def Deployment.without (q : Container → Bool) (d : Deployment) : Deployment :=
  { d with spec := d.spec.map fun s => { s with template := s.template.without q } }

/-- The job without some of its containers. -/
def Job.without (q : Container → Bool) (j : Job) : Job :=
  { j with spec := j.spec.map fun s => { s with template := s.template.without q } }

/-- A deployment without some containers has a pod without them. -/
theorem Deployment.podSpec?_without (q : Container → Bool) (d : Deployment) :
    (d.without q).podSpec? =
      d.podSpec?.map fun pod => { pod with containers := pod.containers.filter (!q ·) } := by
  rw [podSpec?, podSpec?, without, Option.bind_map, Option.map_bind]
  rfl

/-- A job without some containers has a pod without them. -/
theorem Job.podSpec?_without (q : Container → Bool) (j : Job) :
    (j.without q).podSpec? =
      j.podSpec?.map fun pod => { pod with containers := pod.containers.filter (!q ·) } := by
  rw [podSpec?, podSpec?, without, Option.bind_map, Option.map_bind]
  rfl

/-- The containers of a job. -/
def Job.containers (j : Job) : List Container := (j.podSpec?.map (·.containers)).getD []

end Kubernetes

namespace Rollout

open Image Kubernetes

/-- Whether a container runs exactly what a push moves containers to. -/
def runs (p : Push) (c : Container) : Bool := c.image = some p.text

section Settled

variable {p : Push} {c : Container}

theorem runs_iff : runs p c = true ↔ c.image = some p.text := decide_eq_true_iff

/-- A push that can be read again does not supersede its own image. -/
theorem supersedes_text (h : p.IsReadable) : p.supersedes p.text = false := by
  simp [Push.supersedes, Push.ofReference_text h]

/-- A container that runs a push is not outdated for it. -/
theorem isOutdated_of_runs (h : p.IsReadable) (hruns : runs p c = true) :
    isOutdated p c = false := by
  rw [isOutdated, runs_iff.1 hruns, Option.any_some]
  exact supersedes_text h

/-- A container that runs a push is concerned by it exactly if it pulls its image always. -/
theorem concerns_of_runs (h : p.IsReadable) (hruns : runs p c = true) :
    Rerun.concerns p c = (c.imagePullPolicy == some "Always") := by
  rw [Rerun.concerns, runs_iff.1 hruns, Option.any_some, supersedes_text h, Push.sameImage,
    Push.ofReference_text h]
  simp

/-- Containers that run the pushed image make no difference to what is due. -/
theorem changes_without_runs (h : p.IsReadable) (d : Deployment) :
    changes p (d.without (runs p)) = changes p d := by
  rw [changes, changes, d.podSpec?_without]
  cases d.podSpec? with
  | none => rfl
  | some pod =>
      have hfilter : (pod.containers.filter (!runs p ·)).filter (isOutdated p) =
          pod.containers.filter (isOutdated p) := by
        rw [List.filter_filter]
        refine List.filter_congr fun c _ => ?_
        cases hruns : runs p c with
        | false => simp
        | true => simp [isOutdated_of_runs h hruns]
      simp only [Option.map_some, hfilter]

/-- **A push plans nothing for the containers that run it**: they might as well not be there. -/
theorem plan_without_runs (h : p.IsReadable) (ds : List Deployment) :
    plan p (ds.map (Deployment.without (runs p))) = plan p ds := by
  have hone (d : Deployment) : planOne p (d.without (runs p)) = planOne p d := by
    rw [planOne, planOne, changes_without_runs h]
    rfl
  rw [plan, plan, List.filterMap_map]
  exact List.filterMap_congr fun d _ => hone d

/-- **A push plans nothing once it has moved what it plans for.** -/
theorem plan_mapImages_settle (h : p.IsReadable) (ds : List Deployment) :
    plan p (ds.map (mapImages (Push.settle [p]))) = [] := by
  rw [plan, List.filterMap_eq_nil_iff]
  intro d' hd'
  obtain ⟨d, -, rfl⟩ := List.mem_map.1 hd'
  rw [planOne_eq_none_iff, podSpec?_mapImages]
  intro pod hpod c hc
  obtain ⟨pod, -, rfl⟩ := Option.map_eq_some_iff.1 hpod
  obtain ⟨c, -, rfl⟩ := List.mem_map.1 hc
  rw [mapImage_settle]
  split
  next => exact isOutdated_of_runs h (runs_iff.2 rfl)
  next hcurrent => exact Bool.eq_false_iff.2 hcurrent

/-- A job has to be rerun just if it takes part and some container of it is concerned. -/
theorem needsRerun_eq_any (p : Push) (j : Job) :
    Rerun.needsRerun p j = (Rerun.takesPart j && j.containers.any (Rerun.concerns p)) := by
  rw [Rerun.needsRerun, Job.containers]
  cases j.podSpec? <;> simp

/-- Something holds of a container exactly if it does of one that runs the push, or of another. -/
theorem any_eq_without_runs (p : Push) (holds : Container → Bool) (j : Job) :
    j.containers.any holds =
      ((j.without (runs p)).containers.any holds ||
        j.containers.any fun c => runs p c && holds c) := by
  have hcontainers : (j.without (runs p)).containers = j.containers.filter (!runs p ·) := by
    rw [Job.containers, j.podSpec?_without, Job.containers]
    cases j.podSpec? <;> rfl
  rw [hcontainers, List.any_filter]
  induction j.containers with
  | nil => rfl
  | cons c rest ih =>
      rw [List.any_cons, List.any_cons, List.any_cons, ih]
      cases runs p c <;> cases holds c <;> simp

/-- **A container that runs a push is a reason to rerun its job** only if it pulls its image
always. -/
theorem needsRerun_eq (h : p.IsReadable) (j : Job) :
    Rerun.needsRerun p j =
      (Rerun.needsRerun p (j.without (runs p)) ||
        (Rerun.takesPart j &&
          j.containers.any fun c => runs p c && c.imagePullPolicy == some "Always")) := by
  have htakes : Rerun.takesPart (j.without (runs p)) = Rerun.takesPart j := rfl
  have hruns (c : Container) : (runs p c && Rerun.concerns p c) =
      (runs p c && c.imagePullPolicy == some "Always") := by
    cases hc : runs p c with
    | false => rfl
    | true => rw [concerns_of_runs h hc]
  rw [needsRerun_eq_any, needsRerun_eq_any, htakes, ← Bool.and_or_distrib_left,
    any_eq_without_runs p (Rerun.concerns p) j, List.any_congr rfl hruns]

end Settled

/-- **What is moved stays moved.**  A push reads back as itself exactly if its tag is not empty and
holds no colon, and every push that is read from a reference has such a tag.  So every push that a
request announces is what the containers that were moved to it are read as.  It plans nothing more
for them, and nothing at all where it has moved what it planned for.  Of the jobs that take part it
reruns those for which there is a reason in the other containers, or a container that was moved to
it and pulls its image always. -/
theorem settles_once_moved :
    (∀ p : Push, Push.ofReference p.text = p ↔ p.tag ≠ "" ∧ ':' ∉ p.tag.toList) ∧
    (∀ reference, (Push.ofReference reference).tag ≠ "" ∧
      ':' ∉ (Push.ofReference reference).tag.toList) ∧
    ∀ r, ∀ p ∈ Http.pushes r,
      (∀ c, runs p c = true → c.image.map Push.ofReference = some p) ∧
      (∀ ds : List Deployment, plan p (ds.map (Deployment.without (runs p))) = plan p ds) ∧
      (∀ ds : List Deployment, plan p (ds.map (mapImages (Push.settle [p]))) = []) ∧
      ∀ j, Rerun.needsRerun p j =
        (Rerun.needsRerun p (j.without (runs p)) ||
          (Rerun.takesPart j &&
            j.containers.any fun c => runs p c && c.imagePullPolicy == some "Always")) := by
  refine ⟨fun p => Push.ofReference_text_iff.trans Push.isReadable_iff,
    fun reference => Push.isReadable_iff.1 (Push.isReadable_ofReference reference),
    fun r p hp => ?_⟩
  have hreadable : p.IsReadable := Http.isReadable_of_announced hp
  refine ⟨fun c hruns => ?_, plan_without_runs hreadable, plan_mapImages_settle hreadable,
    needsRerun_eq hreadable⟩
  rw [runs_iff.1 hruns, Option.map_some, Push.ofReference_text hreadable]

/-- GitHub tells of a container image. -/
def published : Http.Request :=
  { method := "POST", path := "/webhook-v1alpha1-github-image"
    body := Text.toUtf8 <|
      "\x7b\"action\":\"published\",\"package\":\x7b\"package_type\":\"CONTAINER\"," ++
      "\"package_version\":\x7b\"package_url\":\"hub:5000/web:2\"\x7d\x7d\x7d" }

/-- The image that it tells of. -/
def web : Push := { image := "hub:5000/web", tag := "2" }

/-- A job that takes part, whose one container runs that image and pulls it always or not. -/
def seed (policy : String) : Job :=
  let container : Container :=
    { name := "seed", image := some "hub:5000/web:2", imagePullPolicy := some policy }
  { metadata := { name := some "seed", annotations := some [(Rerun.optInKey, "true")] }
    spec := some { template := { spec := some { containers := [container] } } } }

/-- Of two containers the push that GitHub tells of plans for the one that it has not been moved to,
and of two jobs that run it, it reruns the one that pulls its image always. -/
theorem web_settles :
    web ∈ Http.pushes published ∧
      plan web [running [("old", "hub:5000/web:1"), ("new", "hub:5000/web:2")]] =
        plan web [running [("old", "hub:5000/web:1")]] ∧
      Rerun.needsRerun web (seed "Always") = true ∧
      Rerun.needsRerun web (seed "IfNotPresent") = false := by
  have hannounced : web ∈ Http.pushes published := by
    decide +kernel
  obtain ⟨-, -, hsettles⟩ := settles_once_moved
  obtain ⟨-, hplan, -, hrerun⟩ := hsettles published web hannounced
  refine ⟨hannounced, ?_, ?_, ?_⟩
  · rw [← hplan]
    rfl
  · rw [hrerun]
    decide
  · rw [hrerun]
    decide

end Rollout

end ImageRollout
