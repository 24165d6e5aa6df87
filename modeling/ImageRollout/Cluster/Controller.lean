import ImageRollout.Cluster.Site
import ImageRollout.ConfigMaps.Restart
import ImageRollout.ConfigMaps.Versions
import ImageRollout.Controllers.Team
import ImageRollout.Rerun.Task
import ImageRollout.Rollout.Plan

/-!
# The controllers of a namespace

There are three of them.  One moves deployments to pushed tags, one restarts deployments whose
config maps have changed, and one reruns jobs.  Each keeps caches of what it deals with, and its run
is over once these have their first complete list, or once it is stopped.
-/

namespace ImageRollout.Cluster

open Controllers Watch

/-- The restarts for a changed config map, while they are under way. -/
structure Restarting where
  configMap : String
  /-- The deployments that are still to be seen to; while a restart is waited for, its own is
  not among them any more. -/
  deployments : List String
  wait : Wait := .ready

/-- A controller. -/
inductive Controller where
  | deployments (deployments : Informer Object)
  | configMaps (deployments configMaps : Informer Object) (versions : ConfigMaps.Versions)
      (restarting : Option Restarting)
  /-- `waits` tells what each rerun waits for, by the name of its job. -/
  | jobs (jobs : Informer Object) (reruns : Rerun.Reruns) (waits : Table Wait)

namespace Controller

/-- A controller that was not started yet. -/
def ofKind : Kind → Except String Controller
  | .deployment => .ok (deployments {})
  | .configMap => .ok (configMaps {} {} {} none)
  | .job => .ok (jobs {} {} [])
  | .namespaces => .error "namespaces have no controller of their own"

/-- The kind of objects whose changes the controller deals with. -/
def kind : Controller → Kind
  | deployments .. => .deployment
  | configMaps .. => .configMap
  | jobs .. => .job

/-- Whether all caches have had a complete list. -/
def isSynced : Controller → Bool
  | deployments i => i.cache.synced
  | configMaps d c _ _ => d.cache.synced && c.cache.synced
  | jobs i _ _ => i.cache.synced

/-- How controllers behave in a team. -/
def conduct : Conduct Controller where
  progress c stopped := if c.isSynced || stopped then .over else .waiting

/-- The informers of the controller, with the kinds that they watch. -/
def informers : Controller → List (Kind × Informer Object)
  | deployments i => [(.deployment, i)]
  | configMaps d c _ _ => [(.deployment, d), (.configMap, c)]
  | jobs i _ _ => [(.job, i)]

/-- The controller with its informers changed, given the kinds that they watch. -/
def mapInformers (f : Kind → Informer Object → Informer Object) : Controller → Controller
  | deployments i => deployments (f .deployment i)
  | configMaps d c v r => configMaps (f .deployment d) (f .configMap c) v r
  | jobs i r w => jobs (f .job i) r w

/-- Begins the run: the informers start, or end at once where the controller is stopped. -/
def begin (stopped : Bool) : Controller → Controller :=
  mapInformers fun _ i => if stopped then i.stop else i.start

/-- Something is delivered to the open watches of a kind. -/
def receive (kind : Kind) (d : Delivery Object) : Controller → Controller :=
  mapInformers fun k i => if k = kind then i.receive d else i

/-- A move of an informer that hands its events to nobody. -/
def driveSilently? (kind : Kind) (n : String) (stopped : Bool) (i : Informer Object) (s : Site) :
    Option (Site × Informer Object) :=
  if stopped then if i.isLive then some (s, i.stop) else none
  else (s.drive? kind n i).map fun (s, i, _) => (s, i)

/-- A move of the restarts under way in a namespace; nothing remains of them when they are done. -/
def moveRestarts? (n : String) (known : Cache Object) (r : Restarting) (s : Site) :
    Option (Site × Option Restarting) :=
  match s.over? r.wait with
  | none => none
  | some reply =>
    let s := match reply with
      | .accepted => s
      | _ => s.report [.patchFailed .configMap n]
    match r.deployments with
    | [] => some (s, none)
    | name :: rest =>
      let r := { r with deployments := rest, wait := .ready }
      match ConfigMaps.measure (known.get? name).isSome name with
      | .reportMissing _ => some (s.report [.deploymentMissing r.configMap n name], some r)
      | .restart _ =>
        let time : Time.Instant := { seconds := s.now.millis / 1000, nanos := 0 }
        let (s, wait) := s.write { verb := .patch, kind := .deployment, namespaceName := n, name }
          (.patch (.restart time))
        some (s, some { r with wait })

/-- The restarts that an event of a config map calls for, with what is to be reported. -/
def restartsFor (v : ConfigMaps.Versions) (e : Event Object) :
    ConfigMaps.Versions × Option Restarting × List Notice :=
  let observe (e : Event Kubernetes.ConfigMap) :
      ConfigMaps.Versions × Option Restarting × List Notice :=
    match v.observe e with
    | (v, none) => (v, none, [])
    | (v, some c) =>
      (v, some { configMap := c.name, deployments := ConfigMaps.deployments c },
        (ConfigMaps.annotationNotice? c).toList)
  let about (k : Kubernetes.ConfigMap → Event Kubernetes.ConfigMap) (o : Object) :
      ConfigMaps.Versions × Option Restarting × List Notice :=
    match o.configMap? with
    | some c => observe (k c)
    | none => (v, none, [])
  match e with
  | .listing => observe .listing
  | .listEnd => observe .listEnd
  | .listed o => about .listed o
  | .applied o => about .applied o
  | .deleted o => about .deleted o

/-- A move of the rerun of a name; the table tells what each rerun waits for. -/
def moveRerun? (n name : String) (t : Rerun.Task) (r : Rerun.Reruns) (waits : Table Wait)
    (s : Site) : Option (Site × Rerun.Reruns × Table Wait) :=
  let send (verb : Verb) (content : Content) : Site × Rerun.Reruns × Table Wait :=
    let (s, wait) := s.write { verb, kind := .job, namespaceName := n, name } content
    (s, r, waits.insert name wait)
  match waits.lookup name with
  | none =>
    match t.stage with
    | .deleting => some (send .delete .deletion)
    | .creating _ => some (send .create (.job (Rerun.copy t.job)))
    | .pausing _ => some (s, r, waits.insert name (.pause (s.now.afterWait Rerun.pause)))
  | some wait =>
    match s.over? wait with
    | none => none
    | some reply =>
      let waits := waits.erase name
      match t.stage.next (reply = .accepted) with
      | .goesOn stage => some (s, r.moveTo name stage, waits)
      | .succeeded => some (s, r.finish name, waits)
      | .failed =>
        let ownNamespace := t.job.metadata.namespaceName.getD ""
        some (s.report [.rerunFailed ownNamespace name], r.finish name, waits)

/-- A move of the first rerun that can move. -/
def moveReruns? (n : String) (r : Rerun.Reruns) (waits : Table Wait) (s : Site) :
    Option (Site × Rerun.Reruns × Table Wait) :=
  r.tasks.findSome? fun (name, t) => moveRerun? n name t r waits s

/-- One move of a controller of a namespace, if it can move. -/
def move? (n : String) (stopped : Bool) (s : Site) : Controller → Option (Site × Controller)
  | deployments i =>
    (driveSilently? .deployment n stopped i s).map fun (s, i) => (s, deployments i)
  | configMaps d c v (some r) =>
    match driveSilently? .deployment n stopped d s with
    | some (s, d) => some (s, configMaps d c v (some r))
    | none => (moveRestarts? n d.cache r s).map fun (s, r) => (s, configMaps d c v r)
  | configMaps d c v none =>
    match driveSilently? .deployment n stopped d s with
    | some (s, d) => some (s, configMaps d c v none)
    | none =>
      if stopped then if c.isLive then some (s, configMaps d c.stop v none) else none
      else
        match s.drive? .configMap n c with
        | none => none
        | some (s, c, none) => some (s, configMaps d c v none)
        | some (s, c, some e) =>
          let (v, r, notices) := restartsFor v e
          some (s.report notices, configMaps d c v r)
  | jobs i r w =>
    match driveSilently? .job n stopped i s with
    | some (s, i) => some (s, jobs i r w)
    | none => (moveReruns? n r w s).map fun (s, r, w) => (s, jobs i r w)

/-- When the controller goes on by itself, as far as it waits for a moment. -/
def dues (now : Moment) (c : Controller) : List Moment :=
  c.informers.filterMap (·.2.due? now) ++
    match c with
    | deployments _ | configMaps _ _ _ none => []
    | configMaps _ _ _ (some r) => r.wait.due?.toList
    | jobs _ _ waits => waits.filterMap fun (_, w) => w.due?

end Controller

end ImageRollout.Cluster
