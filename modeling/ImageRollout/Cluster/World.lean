import ImageRollout.Bus
import ImageRollout.Cluster.Controller
import ImageRollout.Controllers.Fleet
import ImageRollout.Http.Handling
import ImageRollout.TagSource.Basic

/-!
# The whole program

Everything that runs, side by side: the requests to the web server, which collect pushes; the watch
on namespaces, which starts and stops teams; the bus, whose only handler gives every push to the
members of all managed teams in turn; the runs of the teams; and the controllers.  A push is given
out as a whole before any team starts or stops.

A run is made of moves, each by the first part that can move.  When no part can, the moment advances
to the next one that a part waits for.
-/

namespace ImageRollout.Cluster

open Controllers Watch

/-- A push that is being given out. -/
structure Handout where
  push : Image.Push
  /-- Who is still to get the push: namespaces and kinds. -/
  audience : List (String × String)
  /-- The namespace whose deployments are being moved, and what is still to be done there. -/
  namespaceName : String := ""
  plans : List Rollout.Plan := []
  wait : Wait := .ready

/-- The program and its surroundings. -/
structure World where
  site : Site := {}
  registry : Registry (String → Except String Controller)
  fleet : Fleet Controller := {}
  namespaces : Informer Object := {}
  tracker : Namespaces.Tracker := {}
  /-- Changes of namespaces that are still to be seen to. -/
  changes : List Namespaces.Notification := []
  /-- Whether the watch on namespaces goes on. -/
  watchingNamespaces : Bool := true
  bus : Bus Unit
  handout : Option Handout := none
  /-- The requests that are being handled. -/
  handlings : List Http.Handling := []

namespace World

/-- The moment that has come. -/
def now (w : World) : Moment := w.site.now

/-- Reports. -/
def report (notices : List Notice) (w : World) : World :=
  { w with site := w.site.report notices }

/-- Whether everything was stopped. -/
def isStopped (w : World) : Bool := w.fleet.stopped

section Requests

/-- The call that is made in a move of a handling, if one is, begins. -/
def makeCall (b : Bus Unit) : Option Bus.Call → Bus Unit × List Notice
  | some c => b.call c
  | none => (b, [])

/-- A move of the first of a list of handlings that can move. -/
def moveHandlings? (b : Bus Unit) :
    List Http.Handling → Option (List Http.Handling × Bus Unit × List Notice)
  | [] => none
  | h :: rest =>
    match h.next? (b.isCalling h.collector) with
    | some (h, c?) => some (h :: rest, makeCall b c?)
    | none => (moveHandlings? b rest).map fun (rest, m) => (h :: rest, m)

/-- A move of a call to collect that can return, or else of a request that is being handled. -/
def moveRequests? (w : World) : Option World :=
  match w.bus.return? with
  | some (bus, notices) => some ({ w with bus }.report notices)
  | none => (moveHandlings? w.bus w.handlings).map fun (handlings, bus, notices) =>
      { w with handlings, bus }.report notices

end Requests

section Namespaces

/-- The changes that an event of a namespace amounts to. -/
def changesFor (t : Namespaces.Tracker) (e : Event Object) :
    Namespaces.Tracker × List Namespaces.Notification :=
  let about (k : Kubernetes.Namespace → Event Kubernetes.Namespace) (o : Object) :
      Namespaces.Tracker × List Namespaces.Notification :=
    match o.namespace? with
    | some n => t.observe (k n)
    | none => (t, [])
  match e with
  | .listing => t.observe .listing
  | .listEnd => t.observe .listEnd
  | .listed o => about .listed o
  | .applied o => about .applied o
  | .deleted o => about .deleted o

/-- Does what a change of a namespace demands. -/
def seeTo (change : Namespaces.Notification) (w : World) : World :=
  let (fleet, deeds) := w.fleet.sync Controller.conduct w.registry change
  { w with fleet }.report (deeds.filterMap Deed.notice?)

/-- Ends the watch on namespaces, and with it all teams. -/
def endNamespaces (w : World) : World :=
  { w with
    namespaces := w.namespaces.stop, watchingNamespaces := false
    fleet := (w.fleet.shutdown Controller.conduct).1 }

/-- A move of the watch on namespaces.  Teams start and stop only while no push is being given
out. -/
def moveNamespaces? (w : World) : Option World :=
  if !w.watchingNamespaces then none
  else match w.changes with
    | change :: rest =>
      if w.handout.isSome then none else some ({ w with changes := rest }.seeTo change)
    | [] =>
      if w.isStopped then
        if w.handout.isSome then
          if w.namespaces.isLive then some { w with namespaces := w.namespaces.stop } else none
        else some w.endNamespaces
      else match w.site.drive? .namespaces "" w.namespaces with
        | none => none
        | some (site, namespaces, none) => some { w with site, namespaces }
        | some (site, namespaces, some e) =>
          let (tracker, changes) := changesFor w.tracker e
          some { w with site, namespaces, tracker, changes }

end Namespaces

section Pushes

/-- The team of a namespace with one of its members changed. -/
def updateMember (kind : String) (f : Controller → Controller) (t : Team Controller) :
    Team Controller :=
  { t with
    members := t.members.map fun m => if m.kind = kind then { m with body := f m.body } else m }

/-- The world with a member of a managed team changed. -/
def updateManaged (n kind : String) (f : Controller → Controller) (w : World) : World :=
  { w with fleet := { w.fleet with
      managed := w.fleet.managed.map fun (k, t) =>
        (k, if k = n then updateMember kind f t else t) } }

/-- The controller of a kind in a namespace's team. -/
def controller? (n kind : String) (w : World) : Option Controller := do
  let t ← List.lookup n w.fleet.managed
  let m ← t.members.find? (·.kind = kind)
  return m.body

/-- Gives the push to the next of its audience: a controller of deployments makes plans, a
controller of jobs starts reruns, and any other ignores it. -/
def giveTo (n kind : String) (h : Handout) (w : World) : World :=
  match w.controller? n kind with
  | some (.deployments i) =>
    let known := i.cache.list.filterMap Object.deployment?
    { w with handout := some { h with namespaceName := n, plans := Rollout.plan h.push known } }
  | some (.jobs i ..) =>
    let known := i.cache.list.filterMap Object.job?
    let receive : Controller → Controller
      | .jobs i r waits => .jobs i (r.receive h.push known) waits
      | c => c
    { w with handout := some h }.updateManaged n kind receive
  | _ => { w with handout := some h }

/-- Begins to give out a push. -/
def beginHandout (push : Image.Push) (w : World) : World :=
  let audience := w.fleet.audience.map fun (n, m) => (n, m.kind)
  { w with handout := some { push, audience } }

/-- A move of the push that is being given out. -/
def moveHandout? (h : Handout) (w : World) : Option World :=
  match w.site.over? h.wait with
  | none => none
  | some reply =>
    let w := match reply with
      | .accepted => w
      | _ => w.report [.patchFailed .deployment h.namespaceName]
    match h.plans with
    | plan :: plans =>
      let request : Request :=
        { verb := .patch, kind := .deployment, namespaceName := h.namespaceName
          name := plan.deployment }
      let (site, wait) := w.site.write request (.patch plan.patch)
      some { w with site, handout := some { h with plans, wait } }
    | [] =>
      match h.audience with
      | (n, kind) :: audience => some (w.giveTo n kind { h with audience, wait := .ready })
      | [] =>
        let (bus, notices) := w.bus.handled .done
        some ({ w with bus, handout := none }.report notices)

/-- A move of the bus. -/
def moveBus? (w : World) : Option World :=
  match w.handout, w.bus.phase with
  | some h, _ => w.moveHandout? h
  | none, .busy push (_ :: _) => some (w.beginHandout push)
  | none, _ => w.bus.advance?.map fun bus => { w with bus }

end Pushes

section Teams

/-- The controllers of a team after something was done to them, with what is to be reported.  A
run that has begun starts its informers; one that is over although its caches have had no complete
list is reported. -/
def follow (allStopped : Bool) (t : Team Controller) : List Deed → Team Controller × List Notice
  | [] => (t, [])
  | .began _ kind :: rest =>
    let begin (m : Member Controller) : Member Controller :=
      if m.kind = kind then { m with body := m.body.begin (t.isStopped allStopped m) } else m
    follow allStopped { t with members := t.members.map begin } rest
  | .ended n kind :: rest =>
    let unsynced := t.members.filter fun m => m.kind = kind && !m.body.isSynced
    let (t, notices) := follow allStopped t rest
    (t, (unsynced.map fun m => .unsynced m.body.kind n) ++ notices)
  | deed :: rest =>
    let (t, notices) := follow allStopped t rest
    (t, deed.notice?.toList ++ notices)

/-- Continues the runs of a team, if any of them goes on. -/
def moveRuns? (w : World) (t : Team Controller) : Option (Team Controller × List Notice) :=
  let now := w.now.millis
  match t.settle Controller.conduct w.isStopped now now with
  | (_, []) => none
  | (t, deeds) => some (follow w.isStopped t deeds)

/-- A move of the first of a list of members that can move. -/
def moveMembers? (site : Site) (n : String) (stopped : Member Controller → Bool) :
    List (Member Controller) → Option (Site × List (Member Controller))
  | [] => none
  | m :: rest =>
    match m.body.move? n (stopped m) site with
    | some (site, body) => some (site, { m with body } :: rest)
    | none => (moveMembers? site n stopped rest).map fun (site, rest) => (site, m :: rest)

/-- A move of a team: of its runs, or else of one of its members. -/
def moveTeam? (w : World) (t : Team Controller) : Option (Site × Team Controller) :=
  match moveRuns? w t with
  | some (t, notices) => some (w.site.report notices, t)
  | none =>
    (moveMembers? w.site t.namespaceName (t.isStopped w.isStopped) t.members).map
      fun (site, members) => (site, { t with members })

/-- A move of the first of a list of managed teams that can move. -/
def moveManaged? (w : World) : Table (Team Controller) →
    Option (Site × Table (Team Controller))
  | [] => none
  | (n, t) :: rest =>
    match moveTeam? w t with
    | some (site, t) => some (site, (n, t) :: rest)
    | none => (moveManaged? w rest).map fun (site, rest) => (site, (n, t) :: rest)

/-- A move of the first of a list of teams that can move. -/
def moveRetired? (w : World) : List (Team Controller) → Option (Site × List (Team Controller))
  | [] => none
  | t :: rest =>
    match moveTeam? w t with
    | some (site, t) => some (site, t :: rest)
    | none => (moveRetired? w rest).map fun (site, rest) => (site, t :: rest)

/-- A move of a team, managed or not. -/
def moveTeams? (w : World) : Option World :=
  match moveManaged? w w.fleet.managed with
  | some (site, managed) => some { w with site, fleet := { w.fleet with managed } }
  | none => (moveRetired? w w.fleet.retired).map fun (site, retired) =>
      { w with site, fleet := { w.fleet with retired } }

end Teams

/-- One move. -/
def move? (w : World) : Option World :=
  ((w.moveRequests?.or w.moveNamespaces?).or w.moveBus?).or w.moveTeams?

/-- All teams, managed or not. -/
def allTeams (w : World) : List (Team Controller) := w.fleet.teams ++ w.fleet.retired

/-- The next moment that a part of the program waits for. -/
def nextMoment? (w : World) : Option Moment :=
  let dues := (w.namespaces.due? w.now).toList ++
    (w.handout.bind (·.wait.due?)).toList ++
    w.allTeams.flatMap fun t => t.members.flatMap (·.body.dues w.now)
  Moment.earliest? (dues.filter w.now.before)

/-- Moves until nothing can move before the deadline, at most `limit` times. -/
def settle (deadline : Nat) : Nat → World → World
  | 0, w => w
  | limit + 1, w =>
    match w.move? with
    | some w => settle deadline limit w
    | none =>
      match w.nextMoment? with
      | none => w
      | some m =>
        if m.millis < deadline then settle deadline limit { w with site := w.site.arriveAt m }
        else w

/-- Lets so many milliseconds pass. -/
def pass (millis : Nat) (w : World) : World :=
  let deadline := w.now.millis + millis
  let w := settle deadline moveLimit w
  { w with site := w.site.arriveAt ⟨deadline, 0⟩ }

section Interventions

/-- What is reported about a tag source when the program starts. -/
def sourceNotices : TagSource → List Notice
  | .unsupported => [.registryDisabled]
  | _ => []

/-- The program at its start, before a server. -/
def start (server : Server) (source : TagSource) (kinds : Registry Kind) (bus : Bus Unit) : World :=
  { site := { server, notices := sourceNotices source }
    registry :=
      { entries := kinds.entries.map fun (name, k) => (name, fun _ => Controller.ofKind k) }
    namespaces := ({} : Informer Object).start
    bus := bus.start }

/-- Something is delivered to the open watches on a kind in a namespace. -/
def deliver (kind : Kind) (n : String) (d : Delivery Object) (w : World) : World :=
  let receive (t : Team Controller) : Team Controller :=
    if t.namespaceName = n then
      { t with members := t.members.map fun m => { m with body := m.body.receive kind d } }
    else t
  if kind = .namespaces then { w with namespaces := w.namespaces.receive d }
  else { w with fleet := { w.fleet with
      managed := w.fleet.managed.map fun (k, t) => (k, receive t)
      retired := w.fleet.retired.map receive } }

/-- The world with another server. -/
def withServer (f : Server → Server) (w : World) : World :=
  { w with site := { w.site with server := f w.site.server } }

/-- An object is stored, and watches are told unless that is done quietly. -/
def apply (quiet : Bool) (o : Object) (w : World) : World :=
  let o := o.versioned "1"
  let w := w.withServer (·.store o)
  if quiet then w else w.deliver o.kind o.namespaceName (.changed o)

/-- An object is deleted if it is there, and watches are told unless that is done quietly. -/
def delete (quiet : Bool) (kind : Kind) (n name : String) (w : World) : World :=
  match w.site.server.find? kind n name with
  | none => w
  | some o =>
    let w := w.withServer (·.remove o)
    if quiet then w else w.deliver kind n (.removed o)

/-- A collector that neither has a call under way nor a request to handle. -/
def newCollector (w : World) : Nat :=
  Bus.above (w.handlings.map (·.collector) ++ w.bus.underWay.map (·.collector))

/-- Somebody begins to collect a push. -/
def collect (push : Image.Push) (w : World) : World :=
  let (bus, notices) := w.bus.call { collector := w.newCollector, push }
  { w with bus }.report notices

/-- A request comes to the web server, and its handling begins in the name of a collector. -/
def accept (resolve : Admission.Resolver) (collector : Nat) (r : Http.Request) (w : World) :
    World :=
  let h := Http.Handling.begin resolve collector r
  { w with handlings := w.handlings ++ [h] }.report (Http.notices resolve r)

/-- The response to the request that is handled in the name of a collector, once it is given. -/
def response? (collector : Nat) (w : World) : Option Http.Response :=
  (w.handlings.find? fun h => h.collector = collector && h.answered).map (·.response)

/-- Goes on until a request has its response, at most `limit` times. -/
def await (collector : Nat) : Nat → World → World
  | 0, w => w
  | limit + 1, w =>
    if (w.response? collector).isSome then w
    else
      match w.move? with
      | some w => await collector limit w
      | none =>
        match w.nextMoment? with
        | some m => await collector limit { w with site := w.site.arriveAt m }
        | none => w

/-- The request that is handled in the name of a collector is through once it has its response. -/
def dismiss (collector : Nat) (w : World) : World :=
  { w with handlings := w.handlings.filter fun h => h.collector ≠ collector || !h.answered }

/-- A request comes to the web server, and whoever sent it waits for the response. -/
def serve (resolve : Admission.Resolver) (r : Http.Request) (w : World) : World × Http.Response :=
  let collector := w.newCollector
  let w := (w.accept resolve collector r).await collector moveLimit
  (w.dismiss collector, (w.response? collector).getD .missing)

/-- Everything is asked to stop. -/
def cancel (w : World) : World := { w with fleet := w.fleet.stopAll, bus := w.bus.stop }

end Interventions

/-- The open watches: kinds and namespaces. -/
def watches (w : World) : List (Kind × String) :=
  (if w.namespaces.isWatching then [(.namespaces, "")] else []) ++
    w.allTeams.flatMap fun t => t.members.flatMap fun m =>
      (m.body.informers.filter (·.2.isWatching)).map fun (kind, _) => (kind, t.namespaceName)

end World

end ImageRollout.Cluster
