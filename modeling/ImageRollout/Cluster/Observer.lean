import ImageRollout.Cluster.Site

/-!
# An informer by itself

An informer on one kind of object in one namespace, alone with an API server, and the handler that
it hands its events to.  A handler that fails is reported and stops nothing.
-/

namespace ImageRollout.Cluster

open Watch

/-- An informer by itself. -/
structure Observer where
  kind : Kind
  namespaceName : String
  site : Site := {}
  informer : Informer Object := {}
  /-- Whether the informer is to end. -/
  stopped : Bool := false
  /-- The events that were handed out to the handler, in order. -/
  handed : List (Event Object) := []

/-- What is to be reported once a handler was handed an event. -/
abbrev Handler := Event Object → List Notice

namespace Observer

/-- The observer once an event was handed out, to a handler if there is one. -/
def handOut (handler : Option Handler) (e : Event Object) (o : Observer) : Observer :=
  match handler with
  | some handle => { o with handed := o.handed ++ [e], site := o.site.report (handle e) }
  | none => o

/-- One move of the informer: its end takes precedence over all else. -/
def move? (handler : Option Handler) (o : Observer) : Option Observer :=
  if o.stopped && o.informer.isLive then some { o with informer := o.informer.stop }
  else match o.site.drive? o.kind o.namespaceName o.informer with
    | none => none
    | some (site, informer, none) => some { o with site, informer }
    | some (site, informer, some e) => some ({ o with site, informer }.handOut handler e)

/-- Moves until nothing can move before the deadline, at most `limit` times. -/
def settle (handler : Option Handler) (deadline : Nat) : Nat → Observer → Observer
  | 0, o => o
  | limit + 1, o =>
    match o.move? handler with
    | some o => settle handler deadline limit o
    | none =>
      match o.informer.due? o.site.now with
      | none => o
      | some m =>
        if m.millis < deadline then
          settle handler deadline limit { o with site := o.site.arriveAt m }
        else o

/-- Lets so many milliseconds pass. -/
def pass (handler : Option Handler) (millis : Nat) (o : Observer) : Observer :=
  let deadline := o.site.now.millis + millis
  let o := settle handler deadline moveLimit o
  { o with site := o.site.arriveAt ⟨deadline, 0⟩ }

/-- Starts the informer; starting it again is reported. -/
def start (o : Observer) : Observer :=
  if o.informer.isStarted then { o with site := o.site.report [.alreadyRunning o.kind] }
  else { o with informer := o.informer.start }

/-- The observer with another server. -/
def withServer (f : Server → Server) (o : Observer) : Observer :=
  { o with site := { o.site with server := f o.site.server } }

/-- Something is delivered to the open watches on a kind in a namespace. -/
def deliver (kind : Kind) (n : String) (d : Delivery Object) (o : Observer) : Observer :=
  if kind = o.kind ∧ n = o.namespaceName then { o with informer := o.informer.receive d } else o

/-- An object is stored, and watches are told unless that is done quietly. -/
def apply (quiet : Bool) (object : Object) (o : Observer) : Observer :=
  let object := object.versioned "1"
  let o := o.withServer (·.store object)
  if quiet then o else o.deliver object.kind object.namespaceName (.changed object)

/-- An object is deleted if it is there, and watches are told unless that is done quietly. -/
def delete (quiet : Bool) (kind : Kind) (n name : String) (o : Observer) : Observer :=
  match o.site.server.find? kind n name with
  | none => o
  | some object =>
    let o := o.withServer (·.remove object)
    if quiet then o else o.deliver kind n (.removed object)

/-- Whether the cache was filled once, as far as that is settled. -/
def synced? (o : Observer) : Option Bool :=
  if o.informer.cache.synced then some true else if o.stopped then some false else none

/-- Whether the cache has an object of the name in the namespace. -/
def has (n name : String) (o : Observer) : Bool :=
  (List.lookup name o.informer.cache.objects).any fun object => object.namespaceName = n

end Observer

end ImageRollout.Cluster
