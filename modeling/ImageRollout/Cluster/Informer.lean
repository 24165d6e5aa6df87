import ImageRollout.Cluster.Moment
import ImageRollout.Cluster.Server
import ImageRollout.Watch.Cache

/-!
# Informers

An informer keeps a cache: it lists the objects, watches from there on, and hands out every event
once the cache has followed it.  When a watch ends it opens the next one, and when a watch has
expired it lists again; after a failure it rests, longer each time until something works again.
-/

namespace ImageRollout.Cluster

open Watch

/-- What an open watch delivers. -/
inductive Delivery (α : Type) where
  | changed (object : α)
  | removed (object : α)
  /-- The watch ends. -/
  | closed
  /-- The watch cannot be continued. -/
  | expired

/-- What an informer is at. -/
inductive Link (α : Type) where
  | off
  /-- A list is to be asked for. -/
  | toList
  /-- A list was asked for; refused if it holds nothing. -/
  | listing (due : Moment) (objects : Option (List α))
  /-- A watch is to be asked for. -/
  | toWatch
  /-- A watch was asked for. -/
  | opening (due : Moment) (accepted : Bool)
  /-- A watch is open, and has delivered this. -/
  | watching (inbox : List (Delivery α))
  /-- A pause after a failure, before a list or a watch is asked for. -/
  | resting (wake : Moment) (relist : Bool)
  /-- A request is not answered. -/
  | silent
  | ended

/-- An informer. -/
structure Informer (α : Type) where
  cache : Cache α := {}
  link : Link α := .off
  /-- Events that are to be handed out. -/
  events : List (Event α) := []
  /-- How many failures there were since something worked. -/
  failures : Nat := 0

namespace Informer

variable {α : Type}

/-- How long an informer rests after so many failures before this one, in milliseconds. -/
def rest (failures : Nat) : Nat := min (800 * Nat.pow 2 failures) 30000

/-- Begins to list. -/
def relist (i : Informer α) : Informer α := { i with events := [.listing], link := .toList }

/-- Rests after a failure. -/
def fail (now : Moment) (relist : Bool) (i : Informer α) : Informer α :=
  { i with link := .resting (now.afterWait (rest i.failures)) relist, failures := i.failures + 1 }

/-- Starts an informer that was never started; any other stays as it is. -/
def start (i : Informer α) : Informer α :=
  match i.link with
  | .off => i.relist
  | _ => i

/-- Whether the informer was started. -/
def isStarted (i : Informer α) : Bool :=
  match i.link with
  | .off => false
  | _ => true

/-- Whether the informer is at work. -/
def isLive (i : Informer α) : Bool :=
  match i.link with
  | .off | .ended => false
  | _ => true

/-- Whether the informer has an open watch. -/
def isWatching (i : Informer α) : Bool :=
  match i.link with
  | .watching _ => true
  | _ => false

/-- Ends the informer for good. -/
def stop (i : Informer α) : Informer α := { i with link := .ended, events := [] }

/-- A delivery comes in, if a watch is open. -/
def receive (d : Delivery α) (i : Informer α) : Informer α :=
  match i.link with
  | .watching inbox => { i with link := .watching (inbox ++ [d]) }
  | _ => i

/-- What an informer does next. -/
inductive Move (α : Type) where
  /-- It hands out an event. -/
  | hand (event : Event α) (next : Informer α)
  /-- It asks for a list or a watch. -/
  | ask (verb : Verb)
  | go (next : Informer α)
  /-- It waits, until a moment if one is given. -/
  | wait (wake : Option Moment)

/-- Hands out an event, which the cache follows. -/
def handOut (name : α → String) (e : Event α) (i : Informer α) : Move α :=
  .hand e { i with cache := i.cache.observe name e, failures := 0 }

/-- What the informer does next. -/
def move (name : α → String) (now : Moment) (i : Informer α) : Move α :=
  let dueBy (m : Moment) (next : Informer α) : Move α :=
    if now.before m then .wait (some m) else .go next
  match i.events with
  | e :: rest => { i with events := rest }.handOut name e
  | [] =>
    match i.link with
    | .off | .silent | .ended => .wait none
    | .toList => .ask .list
    | .toWatch => .ask .watch
    | .listing due none => dueBy due (i.fail now true)
    | .listing due (some objects) =>
      dueBy due { i with events := objects.map .listed ++ [.listEnd], link := .toWatch }
    | .opening due false => dueBy due (i.fail now false)
    | .opening due true => dueBy due { i with link := .watching [] }
    | .watching [] => .wait none
    | .watching (.changed a :: inbox) =>
      { i with link := .watching inbox }.handOut name (.applied a)
    | .watching (.removed a :: inbox) =>
      { i with link := .watching inbox }.handOut name (.deleted a)
    | .watching (.closed :: _) => .go { i with link := .toWatch }
    | .watching (.expired :: _) => .go (i.fail now true)
    | .resting wake true => dueBy wake i.relist
    | .resting wake false => dueBy wake { i with link := .toWatch }

/-- The informer has asked for a list or a watch, and this is what it gets. -/
def asked (verb : Verb) (due : Moment) (reply : Reply) (objects : List α) (i : Informer α) :
    Informer α :=
  match reply, verb with
  | .silence, _ => { i with link := .silent }
  | .accepted, .list => { i with link := .listing due (some objects) }
  | .refused _, .list => { i with link := .listing due none }
  | .accepted, _ => { i with link := .opening due true }
  | .refused _, _ => { i with link := .opening due false }

end Informer

end ImageRollout.Cluster
