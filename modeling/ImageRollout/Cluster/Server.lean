import ImageRollout.Cluster.Moment
import ImageRollout.Cluster.Object
import ImageRollout.Rollout.Patch
import ImageRollout.Text.Names

/-!
# The API server

As much of an API server as the program deals with: it holds objects, lists them, and notes what it
is asked to write.  What is written has no effect on the objects; those change when their owners
change them.  Requests can be made to fail, or to wait for an answer for ever.
-/

namespace ImageRollout.Cluster

open Kubernetes

/-- What a request asks for. -/
inductive Verb where
  | list
  | watch
  | patch
  | create
  | delete
  deriving DecidableEq, Repr

/-- A request, as far as faults tell requests apart. -/
structure Request where
  verb : Verb
  kind : Kind
  namespaceName : String := ""
  name : String := ""
  deriving DecidableEq, Repr

/-- A disturbance: the next requests of a sort fail. -/
structure Fault where
  verb : Verb
  kind : Kind
  namespaceName : Option String := none
  name : Option String := none
  /-- How many requests are to fail yet, all where this is nothing. -/
  remaining : Option Nat := none
  /-- The status with which they fail, or nothing if they are never answered. -/
  status : Option Nat
  deriving DecidableEq, Repr

/-- Whether a fault is about a request. -/
def Fault.concerns (r : Request) (f : Fault) : Bool :=
  f.verb = r.verb && f.kind = r.kind && f.namespaceName.all (· = r.namespaceName) &&
    f.name.all (· = r.name) && f.remaining ≠ some 0

/-- What a request gets. -/
inductive Reply where
  | accepted
  | refused (status : Nat)
  /-- No answer ever comes. -/
  | silence
  deriving DecidableEq, Repr

/-- What a fault makes of a request. -/
def Fault.reply (f : Fault) : Reply :=
  match f.status with
  | some status => .refused status
  | none => .silence

/-- What is to be written. -/
inductive Content where
  | patch (p : Rollout.Patch)
  | job (j : Job)
  | deletion

/-- A request to write, and when it was made. -/
structure Write where
  request : Request
  content : Content
  time : Moment

/-- An API server. -/
structure Server where
  objects : List Object := []
  faults : List Fault := []

namespace Server

/-- Stores an object, in the place of an older version if there is one. -/
def store (o : Object) (s : Server) : Server :=
  if s.objects.any o.isSame then
    { s with objects := s.objects.map fun p => if o.isSame p then o else p }
  else { s with objects := s.objects ++ [o] }

/-- The object of a kind, a namespace and a name. -/
def find? (kind : Kind) (n name : String) (s : Server) : Option Object :=
  s.objects.find? fun o => o.kind = kind && o.namespaceName = n && o.name = name

/-- Removes an object. -/
def remove (o : Object) (s : Server) : Server :=
  { s with objects := s.objects.filter (!o.isSame ·) }

/-- The objects of a kind in a namespace, or everywhere if none is named, by name. -/
def list (kind : Kind) (n : String) (s : Server) : List Object :=
  Text.sortByKey Object.name <|
    s.objects.filter fun o => o.kind = kind && (n = "" || o.namespaceName = n)

/-- Adds a fault behind all others. -/
def disturb (f : Fault) (s : Server) : Server := { s with faults := s.faults ++ [f] }

/-- The first fault that a request meets, and the faults that are left after it. -/
def meet? (r : Request) : List Fault → Option (Fault × List Fault)
  | [] => none
  | f :: rest =>
    if f.concerns r then some (f, { f with remaining := f.remaining.map (· - 1) } :: rest)
    else (meet? r rest).map fun (g, rest) => (g, f :: rest)

/-- The reply to a request that meets no fault: only a patch needs its object. -/
def undisturbed (r : Request) (s : Server) : Reply :=
  if r.verb = .patch ∧ (s.find? r.kind r.namespaceName r.name).isNone then .refused 404
  else .accepted

/-- The reply to a request. -/
def answer (r : Request) (s : Server) : Server × Reply :=
  match meet? r s.faults with
  | some (f, faults) => ({ s with faults }, f.reply)
  | none => (s, s.undisturbed r)

end Server

end ImageRollout.Cluster
