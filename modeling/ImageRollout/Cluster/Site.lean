import ImageRollout.Cluster.Informer
import ImageRollout.Notice

/-!
# The scene of a run

What all parts of a run share: the moment, the API server, what was written and what was reported.
-/

namespace ImageRollout.Cluster

open Watch

/-- The scene of a run. -/
structure Site where
  now : Moment := ⟨0, 0⟩
  server : Server := {}
  /-- The requests made, in order. -/
  requests : List Request := []
  writes : List Write := []
  notices : List Notice := []

/-- What somebody waits for. -/
inductive Wait where
  /-- For nothing. -/
  | ready
  | reply (due : Moment) (reply : Reply)
  | pause (wake : Moment)
  deriving DecidableEq, Repr

/-- When the wait is over, unless it never is. -/
def Wait.due? : Wait → Option Moment
  | .ready | .reply _ .silence => none
  | .reply due _ => some due
  | .pause wake => some wake

/-- How many moves there may be between two interventions. -/
def moveLimit : Nat := 1000000

namespace Site

/-- The scene at another moment. -/
def arriveAt (m : Moment) (s : Site) : Site := { s with now := m }

/-- Sends a request. -/
def send (r : Request) (s : Site) : Site × Wait :=
  let (server, reply) := s.server.answer r
  ({ s with server, requests := s.requests ++ [r] }, .reply s.now.afterExchange reply)

/-- Sends a request to write. -/
def write (r : Request) (content : Content) (s : Site) : Site × Wait :=
  let noted : Site := { s with writes := s.writes ++ [{ request := r, content, time := s.now }] }
  noted.send r

/-- Reports. -/
def report (notices : List Notice) (s : Site) : Site := { s with notices := s.notices ++ notices }

/-- Whether a wait is over, and with which reply; a pause is over as if it were accepted. -/
def over? (s : Site) : Wait → Option Reply
  | .ready => some .accepted
  | .reply _ .silence => none
  | .reply due reply => if s.now.before due then none else some reply
  | .pause wake => if s.now.before wake then none else some .accepted

/-- One move of an informer on a kind in a namespace, together with the event that it hands out;
nothing if it waits. -/
def drive? (kind : Kind) (n : String) (i : Informer Object) (s : Site) :
    Option (Site × Informer Object × Option (Event Object)) :=
  match i.move Object.name s.now with
  | .hand e i => some (s, i, some e)
  | .go i => some (s, i, none)
  | .wait _ => none
  | .ask verb =>
    let request : Request := { verb, kind, namespaceName := n }
    let (server, reply) := s.server.answer request
    let objects := s.server.list kind n
    some ({ s with server, requests := s.requests ++ [request] },
      i.asked verb s.now.afterExchange reply objects, none)

end Site

/-- When an informer that waits goes on by itself. -/
def Informer.due? (now : Moment) (i : Informer Object) : Option Moment :=
  match i.move Object.name now with
  | .wait wake => wake
  | _ => none

end ImageRollout.Cluster
