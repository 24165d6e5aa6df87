import ImageRollout.Notice

/-!
# The push bus

Pushes are collected into a queue of limited length and dispatched one after the other: each one is
offered to all handlers in turn before the next one is taken.  A handler that fails is reported and
takes the push away from no other handler.

To collect a push is a call that takes its time.  It gets a place in the queue, or waits for one
while there is none; when a place becomes free, the call that has waited longest has it.  A call
that has a place fills it with its push, when it comes to that, and returns.

The bus ends when it is stopped, though not before the push in hand is through, or when nothing is
left to dispatch and nobody is left to collect.  From then on pushes are dropped: those in the queue
without a word, those of calls that are under way or come later with a notice.
-/

namespace ImageRollout

/-- What the dispatch is at. -/
inductive Bus.Phase (H : Type) where
  /-- The dispatch has not begun. -/
  | waiting
  /-- Nothing is in hand. -/
  | idle
  /-- A push is in hand, and these handlers are still to be done with it; the first is at work. -/
  | busy (push : Image.Push) (handlers : List H)
  /-- The dispatch has ended. -/
  | ended

/-- A call to collect a push.  A collector makes one call after the other. -/
structure Bus.Call where
  collector : Nat
  push : Image.Push
  deriving DecidableEq, Repr

/-- A bus with handlers in the order of their registration. -/
structure Bus (H : Type) where
  capacity : Nat
  handlers : List H := []
  queue : List Image.Push := []
  /-- The calls that have a place in the queue and are still to fill it, in the order in which they
  asked for one. -/
  placed : List Bus.Call := []
  /-- The calls that wait for a place, in order. -/
  waiting : List Bus.Call := []
  phase : Bus.Phase H := .waiting
  stopped : Bool := false
  /-- Whether anybody can begin to collect any more. -/
  collecting : Bool := true
  /-- Whether the queue takes no more pushes. -/
  closed : Bool := false

namespace Bus

variable {H : Type}

/-- The longest queue there can be. -/
def maxCapacity : Nat := 2305843009213693951

/-- A bus of the capacity, if there can be one. -/
def make? (capacity : Nat) (handlers : List H) : Option (Bus H) :=
  if 0 < capacity ∧ capacity ≤ maxCapacity then some { capacity, handlers } else none

section Calls

/-- The calls that are under way. -/
def underWay (b : Bus H) : List Call := b.placed ++ b.waiting

/-- The pushes of the calls that are under way. -/
def pending (b : Bus H) : List Image.Push := b.underWay.map (·.push)

/-- Whether a collector has a call under way. -/
def isCalling (collector : Nat) (b : Bus H) : Bool := b.underWay.any (·.collector = collector)

/-- How many places are taken, by pushes or by calls. -/
def taken (b : Bus H) : Nat := b.queue.length + b.placed.length

/-- Gives places to waiting calls while there are free ones. -/
def givePlaces (b : Bus H) : Bus H :=
  let free := b.capacity - b.taken
  { b with placed := b.placed ++ b.waiting.take free, waiting := b.waiting.drop free }

/-- A call begins; it returns at once if the queue is closed. -/
def call (c : Call) (b : Bus H) : Bus H × List Notice :=
  if b.closed then (b, [.pushDropped c.push])
  else (givePlaces { b with waiting := b.waiting ++ [c] }, [])

/-- A call that has a place fills it, and returns. -/
def fill (c : Call) (b : Bus H) : Bus H :=
  { b with queue := b.queue ++ [c.push], placed := b.placed.erase c }

/-- A call finds the queue closed, and returns. -/
def refuse (c : Call) (b : Bus H) : Bus H × List Notice :=
  ({ b with placed := b.placed.erase c, waiting := b.waiting.erase c }, [.pushDropped c.push])

/-- The first call that can return does, if there is one. -/
def return? (b : Bus H) : Option (Bus H × List Notice) :=
  if b.closed then b.underWay.head?.map b.refuse
  else b.placed.head?.map fun c => (b.fill c, [])

/-- The least number above some others. -/
def above (numbers : List Nat) : Nat := (numbers.map (· + 1)).foldr max 0

/-- A collector that has no call under way. -/
def newCollector (b : Bus H) : Nat := above (b.underWay.map (·.collector))

/-- Somebody who has nothing else to do begins to collect a push. -/
def collect (push : Image.Push) (b : Bus H) : Bus H × List Notice :=
  if b.collecting then b.call { collector := b.newCollector, push } else (b, [])

/-- Lets go of the last collector that could begin a call. -/
def endCollecting (b : Bus H) : Bus H := { b with collecting := false }

end Calls

section Dispatch

/-- Closes the queue, which drops what it holds.  The calls under way are yet to find out. -/
def close (b : Bus H) : Bus H := { b with queue := [], closed := true }

/-- Begins the dispatch, unless the bus was dropped. -/
def start (b : Bus H) : Bus H :=
  match b.phase with
  | .waiting => if b.closed then b else { b with phase := .idle }
  | _ => b

/-- Drops a bus whose dispatch has not begun, about which there is nothing to report. -/
def discard (b : Bus H) : Bus H × List Notice :=
  match b.phase with
  | .waiting => (b.close, [])
  | _ => (b, [])

/-- Asks the dispatch to end. -/
def stop (b : Bus H) : Bus H := { b with stopped := true }

/-- Ends the dispatch. -/
def finish (b : Bus H) : Bus H := { b with phase := .ended }.close

/-- Whether no push can come any more: nobody begins to collect, and no call is under way. -/
def isDeserted (b : Bus H) : Bool := !b.collecting && b.underWay.isEmpty

/-- One move of the dispatch, if it can move by itself: the end takes precedence over the next
push. -/
def advance? (b : Bus H) : Option (Bus H) :=
  match b.phase with
  | .idle =>
    if b.stopped then some b.finish
    else match b.queue with
      | push :: queue => some (givePlaces { b with queue, phase := .busy push b.handlers })
      | [] => if b.isDeserted then some b.finish else none
  | .busy _ [] => some { b with phase := .idle }
  | _ => none

end Dispatch

/-- How a handler is done with a push. -/
inductive Outcome where
  | done
  | failed (cause : String)

/-- What a failing handler throws: a text, or something that cannot be told. -/
inductive Payload where
  | text (message : String)
  | other
  deriving DecidableEq, Repr

/-- A payload in words. -/
def Payload.message : Payload → String
  | text message => message
  | other => "unknown panic"

/-- How a handler's work on a push ends: it returns, it fails before there is anything to wait for,
or it fails in the course of its work. -/
inductive Ending where
  | returned
  | failedAtOnce (payload : Payload)
  | failedLater (payload : Payload)
  deriving DecidableEq, Repr

/-- Both kinds of failure are caught, and are told by what was thrown. -/
def Ending.outcome : Ending → Outcome
  | returned => .done
  | failedAtOnce payload | failedLater payload => .failed payload.message

/-- What is to be reported about a handler. -/
def Outcome.notices (push : Image.Push) : Outcome → List Notice
  | done => []
  | failed cause => [.handlerFailed push cause]

/-- The handler at work is done with the push in hand. -/
def handled (outcome : Outcome) (b : Bus H) : Bus H × List Notice :=
  match b.phase with
  | .busy push (_ :: rest) => ({ b with phase := .busy push rest }, outcome.notices push)
  | _ => (b, [])

/-- Whether the dispatch goes on, once it has begun. -/
def running? (b : Bus H) : Option Bool :=
  match b.phase with
  | .waiting => none
  | .ended => some false
  | _ => some true

end Bus

end ImageRollout
