/-!
# Moments

A run of the whole program is a succession of moments: so many milliseconds after its beginning, and
within a millisecond so many exchanges with the API server later.  Only waiting takes milliseconds;
an exchange takes less than any wait.
-/

namespace ImageRollout.Cluster

/-- A moment of a run. -/
structure Moment where
  millis : Nat
  exchanges : Nat
  deriving DecidableEq, Repr

namespace Moment

/-- Whether one moment is earlier than another. -/
def before (a b : Moment) : Bool :=
  a.millis < b.millis || (a.millis = b.millis && a.exchanges < b.exchanges)

/-- The moment one exchange later. -/
def afterExchange (m : Moment) : Moment := { m with exchanges := m.exchanges + 1 }

/-- The moment so many milliseconds later. -/
def afterWait (wait : Nat) (m : Moment) : Moment := { millis := m.millis + wait, exchanges := 0 }

/-- The earliest of a list of moments. -/
def earliest? : List Moment → Option Moment
  | [] => none
  | m :: rest =>
    match earliest? rest with
    | none => some m
    | some n => if n.before m then some n else some m

end Moment

end ImageRollout.Cluster
