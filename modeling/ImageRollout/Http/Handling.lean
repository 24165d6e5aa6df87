import ImageRollout.Bus
import ImageRollout.Http.Service

/-!
# Requests that are being handled

What a request announces is collected push by push: the next call is made when the one before it has
returned, and so the handling of a request waits while the bus has no room.  The response is given
after the last call has returned.
-/

namespace ImageRollout.Http

/-- A request that is being handled. -/
structure Handling where
  /-- In whose name pushes are collected. -/
  collector : Nat
  /-- The pushes that are still to be collected, in order. -/
  pending : List Image.Push
  /-- The response that is given in the end. -/
  response : Response
  answered : Bool := false

namespace Handling

/-- The handling of a request, when it has just been read. -/
def begin (resolve : Admission.Resolver) (collector : Nat) (r : Request) : Handling :=
  { collector, pending := pushes r, response := respond resolve r }

/-- One move, with the call that is made in it: nothing while a call is under way, or when the
response has been given. -/
def next? (calling : Bool) (h : Handling) : Option (Handling × Option Bus.Call) :=
  if calling || h.answered then none
  else match h.pending with
    | push :: pending => some ({ h with pending }, some { collector := h.collector, push })
    | [] => some ({ h with answered := true }, none)

end Handling

end ImageRollout.Http
