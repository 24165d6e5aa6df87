import ImageRollout.Table

/-!
# Registered controllers

The controllers that every managed namespace gets, by the name of their kind and in the order of
their registration.  A kind is registered once.
-/

namespace ImageRollout.Controllers

/-- The kinds of controllers there are. -/
def kinds : List String := ["deployment", "configmap", "job"]

/-- Why a kind is not registered. -/
inductive Refusal where
  | unknown (kind : String)
  | duplicate (kind : String)
  deriving DecidableEq, Repr

/-- The refusal in words. -/
def Refusal.message : Refusal → String
  | unknown kind => "Unknown controller " ++ kind
  | duplicate kind => "Controller kind " ++ kind ++ " is already registered"

/-- How the controllers of each kind are made, in order of registration. -/
structure Registry (α : Type) where
  entries : List (String × α) := []

namespace Registry

variable {α : Type}

/-- The registered kinds. -/
def registered (r : Registry α) : List String := r.entries.map (·.1)

/-- Registers a kind, unless it is registered. -/
def register (kind : String) (maker : α) (r : Registry α) : Except Refusal (Registry α) :=
  if kind ∈ r.registered then .error (.duplicate kind)
  else .ok { entries := r.entries ++ [(kind, maker)] }

/-- Registers the kinds of a list one after the other, up to the first refusal. -/
def registerAll (maker? : String → Option α) : List String → Registry α →
    Except Refusal (Registry α)
  | [], r => .ok r
  | kind :: rest, r =>
    match maker? kind with
    | none => .error (.unknown kind)
    | some maker =>
      match r.register kind maker with
      | .error e => .error e
      | .ok r => registerAll maker? rest r

/-- The registry of the kinds that a configuration lists. -/
def ofKinds (maker? : String → Option α) (kinds : List String) : Except Refusal (Registry α) :=
  registerAll maker? kinds {}

end Registry

end ImageRollout.Controllers
