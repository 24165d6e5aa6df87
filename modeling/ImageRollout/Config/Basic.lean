import ImageRollout.Controllers.Registry
import ImageRollout.TagSource.Options
import ImageRollout.Text.Quoted

/-!
# Configuration

Everything that can be set, with the defaults, and what makes a configuration unfit to start with.
-/

namespace ImageRollout

/-- Where the web server listens. -/
structure Config.Webserver where
  host : String := "0.0.0.0"
  port : Nat := 9080
  deriving Repr

/-- A configuration. -/
structure Config where
  webserver : Config.Webserver := {}
  repository : TagSource.Options := {}
  /-- How many pushes wait for dispatch at most. -/
  capacity : Nat := 100
  /-- The controllers of every managed namespace, in the order in which they start. -/
  controllers : List String := Controllers.kinds
  deriving Repr

namespace Config

/-- What is wrong with a configuration. -/
inductive Problem where
  | repository (failure : TagSource.Failure)
  | noCapacity
  | unknownController (kind : String)
  | repeatedController (kind : String)
  deriving DecidableEq, Repr

/-- The problem in words. -/
def Problem.message : Problem → String
  | repository failure => failure.message
  | noCapacity => "eventBus.capacity must be greater than 0"
  | unknownController kind =>
    "Unknown controller " ++ kind ++ ", expected one of " ++ Text.quotedList Controllers.kinds
  | repeatedController kind => "Controller " ++ kind ++ " is listed more than once"

/-- The first problem of a list of controllers, given those before it. -/
def controllersProblem? (seen : List String) : List String → Option Problem
  | [] => none
  | kind :: rest =>
    if kind ∉ Controllers.kinds then some (.unknownController kind)
    else if kind ∈ seen then some (.repeatedController kind)
    else controllersProblem? (kind :: seen) rest

/-- The first problem of a configuration: the repository's before the bus's before the
controllers'. -/
def problem? (c : Config) : Option Problem :=
  match c.repository.validate with
  | .error failure => some (.repository failure)
  | .ok () => if c.capacity = 0 then some .noCapacity else controllersProblem? [] c.controllers

/-- Whether the configuration is fit to start with. -/
def validate (c : Config) : Except Problem Unit :=
  match c.problem? with
  | some p => .error p
  | none => .ok ()

end Config

end ImageRollout
