import ImageRollout.Json.Reader
import ImageRollout.Json.Record
import ImageRollout.Time.Reader

/-!
# Artifacts of a registry

A registry lists what was pushed to a repository as artifacts with tags.  The latest tag is the
newest tag of the newest artifact; a missing time is older than every other, and of equal times
the one that is listed later counts as newer.
-/

namespace ImageRollout.TagSource

/-- A tag and when it was pushed. -/
structure Tag where
  name : String
  pushTime : Option Time.Instant
  deriving DecidableEq, Repr

/-- An artifact, when it was pushed, and its tags. -/
structure Artifact where
  pushTime : Option Time.Instant
  tags : Option (List Tag)
  deriving DecidableEq, Repr

/-- Whether one push was earlier than another. -/
def pushedBefore : Option Time.Instant → Option Time.Instant → Bool
  | none, none => false
  | none, some _ => true
  | some _, none => false
  | some a, some b => a.before b

/-- The newest of a list, the last one among equals. -/
def newest? {α : Type} (time : α → Option Time.Instant) : List α → Option α
  | [] => none
  | a :: rest =>
    match newest? time rest with
    | none => some a
    | some b => if pushedBefore (time b) (time a) then some a else some b

/-- The newest tag of the newest artifact. -/
def latestTag? (artifacts : List Artifact) : Option String := do
  let artifact ← newest? Artifact.pushTime artifacts
  let tag ← newest? Tag.pushTime (artifact.tags.getD [])
  return tag.name

/-- An instant in a JSON text. -/
def instantOfJson? (v : Json) : Option Time.Instant := v.text?.bind Time.Instant.parse?

/-- The tag that a JSON record holds. -/
def Tag.ofJson? (v : Json) : Option Tag := do
  let [name, pushTime] ← v.slots? ["name", "push_time"] | none
  return { name := ← name.required Json.text?, pushTime := ← pushTime.orNothing instantOfJson? }

/-- The artifact that a JSON record holds. -/
def Artifact.ofJson? (v : Json) : Option Artifact := do
  let [pushTime, tags] ← v.slots? ["push_time", "tags"] | none
  return {
    pushTime := ← pushTime.orNothing instantOfJson?
    tags := ← tags.orNothing (Json.listOf? Tag.ofJson?) }

/-- The artifacts in a registry's answer. -/
def artifactsOf? (body : List UInt8) : Option (List Artifact) :=
  (Json.parse? body).bind (Json.listOf? Artifact.ofJson?)

end ImageRollout.TagSource
