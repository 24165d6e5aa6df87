import ImageRollout.Image.Push
import ImageRollout.Notification.Basic

/-!
# Harbor notifications

Harbor announces the push of an artifact under the type `PUSH_ARTIFACT`, with one resource for every
tag.  Every resource that has an address is a pushed image.
-/

namespace ImageRollout.Notification.Harbor

/-- One pushed tag. -/
structure Resource where
  digest : Option String
  tag : Option String
  /-- The image as a raw reference. -/
  url : String
  deriving DecidableEq, Repr

/-- What Harbor says of a push. -/
structure Artifact where
  occurredAt : Option Int
  operator : Option String
  resources : List Resource
  repository : String
  deriving DecidableEq, Repr

/-- The resource that a JSON record holds. -/
def Resource.ofJson? (v : Json) : Option Resource := do
  let [digest, tag, url] ← v.slots? ["digest", "tag", "resource_url"] | none
  return { digest := ← digest.orNothing Json.text?, tag := ← tag.orNothing Json.text?
           url := ← url.orElse "" Json.text? }

/-- The full name in a repository's JSON record. -/
def repositoryOfJson? (v : Json) : Option String := do
  let [name] ← v.slots? ["repo_full_name"] | none
  name.orElse "" Json.text?

/-- The resources and the repository's name in an event's JSON record. -/
def eventOfJson? (v : Json) : Option (List Resource × String) := do
  let [resources, repository] ← v.slots? ["resources", "repository"] | none
  return (← resources.orElse [] (Json.listOf? Resource.ofJson?),
    ← repository.orElse "" repositoryOfJson?)

/-- The push that a JSON record describes. -/
def Artifact.ofJson? (v : Json) : Option Artifact := do
  let [occurredAt, operator, event] ← v.slots? ["occur_at", "operator", "event_data"] | none
  let occurredAt ← occurredAt.orNothing Json.int64?
  let operator ← operator.orNothing Json.text?
  let (resources, repository) ← event.orElse ([], "") eventOfJson?
  return { occurredAt, operator, resources, repository }

/-- The push that a body announces. -/
def decode (body : List UInt8) : Except Refusal Artifact :=
  Notification.decode "type" "PUSH_ARTIFACT" Artifact.ofJson? body

/-- The images of a push: one for every resource with an address, in order. -/
def Artifact.pushes (a : Artifact) : List Image.Push :=
  (a.resources.filter (·.url ≠ "")).map fun r => Image.Push.ofReference r.url

/-- The images that a body announces; a refused body announces none. -/
def pushes (body : List UInt8) : List Image.Push :=
  match decode body with
  | .ok a => a.pushes
  | .error _ => []

end ImageRollout.Notification.Harbor
