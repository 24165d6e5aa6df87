import ImageRollout.Image.Reference
import ImageRollout.Kubernetes.Deployment
import ImageRollout.Notice
import ImageRollout.TagSource.Basic

/-!
# Pinning images

A new deployment gets the latest tags of its images: every container, first the init containers,
whose image resolves to another tag than it has is given that tag.  An image that does not resolve
stays as it is.
-/

namespace ImageRollout.Admission

open Kubernetes

/-- Finds the latest tag for a host, a project and a repository. -/
abbrev Resolver := String → String → String → Except TagSource.Failure String

/-- The latest tag of a reference's image. -/
def latestTag (resolve : Resolver) (r : Image.Reference) : Except TagSource.Failure String :=
  resolve r.hostOrEmpty r.projectOrEmpty r.repo

/-- The image under its latest tag, if that is not the one it has. -/
def pinned? (resolve : Resolver) (image : String) : Option String :=
  let r := Image.Reference.parse image
  match latestTag resolve r with
  | .ok latest => if latest = r.tag then none else some (r.withTag latest).text
  | .error _ => none

/-- A text of the deployment that is to be replaced. -/
structure Replacement where
  /-- The keys and positions that lead to the text. -/
  path : List String
  value : String
  deriving DecidableEq, Repr

namespace Replacement

/-- The path as a pointer into a document. -/
def pointer (r : Replacement) : String := String.join (r.path.map ("/" ++ ·))

/-- The replacement as an operation of a JSON patch. -/
def toJson (r : Replacement) : Json :=
  .obj [("op", .str "replace"), ("path", .str r.pointer), ("value", .str r.value)]

end Replacement

/-- The path to the image of a container. -/
def imagePath (field : String) (index : Nat) : List String :=
  ["spec", "template", "spec", field, toString index, "image"]

/-- The replacement for a container. -/
def replacement? (resolve : Resolver) (field : String) (index : Nat) (c : Container) :
    Option Replacement :=
  (c.image.bind (pinned? resolve)).map fun value => { path := imagePath field index, value }

/-- The replacements for a list of containers. -/
def containerReplacements (resolve : Resolver) (field : String) (containers : List Container) :
    List Replacement :=
  containers.zipIdx.filterMap fun (c, index) => replacement? resolve field index c

/-- The replacements for a pod specification. -/
def podReplacements (resolve : Resolver) (spec : PodSpec) : List Replacement :=
  containerReplacements resolve "initContainers" (spec.initContainers.getD []) ++
    containerReplacements resolve "containers" spec.containers

/-- The replacements that pin a deployment's images. -/
def replacements (resolve : Resolver) (d : Deployment) : List Replacement :=
  match d.podSpec? with
  | some spec => podReplacements resolve spec
  | none => []

/-- What is to be reported about an image: that it does not resolve, unless the repository is
simply not known. -/
def unresolvedNotice? (resolve : Resolver) (image : String) : Option Notice :=
  match latestTag resolve (Image.Reference.parse image) with
  | .ok _ | .error (.repoNotFound ..) => none
  | .error failure => some (.tagUnresolved image failure.message)

/-- What is to be reported about a deployment's images. -/
def unresolvedNotices (resolve : Resolver) (d : Deployment) : List Notice :=
  match d.podSpec? with
  | some spec =>
    (spec.initContainers.getD [] ++ spec.containers).filterMap fun c =>
      c.image.bind (unresolvedNotice? resolve)
  | none => []

end ImageRollout.Admission
