import ImageRollout.Image.Push
import ImageRollout.Notification.Basic

/-!
# GitHub notifications

GitHub announces a package under the action `published`.  The package is a pushed image if it is a
container that has an address.
-/

namespace ImageRollout.Notification.GitHub

/-- A published package. -/
structure Package where
  name : String
  kind : String
  version : String
  /-- The image as a raw reference, empty if there is none. -/
  url : String
  deriving DecidableEq, Repr

/-- The version and the address in a version's JSON record. -/
def versionOfJson? (v : Json) : Option (String × String) := do
  let [version, url] ← v.slots? ["version", "package_url"] | none
  return (← version.orElse "" Json.text?, ← url.orElse "" Json.text?)

/-- The package that a JSON record holds. -/
def Package.ofJson? (v : Json) : Option Package := do
  let [name, kind, version] ← v.slots? ["name", "package_type", "package_version"] | none
  let name ← name.orElse "" Json.text?
  let kind ← kind.orElse "" Json.text?
  let (version, url) ← version.orElse ("", "") versionOfJson?
  return { name, kind, version, url }

/-- The package in a notification's JSON record, if it has one. -/
def packageOfJson? (v : Json) : Option (Option Package) := do
  let [package] ← v.slots? ["package"] | none
  package.orNothing Package.ofJson?

/-- The package that a body announces. -/
def decode (body : List UInt8) : Except Refusal (Option Package) :=
  Notification.decode "action" "published" packageOfJson? body

/-- The image of a package, if it is a container with an address. -/
def Package.push? (p : Package) : Option Image.Push :=
  if p.kind = "CONTAINER" ∧ p.url ≠ "" then some (Image.Push.ofReference p.url) else none

/-- The image that a body announces; a refused body announces none. -/
def push? (body : List UInt8) : Option Image.Push :=
  match decode body with
  | .ok package => package.bind Package.push?
  | .error _ => none

end ImageRollout.Notification.GitHub
