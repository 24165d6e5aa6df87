import ImageRollout.Json.Kept
import ImageRollout.Json.Record
import ImageRollout.Kubernetes.Deployment

/-!
# Admission requests

Before a deployment is stored, the API server asks whether it may be, and sends along who asks for
what.  Only the request's identity, its operation and the new deployment matter here, but all of it
must read.
-/

namespace ImageRollout.Admission

open Kubernetes

/-- What is to be done to the object. -/
inductive Operation where
  | create
  | update
  | delete
  | connect
  deriving DecidableEq, Repr

/-- The operation of a name. -/
def Operation.ofName? : String → Option Operation
  | "CREATE" => some .create
  | "UPDATE" => some .update
  | "DELETE" => some .delete
  | "CONNECT" => some .connect
  | _ => none

/-- An operation is its name, or an object whose only member has that name and is null. -/
def Operation.ofJson? : Json → Option Operation
  | .str name => ofName? name
  | .obj [(name, .null)] => ofName? name
  | _ => none

/-- A request for admission. -/
structure Request where
  uid : String
  operation : Operation
  /-- The namespace of the object. -/
  namespaceName : Option String
  /-- The object as it is to be stored, if there is one. -/
  object : Option Deployment

/-- Whether a record of three texts reads. -/
def readsTriple (keys : List String) (v : Json) : Option Unit := do
  for slot in ← v.slots? keys do
    let _ ← slot.required Json.text?

/-- Whether a kind of objects reads. -/
def readsKind : Json → Option Unit := readsTriple ["group", "version", "kind"]

/-- Whether a name of a resource reads. -/
def readsResource : Json → Option Unit := readsTriple ["group", "version", "resource"]

/-- Whether the description of a user reads. -/
def readsUser (v : Json) : Option Unit := do
  let ms ← v.members?
  let texts := Json.listOf? Json.text?
  let _ ← field? ms "extra" fun v => v.members?.bind (·.mapM fun (_, v) => texts v)
  let _ ← field? ms "groups" texts
  let _ ← textField? ms "uid"
  let _ ← textField? ms "username"

/-- The value, if it can be kept in so many levels. -/
def kept? (levels : Nat) (v : Json) : Option Json := if v.canKeep levels then some v else none

/-- The request that a JSON record holds, with so many levels for the record. -/
def Request.read? (levels : Nat) (v : Json) : Option Request := do
  let [uid, kind, resource, subResource, requestKind, requestResource, requestSubResource, name,
    namespaceName, operation, userInfo, object, oldObject, dryRun, options] ← v.slots?
      ["uid", "kind", "resource", "subResource", "requestKind", "requestResource",
        "requestSubResource", "name", "namespace", "operation", "userInfo", "object", "oldObject",
        "dryRun", "options"] | none
  let deployment := Deployment.read? (levels - 1)
  let _ ← kind.required readsKind
  let _ ← resource.required readsResource
  let _ ← subResource.orNothing Json.text?
  let _ ← requestKind.orNothing readsKind
  let _ ← requestResource.orNothing readsResource
  let _ ← requestSubResource.orNothing Json.text?
  let _ ← name.orElse "" Json.text?
  let _ ← userInfo.required readsUser
  let _ ← oldObject.optional deployment
  let _ ← dryRun.orElse false Json.bool?
  let _ ← options.orNothing (kept? (levels - 1))
  return {
    uid := ← uid.required Json.text?
    operation := ← operation.required Operation.ofJson?
    namespaceName := ← namespaceName.orNothing Json.text?
    object := ← object.optional deployment }

end ImageRollout.Admission
