import ImageRollout.Admission.Pinning
import ImageRollout.Admission.Review
import ImageRollout.Json.Printer

/-!
# Answers to admission reviews

Whatever a review asks for is allowed, so that nothing here ever keeps a deployment from being
stored; a new deployment's images are pinned along the way.  Only a body that carries no request is
refused, since there is nothing to allow.
-/

namespace ImageRollout.Admission

/-- An answer to a review. -/
inductive Answer where
  /-- The request is allowed with replacements. -/
  | allowed (apiVersion kind uid : String) (replacements : List Replacement)
  | invalid (cause : Invalid)

/-- The replacements that a request's deployment gets: none unless it is being created. -/
def Request.replacements (resolve : Resolver) (r : Request) : List Replacement :=
  match r.operation, r.object with
  | .create, some d => Admission.replacements resolve d
  | _, _ => []

/-- What is to be reported about a request's deployment. -/
def Request.notices (resolve : Resolver) (r : Request) : List Notice :=
  match r.operation, r.object with
  | .create, some d => unresolvedNotices resolve d
  | _, _ => []

/-- The answer to a body. -/
def answer (resolve : Resolver) (body : List UInt8) : Answer :=
  match decode body with
  | .error cause => .invalid cause
  | .ok (review, request) =>
    .allowed review.apiVersion review.kind request.uid (request.replacements resolve)

/-- What is to be reported about a body. -/
def notices (resolve : Resolver) (body : List UInt8) : List Notice :=
  match decode body with
  | .error _ => []
  | .ok (_, request) => request.notices resolve

/-- The bytes of a document as an array of numbers. -/
def byteArray (v : Json) : Json := .arr ((Text.toUtf8 v.render).map fun b => .int b.toNat)

/-- The part of an answer that carries replacements: nothing where there are none. -/
def patchMembers : List Replacement → List (String × Json)
  | [] => []
  | replacements =>
    [("patch", byteArray (.arr (replacements.map Replacement.toJson))),
      ("patchType", .str "JSONPatch")]

/-- An answer's review. -/
def reviewJson (apiVersion kind : String) (response : List (String × Json)) : Json :=
  .obj [("apiVersion", .str apiVersion), ("kind", .str kind), ("response", .obj response)]

/-- The answer as a document. -/
def Answer.toJson : Answer → Json
  | allowed apiVersion kind uid replacements =>
    reviewJson apiVersion kind ([("uid", .str uid), ("allowed", .bool true),
      ("status", .obj [])] ++ patchMembers replacements)
  | invalid cause =>
    reviewJson "admission.k8s.io/v1beta1" "AdmissionReview" [("uid", .str ""),
      ("allowed", .bool false),
      ("status", .obj [("status", .str "Failure"), ("message", .str cause.message),
        ("reason", .str "InvalidRequest")])]

end ImageRollout.Admission
