import ImageRollout.Admission.Request
import ImageRollout.Json.Reader

/-!
# Admission reviews

A review is an object of some version and kind that carries a request.  It may carry an answer
already, which is not looked at but must read; whatever else it carries must be fit to be kept.
-/

namespace ImageRollout.Admission

/-- A review. -/
structure Review where
  apiVersion : String
  kind : String
  request : Option Request

/-- Why a body carries no request. -/
inductive Invalid where
  | undecodable
  | noRequest
  deriving DecidableEq, Repr

/-- The reason in words. -/
def Invalid.message : Invalid → String
  | undecodable => "Failed to decode admission review: the body is no review of a deployment"
  | noRequest =>
    "Admission review carries no request: " ++
      "failed to convert AdmissionReview into AdmissionRequest"

/-- Whether the causes of a failure read. -/
def readsCause (v : Json) : Option Unit := do
  for slot in ← v.slots? ["reason", "message", "field"] do
    let _ ← slot.orElse "" Json.text?

/-- Whether the details of a failure read. -/
def readsDetails (v : Json) : Option Unit := do
  let [name, group, kind, uid, causes, retry] ← v.slots?
    ["name", "group", "kind", "uid", "causes", "retryAfterSeconds"] | none
  for slot in [name, group, kind, uid] do
    let _ ← slot.orElse "" Json.text?
  let _ ← causes.orElse [] (Json.listOf? readsCause)
  let _ ← retry.orElse 0 (Json.intWithin? 0 4294967295)

/-- Whether the status of an answer reads. -/
def readsStatus (v : Json) : Option Unit := do
  let [status, message, reason, details, code] ← v.slots?
    ["status", "message", "reason", "details", "code"] | none
  let _ ← status.orNothing fun v => match v.text? with
    | some "Success" | some "Failure" => some ()
    | _ => none
  let _ ← message.orElse "" Json.text?
  let _ ← reason.orElse "" Json.text?
  let _ ← details.orNothing readsDetails
  let _ ← code.orElse 0 (Json.intWithin? 0 65535)

/-- Whether an answer reads. -/
def readsAnswer (v : Json) : Option Unit := do
  let [uid, allowed, status, patch, patchType, auditKeys, warnings] ← v.slots?
    ["uid", "allowed", "status", "patch", "patchType", "auditAnnotations", "warnings"] | none
  let _ ← uid.required Json.text?
  let _ ← allowed.required Json.bool?
  let _ ← status.required readsStatus
  let _ ← patch.optional (Json.listOf? (Json.intWithin? 0 255))
  let _ ← patchType.optional fun v => if v.text? == some "JSONPatch" then some () else none
  let _ ← auditKeys.orElse [] Kubernetes.TextMap.ofJson?
  let _ ← warnings.orNothing (Json.listOf? Json.text?)

/-- The review that a document holds. -/
def Review.ofJson? (v : Json) : Option Review := do
  let members ← v.members?
  let levels := Json.depthLimit - 1
  let slot := Json.slotIn? members
  let others := members.filter fun m => m.1 ∉ ["apiVersion", "kind", "request", "response"]
  if !others.all fun m => m.2.canKeep levels then none
  let _ ← (← slot "response").orNothing readsAnswer
  return {
    apiVersion := ← (← slot "apiVersion").required Json.text?
    kind := ← (← slot "kind").required Json.text?
    request := ← (← slot "request").orNothing (Request.read? levels) }

/-- The review in a body together with its request. -/
def decode (body : List UInt8) : Except Invalid (Review × Request) :=
  match (Json.parse? body).bind Review.ofJson? with
  | none => .error .undecodable
  | some review =>
    match review.request with
    | none => .error .noRequest
    | some request => .ok (review, request)

end ImageRollout.Admission
