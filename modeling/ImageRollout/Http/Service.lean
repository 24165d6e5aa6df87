import ImageRollout.Admission.Answer
import ImageRollout.Notification.Report

/-!
# The web service

Two probes, two addresses to which registries post what was pushed, and one at which the API server
has new deployments admitted.  A body is read up to a limit.  A notification is always answered
with success, whatever it holds, so that no registry sends it again.
-/

namespace ImageRollout.Http

/-- A request. -/
structure Request where
  method : String
  /-- The path with its query. -/
  path : String
  body : List UInt8

/-- The content of a response. -/
inductive Content where
  | empty
  | text (s : String)
  | json (v : Json)

/-- A response. -/
structure Response where
  status : Nat
  content : Content := .empty

/-- What somebody has who waits for a response that never comes. -/
def Response.missing : Response := { status := 0 }

/-- What can be asked for. -/
inductive Endpoint where
  | probe
  | harborPush
  | gitHubPush
  | admission
  deriving DecidableEq, Repr

/-- The endpoint at a path. -/
def Endpoint.at? : String → Option Endpoint
  | "/health/live" | "/health/ready" => some .probe
  | "/webhook-v1alpha1-harbor-image" => some .harborPush
  | "/webhook-v1alpha1-github-image" => some .gitHubPush
  | "/webhook-v1alpha1-pod-latest-tag" => some .admission
  | _ => none

/-- The methods that an endpoint takes. -/
def Endpoint.methods : Endpoint → List String
  | probe => ["GET", "HEAD"]
  | _ => ["POST"]

/-- The path without its query. -/
def Request.plainPath (r : Request) : String :=
  String.ofList (r.path.toList.takeWhile fun c => c ≠ '?' && c ≠ '#')

/-- How long a body may be. -/
def bodyLimit : Nat := 2097152

/-- The response to a body that is too long. -/
def tooLong : Response :=
  { status := 413, content := .text "Failed to buffer the request body: length limit exceeded" }

/-- The endpoint that a request reaches, or the response that it gets instead. -/
def Request.endpoint (r : Request) : Except Response Endpoint :=
  match Endpoint.at? r.plainPath with
  | none => .error { status := 404 }
  | some e =>
    if r.method ∉ e.methods then .error { status := 405 }
    else if e ≠ .probe ∧ bodyLimit < r.body.length then .error tooLong
    else .ok e

/-- A request reaches an endpoint of its path that takes its method and is not given too much. -/
theorem Request.endpoint_eq_ok_iff {r : Request} {e : Endpoint} :
    r.endpoint = .ok e ↔
      Endpoint.at? r.plainPath = some e ∧ r.method ∈ e.methods ∧
        (e = .probe ∨ r.body.length ≤ bodyLimit) := by
  rw [endpoint]
  cases Endpoint.at? r.plainPath with
  | none => simp
  | some found => grind

/-- The response to a request. -/
def respond (resolve : Admission.Resolver) (r : Request) : Response :=
  match r.endpoint with
  | .error response => response
  | .ok .probe => { status := 204 }
  | .ok .harborPush | .ok .gitHubPush => { status := 200 }
  | .ok .admission =>
    { status := 200, content := .json (Admission.answer resolve r.body).toJson }

/-- The pushes that a request announces, in order. -/
def pushes (r : Request) : List Image.Push :=
  match r.endpoint with
  | .ok .harborPush => Notification.Harbor.pushes r.body
  | .ok .gitHubPush => (Notification.GitHub.push? r.body).toList
  | _ => []

/-- What is to be reported about a request. -/
def notices (resolve : Admission.Resolver) (r : Request) : List Notice :=
  match r.endpoint with
  | .ok .harborPush => (Notification.Harbor.notice? r.body).toList
  | .ok .gitHubPush => (Notification.GitHub.notice? r.body).toList
  | .ok .admission => Admission.notices resolve r.body
  | _ => []

end ImageRollout.Http
