import ImageRollout.Json.Record
import ImageRollout.Table

/-!
# Options of the tag source

Where the latest tags of images come from: a fixed table for trials, a Harbor registry, or nowhere
if no registry is named.
-/

namespace ImageRollout.TagSource

/-- Why a latest tag, or the source itself, cannot be had. -/
inductive Failure where
  | repoNotFound (project repo : String)
  | hostUnsupported (host : String)
  | protocolUnsupported (protocol : String)
  /-- The request to the registry got no answer. -/
  | unreachable
  /-- The registry answered with a status that is no success. -/
  | refused (host status project repo : String)
  | undecodable
  deriving DecidableEq, Repr

namespace Failure

/-- The failure in words. -/
def message : Failure → String
  | repoNotFound project repo => "repo " ++ project ++ "/" ++ repo ++ " not found"
  | hostUnsupported host => "registry " ++ host ++ " is not supported"
  | protocolUnsupported protocol =>
    "invalid repository options: repository protocol only supports http and https, got " ++ protocol
  | unreachable => "Failed to send request to list artifacts"
  | refused host status project repo =>
    "Registry " ++ host ++ " returned error status " ++ status ++
      " while listing artifacts of " ++ project ++ "/" ++ repo
  | undecodable => "Failed to decode artifact list"

end Failure

/-- The options. -/
structure Options where
  /-- Whether tags come from `mockTags`. -/
  mock : Bool := false
  /-- Tags by `[host/][project/]repo`. -/
  mockTags : Table String := []
  host : String := ""
  protocol : String := "https"
  insecureSkipVerify : Bool := true
  apiPathPrefix : String := "/api/v2.0"
  deriving Repr

namespace Options

/-- Refuses a protocol that is not spoken. -/
def validate (o : Options) : Except Failure Unit :=
  if o.protocol = "http" ∨ o.protocol = "https" then .ok ()
  else .error (.protocolUnsupported o.protocol)

/-- The keys of the options where they are written. -/
def keys : List String :=
  ["mock", "mockTags", "host", "protocol", "insecureSkipVerify", "apiPathPrefix"]

/-- Tags by name in a JSON object; of a repeated name the last one counts. -/
def tagsOfJson? (v : Json) : Option (Table String) := do
  (← v.members?).foldlM (fun t (k, v) => v.text?.map (t.insert k ·)) []

/-- The options that a JSON record holds; what is missing has its default. -/
def ofJson? (v : Json) : Option Options := do
  let [mock, mockTags, host, protocol, insecure, path] ← v.slots? keys | none
  let d : Options := {}
  return {
    mock := ← mock.orElse d.mock Json.bool?
    mockTags := ← mockTags.orElse d.mockTags tagsOfJson?
    host := ← host.orElse d.host Json.text?
    protocol := ← protocol.orElse d.protocol Json.text?
    insecureSkipVerify := ← insecure.orElse d.insecureSkipVerify Json.bool?
    apiPathPrefix := ← path.orElse d.apiPathPrefix Json.text? }

end Options

end ImageRollout.TagSource
