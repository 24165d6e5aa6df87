import ImageRollout.Http.Status
import ImageRollout.TagSource.Address
import ImageRollout.TagSource.Artifact
import ImageRollout.TagSource.Path

/-!
# The tag source

Finds the most recently pushed tag of an image.  The table is asked by the parts of the image's
name that are not empty; a Harbor registry answers only for its own host, and by way of a transport
that takes a request to it.
-/

namespace ImageRollout

namespace TagSource

/-- A request to a registry. -/
structure Request where
  address : String
  accept : String
  deriving DecidableEq, Repr

/-- What comes back for a request: nothing, or a status and a body. -/
inductive Reply where
  | none
  | answer (status : Nat) (body : List UInt8)
  deriving DecidableEq, Repr

/-- What carries requests to registries. -/
abbrev Transport := Request → Reply

/-- A transport that reaches nobody. -/
def unreachable : Transport := fun _ => .none

end TagSource

/-- Where latest tags come from. -/
inductive TagSource where
  | mock (tags : Table String)
  | unsupported
  | harbor (host protocol base : String)
  deriving Repr

namespace TagSource

/-- The source that the options ask for. -/
def ofOptions (o : Options) : Except Failure TagSource :=
  match o.validate with
  | .error f => .error f
  | .ok () =>
    if o.mock then .ok (.mock o.mockTags)
    else if o.host = "" then .ok .unsupported
    else .ok (.harbor o.host o.protocol o.base)

/-- The name under which the table has an image. -/
def mockKey (host project repo : String) : String :=
  String.intercalate "/" ([host, project, repo].filter (· ≠ ""))

/-- The request for a repository's artifacts. -/
def artifactsRequest (protocol base project repo : String) : Request :=
  let address := requestedAddress protocol (artifactsAddress base project repo)
  { address := address ++ "?" ++ artifactsQuery
    accept := "application/json" }

/-- The artifacts in a reply. -/
def artifactsIn (host project repo : String) : Reply → Except Failure (List Artifact)
  | .none => .error .unreachable
  | .answer status body =>
    if !Http.isSuccess status then
      .error (.refused host (Http.statusText status) project repo)
    else match artifactsOf? body with
      | some artifacts => .ok artifacts
      | none => .error .undecodable

/-- The latest tag of an image. -/
def latestTag (transport : Transport) (source : TagSource) (host project repo : String) :
    Except Failure String :=
  match source with
  | mock tags =>
    match tags.lookup (mockKey host project repo) with
    | some tag => .ok tag
    | none => .error (.repoNotFound project repo)
  | unsupported => .error (.hostUnsupported host)
  | harbor own protocol base =>
    if host ≠ own then .error (.hostUnsupported host)
    else
      let reply := transport (artifactsRequest protocol base project repo)
      match artifactsIn own project repo reply with
      | .error f => .error f
      | .ok artifacts =>
        match latestTag? artifacts with
        | some tag => .ok tag
        | none => .error (.repoNotFound project repo)

end TagSource

end ImageRollout
