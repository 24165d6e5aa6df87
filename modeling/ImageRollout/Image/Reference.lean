import ImageRollout.Text.Split

/-!
# Image references

A container names its image as `[[host/]project/]repo[:tag]`.  A reference remembers which of the
optional leading segments were written and whether the tag was, so that printing it gives back
exactly the text it was read from.

Projects are flat: from three segments on, the first is the host, the second the project, and all
further ones belong to the repository.  The tag follows the last colon of the last part, unless a
slash stands behind that colon; without a tag the reference means `latest`.
-/

namespace ImageRollout.Image

/-- The tag of a reference that spells none. -/
def defaultTag : String := "latest"

/-- Which leading segments a reference writes. -/
inductive Shape where
  /-- `repo[:tag]` -/
  | repo
  /-- `project/repo[:tag]` -/
  | projectRepo
  /-- `host/project/repo[:tag]` -/
  | hostProjectRepo
  deriving DecidableEq, Repr

/-- An image reference in its parts. -/
structure Reference where
  host : Option String
  project : Option String
  repo : String
  tag : String
  /-- Whether the tag was spelled out, or stands for the default. -/
  tagSpelled : Bool
  shape : Shape
  deriving DecidableEq, Repr

namespace Reference

/-- The leading segments, the last part and the shape of a reference's text. -/
def segments (s : List Char) : Option String × Option String × List Char × Shape :=
  match s.splitOn '/' with
  | [project, repo] => (none, some (String.ofList project), repo, .projectRepo)
  | host :: project :: repo =>
    (some (String.ofList host), some (String.ofList project), Text.joinWith '/' repo,
      .hostProjectRepo)
  | _ => (none, none, s, .repo)

/-- The repository and the spelled tag of a reference's last part. -/
def splitTag (last : List Char) : List Char × Option (List Char) :=
  match Text.splitLast? ':' last with
  | some (repo, tag) => if '/' ∈ tag then (last, none) else (repo, some tag)
  | none => (last, none)

/-- Every text reads as a reference. -/
def parse (s : String) : Reference :=
  let (host, project, last, shape) := segments s.toList
  let (repo, tag) := splitTag last
  { host, project, repo := String.ofList repo
    tag := (tag.map String.ofList).getD defaultTag
    tagSpelled := tag.isSome, shape }

/-- The reference under another tag, which is spelled out from then on. -/
def withTag (r : Reference) (tag : String) : Reference :=
  { r with tag, tagSpelled := true }

/-- The host, empty where none was written. -/
def hostOrEmpty (r : Reference) : String := r.host.getD ""

/-- The project, empty where none was written. -/
def projectOrEmpty (r : Reference) : String := r.project.getD ""

/-- The reference without its tag. -/
def name (r : Reference) : String :=
  match r.shape with
  | .hostProjectRepo => r.hostOrEmpty ++ "/" ++ r.projectOrEmpty ++ "/" ++ r.repo
  | .projectRepo => r.projectOrEmpty ++ "/" ++ r.repo
  | .repo => r.repo

/-- The reference as text: the segments of its shape, then the tag if it is spelled. -/
def text (r : Reference) : String :=
  if r.tagSpelled then r.name ++ ":" ++ r.tag else r.name

end Reference

end ImageRollout.Image
