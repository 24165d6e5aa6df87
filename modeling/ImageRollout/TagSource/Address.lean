import ImageRollout.TagSource.Options
import ImageRollout.Text.Percent
import ImageRollout.Text.Split

/-!
# Addresses in a Harbor registry

Harbor lists the artifacts of a repository below its project.  A slash in a repository's name is
encoded twice, so that it does not read as the end of a path segment.
-/

namespace ImageRollout.TagSource

/-- The beginning of all addresses behind the protocol: host and path, without slashes at the path's
ends. -/
def Options.base (o : Options) : String :=
  o.host ++ "/" ++ String.ofList (Text.trimEnds '/' o.apiPathPrefix.toList)

/-- The address of a repository's artifacts behind the protocol, as it is written down. -/
def artifactsAddress (base project repo : String) : String :=
  base ++ "/projects/" ++ Text.percentEncode project ++ "/repositories/" ++
    Text.percentEncode (Text.percentEncode repo) ++ "/artifacts"

/-- What is asked for: the first page, with the tags of every artifact. -/
def artifactsQuery : String := "page=1&page_size=100&with_tag=true"

end ImageRollout.TagSource
