/-!
# Paths as they are requested

Before an address is requested, its path is settled segment by segment: a segment of one dot says
nothing, and one of two dots takes back the segment in front of it.  A dot may be percent-encoded,
and a backslash separates segments like a slash.
-/

namespace ImageRollout.TagSource

/-- Whether the character stands between segments. -/
def isSeparator (c : Char) : Bool := c = '/' || c = '\\'

/-- The ways to write a dot. -/
def dots : List (List Char) := ["."].map String.toList ++ ["%2e", "%2E"].map String.toList

/-- Whether the segment says nothing: it is one dot. -/
def isHere (segment : List Char) : Bool := segment ∈ dots

/-- Whether the segment takes back the one in front of it: it is two dots. -/
def isUp (segment : List Char) : Bool := dots.any fun a => dots.any fun b => segment = a ++ b

/-- The segments of a path once they are settled, behind those that already are, last first.  A path
that ends in dots ends in an empty segment. -/
def settleSegments (settled : List (List Char)) : List (List Char) → List (List Char)
  | [] => settled.reverse
  | s :: rest =>
    let onward := if isUp s then settled.drop 1 else if isHere s then settled else s :: settled
    let onward := if rest.isEmpty && (isUp s || isHere s) then [] :: onward else onward
    settleSegments onward rest

/-- The segments of a path from behind its first separator. -/
def segments (path : List Char) : List (List Char) := path.splitOnP isSeparator

/-- The address as it is requested: protocol and host as they are, and the path settled.  The host
begins behind all slashes and ends before the next one. -/
def requestedAddress (protocol : String) (behind : String) : String :=
  let (host, path) := (behind.toList.dropWhile isSeparator).span fun c => !isSeparator c
  let settled := settleSegments [] (segments (path.drop 1))
  protocol ++ "://" ++ String.ofList (host ++ settled.flatMap ('/' :: ·))

end ImageRollout.TagSource
