import ImageRollout.Image.Reference

/-!
# Pushed images

A registry announces a push as an image name and a tag.  Pushes are read from a raw reference by
its last colon alone, whatever stands behind it; a missing or empty tag means `latest`.
-/

namespace ImageRollout.Image

/-- An image pushed under a tag. -/
structure Push where
  image : String
  tag : String
  deriving DecidableEq, Repr

namespace Push

/-- The push that a raw reference names, cut at its last colon. -/
def ofReference (reference : String) : Push :=
  match Text.splitLast? ':' reference.toList with
  | some (image, []) => { image := String.ofList image, tag := defaultTag }
  | some (image, tag) => { image := String.ofList image, tag := String.ofList tag }
  | none => { image := reference, tag := defaultTag }

/-- The push as `image:tag`, the reference a container is moved to. -/
def text (p : Push) : String := p.image ++ ":" ++ p.tag

/-- Whether a container's image is the pushed one, under whatever tag. -/
def sameImage (p : Push) (image : String) : Bool := (ofReference image).image = p.image

/-- Whether a container's image is the pushed one under another tag. -/
def supersedes (p : Push) (image : String) : Bool :=
  p.sameImage image && (ofReference image).tag != p.tag

end Push

end ImageRollout.Image
