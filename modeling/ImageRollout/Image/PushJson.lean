import ImageRollout.Image.Push
import ImageRollout.Json.Record

/-!
# Pushes in JSON

A push travels as a record of two texts, `image` and `tag`.
-/

namespace ImageRollout.Image.Push

/-- The push that a JSON record holds. -/
def ofJson? (v : Json) : Option Push := do
  let [image, tag] ← v.slots? ["image", "tag"] | none
  return { image := ← image.required Json.text?, tag := ← tag.required Json.text? }

/-- The push as a JSON record. -/
def toJson (p : Push) : Json := .obj [("image", .str p.image), ("tag", .str p.tag)]

end ImageRollout.Image.Push
