import ImageRollout.Json.Reader
import ImageRollout.Json.Record
import ImageRollout.Text.Quoted

/-!
# Notifications of registries

A registry posts a JSON body for everything that happens in it.  One field tells what happened, and
it is looked at first: only a body whose field holds the accepted word is read any further, so the
shape of all other notifications does not matter.
-/

namespace ImageRollout.Notification

/-- Why a body announces no pushed image. -/
inductive Refusal where
  | empty
  /-- The body is no JSON record of the expected shape. -/
  | malformed
  /-- The field that tells what happened holds another word, or none. -/
  | unsupported (field : String) (value : Option String)
  deriving DecidableEq, Repr

namespace Refusal

/-- The refusal in words. -/
def message : Refusal → String
  | empty => "body is empty"
  | malformed => "failed to decode body"
  | unsupported field value => "unsupported " ++ field ++ " " ++ Text.quotedOption value

end Refusal

/-- The word in the field that tells what happened. -/
def discriminator? (field : String) (v : Json) : Option (Option String) := do
  let [slot] ← v.slots? [field] | none
  slot.optional Json.text?

/-- The payload of a body whose `field` holds the word `accepted`. -/
def decode {α : Type} (field accepted : String) (payload? : Json → Option α)
    (body : List UInt8) : Except Refusal α :=
  if body.isEmpty then .error .empty
  else match Json.parse? body with
    | none => .error .malformed
    | some v =>
      match discriminator? field v with
      | none => .error .malformed
      | some word =>
        if word = some accepted then
          match payload? v with
          | some p => .ok p
          | none => .error .malformed
        else .error (.unsupported field word)

end ImageRollout.Notification
