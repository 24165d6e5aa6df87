import ImageRollout.Json.Token

/-!
# Reading JSON

The grammar of JSON over its tokens, as a machine with a stack of the containers still open.  The
stack lives in the machine's state, so nesting is limited by nothing but the text.
-/

namespace ImageRollout.Json

/-- A container still open, its contents last first. -/
inductive Frame where
  | array (items : List Json)
  /-- The members so far and the key of the one whose value is being read. -/
  | object (members : List (Option String × Json)) (key : Option String)

/-- What has been read so far, and what may follow. -/
inductive Reader where
  /-- A value must follow. -/
  | value (stack : List Frame)
  /-- Behind `[`: a value or the end of the array. -/
  | firstItem (stack : List Frame)
  /-- Behind `{` or a comma: a key, or the end of the object where that is allowed. -/
  | key (stack : List Frame) (members : List (Option String × Json)) (mayClose : Bool)
  /-- Behind a key. -/
  | colon (stack : List Frame) (members : List (Option String × Json)) (key : Option String)
  /-- A value is complete: the whole text's, where no container is open. -/
  | complete (stack : List Frame) (v : Json)

namespace Reader

/-- The object of the members, given last first. -/
def object (members : List (Option String × Json)) : Json :=
  match members.reverse.mapM fun (k, v) => k.map (·, v) with
  | some ms => .obj ms
  | none => .unreadable

/-- A token where a value is expected. -/
def start (stack : List Frame) : Token → Option Reader
  | .scalar v => some (complete stack v)
  | .string (some s) => some (complete stack (.str s))
  | .string none => some (complete stack .unreadable)
  | .openArray => some (firstItem stack)
  | .openObject => some (key stack [] true)
  | _ => none

/-- One token. -/
def step : Reader → Token → Option Reader
  | value stack, t => start (stack) t
  | firstItem stack, .closeArray => some (complete stack (.arr []))
  | firstItem stack, t => start (.array [] :: stack) t
  | key stack members true, .closeObject => some (complete stack (object members))
  | key stack members _, .string k => some (colon stack members k)
  | key .., _ => none
  | colon stack members k, .colon => some (value (.object members k :: stack))
  | colon .., _ => none
  | complete (.array items :: stack) v, .comma => some (value (.array (v :: items) :: stack))
  | complete (.array items :: stack) v, .closeArray =>
    some (complete stack (.arr (v :: items).reverse))
  | complete (.object members k :: stack) v, .comma => some (key stack ((k, v) :: members) false)
  | complete (.object members k :: stack) v, .closeObject =>
    some (complete stack (object ((k, v) :: members)))
  | complete .., _ => none

/-- The value, if the text is complete. -/
def finish? : Reader → Option Json
  | complete [] v => some v
  | _ => none

end Reader

/-- The value of a text's tokens. -/
def ofTokens? (tokens : List Token) : Option Json :=
  (tokens.foldlM Reader.step (.value [])).bind Reader.finish?

/-- The value that the bytes spell.  White space may stand around it, and nothing else. -/
def parse? (bytes : List UInt8) : Option Json :=
  (Token.scan? bytes).bind ofTokens?

/-- The value that a text spells. -/
def parseText? (s : String) : Option Json := parse? (Text.toUtf8 s)

end ImageRollout.Json
