/-!
# YAML tokens

What a YAML text consists of, once indentation has become brackets: the ends of block collections
are tokens like all others.
-/

namespace ImageRollout.Yaml

/-- How a scalar was written. -/
inductive Style where
  | plain
  | quoted
  /-- A block scalar whose line breaks are kept. -/
  | literal
  /-- A block scalar whose line breaks are folded. -/
  | folded
  deriving DecidableEq, Repr, Inhabited

/-- A token of a YAML text. -/
inductive Token where
  /-- The version that a document is written in. -/
  | version (major minor : Nat)
  /-- A short handle for the beginning of tags. -/
  | tagHandle (handle start : String)
  | documentStart
  | documentEnd
  | blockSequence
  | blockMapping
  | blockEnd
  | flowSequence
  | flowSequenceEnd
  | flowMapping
  | flowMappingEnd
  /-- The dash before an entry of a block sequence. -/
  | blockEntry
  /-- The comma between entries of a flow collection. -/
  | flowEntry
  | key
  | value
  | alias (name : String)
  | anchor (name : String)
  | tag (handle suffix : String)
  | scalar (text : String) (style : Style)
  deriving DecidableEq, Repr, Inhabited

end ImageRollout.Yaml
