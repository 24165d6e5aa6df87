import ImageRollout.Yaml.Token

/-!
# YAML documents

A document is a tree of scalars, sequences and mappings.  The grammar over tokens is that of block
collections, in which a missing node is an empty plain scalar, and of flow collections.  An alias
stands for the node that its anchor marked before.

* `Node.ofTokens?`: the document of a text's tokens, nothing for an empty text, and an error where
  they hold more than one.
-/

namespace ImageRollout.Yaml

/-- A node of a document. -/
inductive Node where
  /-- A scalar with the tag it was given, if any. -/
  | scalar (text : String) (style : Style) (tag : Option String)
  | sequence (items : List Node)
  | mapping (entries : List (Node × Node))
  deriving Inhabited, Repr

namespace Node

/-- The scalar that stands where no node is. -/
def missing : Node := .scalar "" .plain none

/-- What holds inside a document: the handles of tags, and the nodes of anchors. -/
structure Context where
  handles : List (String × String)
  anchors : List (String × Node)

/-- The handles that every document has. -/
def defaultHandles : List (String × String) := [("!", "!"), ("!!", "tag:yaml.org,2002:")]

/-- Anchor and tag before a node. -/
structure Properties where
  anchor : Option String := none
  tag : Option String := none

/-- The full tag of a handle and a suffix. -/
def fullTag? (ctx : Context) (handle suffix : String) : Option String :=
  if handle.isEmpty then some suffix else (ctx.handles.lookup handle).map (· ++ suffix)

/-- The properties before a node, an anchor and a tag in either order, and what follows them. -/
def properties? (ctx : Context) : List Token → Option (Properties × List Token)
  | .anchor a :: .tag h t :: rest => (fullTag? ctx h t).map fun tag => (⟨a, tag⟩, rest)
  | .tag h t :: .anchor a :: rest => (fullTag? ctx h t).map fun tag => (⟨a, tag⟩, rest)
  | .anchor a :: rest => some (⟨a, none⟩, rest)
  | .tag h t :: rest => (fullTag? ctx h t).map fun tag => (⟨none, tag⟩, rest)
  | rest => some (⟨none, none⟩, rest)

/-- The context in which an anchor marks the node. -/
def Properties.mark (p : Properties) (ctx : Context) (n : Node) : Context :=
  match p.anchor with
  | some a => { ctx with anchors := (a, n) :: ctx.anchors }
  | none => ctx

/-- A part of a document: what it is, the context behind it, and the tokens behind it. -/
abbrev Parsed (α : Type) := α × Context × List Token

mutual

/-- A node.  Block collections only where `block` says so, and a sequence that is not indented only
as a mapping's key or value. -/
def node? (fuel : Nat) (block indentless : Bool) (ctx : Context) (ts : List Token) :
    Option (Parsed Node) :=
  match fuel with
  | 0 => none
  | fuel + 1 =>
    match ts with
    | .alias name :: rest => (ctx.anchors.lookup name).map fun n => (n, ctx, rest)
    | _ => do
      let (p, ts) ← properties? ctx ts
      let (n, ctx, ts) ← content? fuel block indentless p ctx ts
      return (n, p.mark ctx n, ts)

/-- The node behind its properties. -/
def content? (fuel : Nat) (block indentless : Bool) (p : Properties) (ctx : Context)
    (ts : List Token) : Option (Parsed Node) :=
  match fuel with
  | 0 => none
  | fuel + 1 =>
    match ts with
    | .scalar text style :: rest => some (.scalar text style p.tag, ctx, rest)
    | .flowSequence :: rest => do
      let (items, ctx, ts) ← flowItems? fuel true ctx rest
      return (.sequence items, ctx, ts)
    | .flowMapping :: rest => do
      let (entries, ctx, ts) ← flowEntries? fuel true ctx rest
      return (.mapping entries, ctx, ts)
    | .blockEntry :: _ =>
      if indentless then do
        let (items, ctx, ts) ← plainItems? fuel ctx ts
        return (.sequence items, ctx, ts)
      else absent? p ctx ts
    | .blockSequence :: rest =>
      if block then do
        let (items, ctx, ts) ← blockItems? fuel ctx rest
        return (.sequence items, ctx, ts)
      else absent? p ctx ts
    | .blockMapping :: rest =>
      if block then do
        let (entries, ctx, ts) ← blockEntries? fuel ctx rest
        return (.mapping entries, ctx, ts)
      else absent? p ctx ts
    | _ => absent? p ctx ts

/-- An empty node, which may only stand behind properties. -/
def absent? (p : Properties) (ctx : Context) (ts : List Token) : Option (Parsed Node) :=
  if p.anchor.isSome || p.tag.isSome then some (.scalar "" .plain p.tag, ctx, ts) else none

/-- A node, or an empty one if one of the tokens `stop` follows at once. -/
def nodeOr? (fuel : Nat) (block indentless : Bool) (stop : Token → Bool) (ctx : Context)
    (ts : List Token) : Option (Parsed Node) :=
  match fuel with
  | 0 => none
  | fuel + 1 =>
    match ts with
    | t :: _ => if stop t then some (missing, ctx, ts) else node? fuel block indentless ctx ts
    | [] => none

/-- The items of a block sequence, to its end. -/
def blockItems? (fuel : Nat) (ctx : Context) (ts : List Token) : Option (Parsed (List Node)) :=
  match fuel with
  | 0 => none
  | fuel + 1 =>
    match ts with
    | .blockEntry :: rest => do
      let stop (t : Token) := t == .blockEntry || t == .blockEnd
      let (n, ctx, ts) ← nodeOr? fuel true false stop ctx rest
      let (items, ctx, ts) ← blockItems? fuel ctx ts
      return (n :: items, ctx, ts)
    | .blockEnd :: rest => some ([], ctx, rest)
    | _ => none

/-- The items of a sequence that is not indented, as far as they go. -/
def plainItems? (fuel : Nat) (ctx : Context) (ts : List Token) : Option (Parsed (List Node)) :=
  match fuel with
  | 0 => none
  | fuel + 1 =>
    match ts with
    | .blockEntry :: rest => do
      let stop (t : Token) := t == .blockEntry || t == .key || t == .value || t == .blockEnd
      let (n, ctx, ts) ← nodeOr? fuel true false stop ctx rest
      let (items, ctx, ts) ← plainItems? fuel ctx ts
      return (n :: items, ctx, ts)
    | _ => some ([], ctx, ts)

/-- The value of a block mapping's entry, empty if there is no colon. -/
def blockValue? (fuel : Nat) (ctx : Context) (ts : List Token) : Option (Parsed Node) :=
  match fuel with
  | 0 => none
  | fuel + 1 =>
    match ts with
    | .value :: rest =>
      nodeOr? fuel true true (fun t => t == .key || t == .value || t == .blockEnd) ctx rest
    | _ => some (missing, ctx, ts)

/-- The entries of a block mapping, to its end. -/
def blockEntries? (fuel : Nat) (ctx : Context) (ts : List Token) :
    Option (Parsed (List (Node × Node))) :=
  match fuel with
  | 0 => none
  | fuel + 1 =>
    match ts with
    | .key :: rest => do
      let stop (t : Token) := t == .key || t == .value || t == .blockEnd
      let (k, ctx, ts) ← nodeOr? fuel true true stop ctx rest
      let (v, ctx, ts) ← blockValue? fuel ctx ts
      let (entries, ctx, ts) ← blockEntries? fuel ctx ts
      return ((k, v) :: entries, ctx, ts)
    | .blockEnd :: rest => some ([], ctx, rest)
    | _ => none

/-- The value of a flow collection's entry, empty if there is no colon. -/
def flowValue? (fuel : Nat) (close : Token) (ctx : Context) (ts : List Token) :
    Option (Parsed Node) :=
  match fuel with
  | 0 => none
  | fuel + 1 =>
    match ts with
    | .value :: rest => nodeOr? fuel false false (fun t => t == .flowEntry || t == close) ctx rest
    | _ => some (missing, ctx, ts)

/-- A flow sequence's item: a node, or a mapping of one pair. -/
def flowItem? (fuel : Nat) (ctx : Context) (ts : List Token) : Option (Parsed Node) :=
  match fuel with
  | 0 => none
  | fuel + 1 =>
    match ts with
    | .key :: rest => do
      let stop (t : Token) := t == .value || t == .flowEntry || t == .flowSequenceEnd
      let (k, ctx, ts) ← nodeOr? fuel false false stop ctx rest
      let (v, ctx, ts) ← flowValue? fuel .flowSequenceEnd ctx ts
      return (.mapping [(k, v)], ctx, ts)
    | _ => node? fuel false false ctx ts

/-- The items of a flow sequence, to its end.  A comma stands between two, and may stand behind the
last. -/
def flowItems? (fuel : Nat) (first : Bool) (ctx : Context) (ts : List Token) :
    Option (Parsed (List Node)) :=
  match fuel with
  | 0 => none
  | fuel + 1 =>
    match first, ts with
    | _, .flowSequenceEnd :: rest => some ([], ctx, rest)
    | false, .flowEntry :: .flowSequenceEnd :: rest => some ([], ctx, rest)
    | false, .flowEntry :: rest => do
      let (n, ctx, ts) ← flowItem? fuel ctx rest
      let (items, ctx, ts) ← flowItems? fuel false ctx ts
      return (n :: items, ctx, ts)
    | true, ts => do
      let (n, ctx, ts) ← flowItem? fuel ctx ts
      let (items, ctx, ts) ← flowItems? fuel false ctx ts
      return (n :: items, ctx, ts)
    | false, _ => none

/-- A flow mapping's entry: a key with its value, or a node whose value is empty. -/
def flowPair? (fuel : Nat) (ctx : Context) (ts : List Token) : Option (Parsed (Node × Node)) :=
  match fuel with
  | 0 => none
  | fuel + 1 =>
    match ts with
    | .key :: rest => do
      let stop (t : Token) := t == .value || t == .flowEntry || t == .flowMappingEnd
      let (k, ctx, ts) ← nodeOr? fuel false false stop ctx rest
      let (v, ctx, ts) ← flowValue? fuel .flowMappingEnd ctx ts
      return ((k, v), ctx, ts)
    | _ => do
      let (k, ctx, ts) ← node? fuel false false ctx ts
      return ((k, missing), ctx, ts)

/-- The entries of a flow mapping, to its end.  A comma stands between two, and may stand behind
the last. -/
def flowEntries? (fuel : Nat) (first : Bool) (ctx : Context) (ts : List Token) :
    Option (Parsed (List (Node × Node))) :=
  match fuel with
  | 0 => none
  | fuel + 1 =>
    match first, ts with
    | _, .flowMappingEnd :: rest => some ([], ctx, rest)
    | false, .flowEntry :: .flowMappingEnd :: rest => some ([], ctx, rest)
    | false, .flowEntry :: rest => do
      let (e, ctx, ts) ← flowPair? fuel ctx rest
      let (entries, ctx, ts) ← flowEntries? fuel false ctx ts
      return (e :: entries, ctx, ts)
    | true, ts => do
      let (e, ctx, ts) ← flowPair? fuel ctx ts
      let (entries, ctx, ts) ← flowEntries? fuel false ctx ts
      return (e :: entries, ctx, ts)
    | false, _ => none

end

/-- The handles that the directives before a document give, and the tokens behind them.  A version
may stand among them once. -/
def directives? (handles : List (String × String)) (hasVersion : Bool) :
    List Token → Option (List (String × String) × List Token)
  | .version major minor :: rest =>
    if hasVersion || major ≠ 1 || (minor ≠ 1 && minor ≠ 2) then none
    else directives? handles true rest
  | .tagHandle handle start :: rest =>
    if (handles.lookup handle).isSome then none
    else directives? ((handle, start) :: handles) hasVersion rest
  | rest => some (handles, rest)

/-- Whether the token stands between documents. -/
def isOutside : Token → Bool
  | .version .. | .tagHandle .. | .documentStart | .documentEnd => true
  | _ => false

/-- The tokens behind the ends of a document. -/
def skipEnds (ts : List Token) : List Token := ts.dropWhile (· == .documentEnd)

/-- The content of a document, empty if it ends at once, and the tokens behind its ends. -/
def document? (ctx : Context) (ts : List Token) : Option (Node × List Token) :=
  match ts with
  | [] => some (missing, [])
  | t :: _ =>
    if isOutside t then some (missing, skipEnds ts)
    else do
      let (n, _, ts) ← node? (8 * ts.length + 16) true false ctx ts
      return (n, skipEnds ts)

/-- A text holds no document, one, or more. -/
inductive Stream where
  | empty
  | single (n : Node)
  | several

/-- What the tokens of a text hold. -/
def ofTokens? (ts : List Token) : Option Stream := do
  match ts with
  | [] => return .empty
  | t :: _ =>
    let (handles, body) ← directives? [] false ts
    let body ← match isOutside t, body with
      | true, .documentStart :: rest => some rest
      | true, _ => none
      | false, ts => some ts
    let user := handles.map (·.1)
    let ctx : Context :=
      { handles := handles ++ defaultHandles.filter (·.1 ∉ user), anchors := [] }
    let (n, rest) ← document? ctx body
    return if rest.isEmpty then .single n else .several

end Node

end ImageRollout.Yaml
