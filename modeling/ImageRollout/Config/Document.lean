import ImageRollout.Config.Basic
import ImageRollout.Yaml.Node
import ImageRollout.Yaml.Token.Scan

/-!
# Configurations as documents

A configuration is a YAML mapping.  Unknown keys are skipped, a known key may stand once, and a
mapping or list without content has its defaults.  Where a text is wanted every scalar will do, as
it was written; numbers and truth values must be plain.
-/

namespace ImageRollout.Config

open Yaml

/-- A node by which nothing is said. -/
def isEmpty : Node → Bool
  | .scalar text style _ => text.isEmpty && style = .plain
  | _ => false

/-- A scalar as text. -/
def text? : Node → Option String
  | .scalar text _ _ => some text
  | _ => none

/-- A scalar that is not quoted; a literal one only under the tag. -/
def bare? (tag : String) : Node → Option String
  | .scalar text .plain _ => some text
  | .scalar text .literal (some t) => if t = "tag:yaml.org,2002:" ++ tag then some text else none
  | _ => none

/-- A truth value. -/
def truth? (n : Node) : Option Bool := do
  let text ← bare? "bool" n
  if text ∈ ["true", "True", "TRUE"] then some true
  else if text ∈ ["false", "False", "FALSE"] then some false
  else none

/-- The value of a digit in a base. -/
def digit? (base : Nat) (c : Char) : Option Nat := do
  let n ← if c.isDigit then some (c.toNat - 48)
    else if c.isLower then some (c.toNat - 87)
    else if c.isUpper then some (c.toNat - 55)
    else none
  if n < base then some n else none

/-- A number in a base, with a plus sign if it is allowed to have one. -/
def digits? (base : Nat) (s : List Char) : Option Nat := do
  let digits := if s.head? = some '+' then s.drop 1 else s
  if digits.isEmpty then none
  digits.foldlM (fun n c => (digit? base c).map (base * n + ·)) 0

/-- A number without a sign in the base that its first characters name. -/
def based? (s : List Char) : Option Nat :=
  match s with
  | '0' :: 'x' :: rest => if rest.head?.any (· ∈ ['+', '-']) then none else digits? 16 rest
  | '0' :: 'o' :: rest => if rest.head?.any (· ∈ ['+', '-']) then none else digits? 8 rest
  | '0' :: 'b' :: rest => if rest.head?.any (· ∈ ['+', '-']) then none else digits? 2 rest
  | _ => none

/-- A decimal number; one with a leading zero is text. -/
def decimal? (s : List Char) : Option Nat :=
  if s.head?.any (· ∈ ['+', '-']) then none
  else if 1 < s.length && s.head? = some '0' && (s.drop 1).all Char.isDigit then none
  else digits? 10 s

/-- A number from 0 to `limit`. -/
def natural? (limit : Nat) (n : Node) : Option Nat := do
  let text := (← bare? "int" n).toList
  let body := if text.head? = some '+' then text.drop 1 else text
  let value ← (based? body).or (decimal? body)
  if value ≤ limit then some value else none

/-- The values of the known keys of a mapping.  All keys must be scalars. -/
def fields? (known : List String) : Node → Option (List (Option Node))
  | .mapping entries => do
    let named ← entries.mapM fun (k, v) => (text? k).map (·, v)
    known.mapM fun key =>
      match named.filter (·.1 == key) with
      | [] => some none
      | [(_, v)] => some (some v)
      | _ => none
  | n => if isEmpty n then some (known.map fun _ => none) else none

/-- A field, or its default. -/
def field {α : Type} (default : α) (read? : Node → Option α) : Option Node → Option α
  | none => some default
  | some n => read? n

/-- A list of texts. -/
def texts? : Node → Option (List String)
  | .sequence items => items.mapM text?
  | n => if isEmpty n then some [] else none

/-- A table of texts; of a repeated name the last one counts. -/
def table? : Node → Option (Table String)
  | .mapping entries =>
    entries.foldlM (fun t (k, v) => do return t.insert (← text? k) (← text? v)) []
  | n => if isEmpty n then some [] else none

/-- The web server's part. -/
def webserver? (n : Node) : Option Webserver := do
  let [host, port] ← fields? ["host", "port"] n | none
  let d : Webserver := {}
  return { host := ← field d.host text? host, port := ← field d.port (natural? 65535) port }

/-- The repository's part. -/
def repository? (n : Node) : Option TagSource.Options := do
  let [mock, mockTags, host, protocol, insecure, path] ← fields? TagSource.Options.keys n | none
  let d : TagSource.Options := {}
  return {
    mock := ← field d.mock truth? mock
    mockTags := ← field d.mockTags table? mockTags
    host := ← field d.host text? host
    protocol := ← field d.protocol text? protocol
    insecureSkipVerify := ← field d.insecureSkipVerify truth? insecure
    apiPathPrefix := ← field d.apiPathPrefix text? path }

/-- The capacity in the bus's part. -/
def capacity? (n : Node) : Option Nat := do
  let [capacity] ← fields? ["capacity"] n | none
  field ({} : Config).capacity (natural? 18446744073709551615) capacity

/-- The configuration in a document. -/
def ofNode? (n : Node) : Option Config := do
  let [webserver, repository, bus, controllers] ←
    fields? ["webserver", "repository", "eventBus", "controllers"] n | none
  let d : Config := {}
  return {
    webserver := ← field d.webserver webserver? webserver
    repository := ← field d.repository repository? repository
    capacity := ← field d.capacity capacity? bus
    controllers := ← field d.controllers texts? controllers }

/-- The configuration in a text, which holds at most one document. -/
def parse? (text : String) : Option Config := do
  match ← Node.ofTokens? (← Token.scan? text) with
  | .empty => some {}
  | .single n => ofNode? n
  | .several => none

end ImageRollout.Config
