import ImageRollout.Config.Document
import ImageRollout.Config.Placeholder
import ImageRollout.Text.Utf8

/-!
# Loading a configuration

A configuration file is read as text, its placeholders are replaced, and the result is read as a
document.  A file that need not exist stands for the defaults where it does not.
-/

namespace ImageRollout.Config

/-- What a path leads to. -/
inductive File where
  | missing
  | unreadable
  | content (bytes : List UInt8)

/-- The text in a file, if there is one that can be read. -/
def File.text? : File → Option String
  | content bytes => Text.ofUtf8? bytes
  | _ => none

/-- Why a configuration cannot be loaded. -/
inductive LoadError where
  /-- The file does not exist, cannot be read, or is no text. -/
  | unreadable (path : String)
  | missingVariables (names : List String)
  | malformed
  deriving DecidableEq, Repr

/-- The error in words. -/
def LoadError.message : LoadError → String
  | unreadable path => "Failed to read config file: " ++ path
  | missingVariables names => "Missing environment variable: " ++ String.intercalate ", " names
  | malformed => "Failed to parse YAML config after environment variable expansion"

/-- The configuration in a file. -/
def load (path : String) (file : File) (environment : Table String) : Except LoadError Config :=
  match file.text? with
  | none => .error (.unreadable path)
  | some text =>
    match expand environment text with
    | .error names => .error (.missingVariables names)
    | .ok text =>
      match parse? text with
      | none => .error .malformed
      | some config => .ok config

/-- The configuration in a file, or the defaults if there is none. -/
def loadOrDefault (path : String) (file : File) (environment : Table String) :
    Except LoadError Config :=
  match file with
  | .missing => .ok {}
  | file => load path file environment

end ImageRollout.Config
