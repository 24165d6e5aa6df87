import ImageRollout.Startup
import ImageRollout.Text.Utf8

/-!
# The command line

Reads the configuration that the environment names and puts everything in place; the exit status
tells whether that succeeded.
-/

open ImageRollout

/-- What a path leads to. -/
def readConfigFile (path : String) : IO Config.File := do
  try
    return .content (← IO.FS.readBinFile path).toList
  catch
    | .noFileOrDirectory .. => return .missing
    | _ => return .unreadable

/-- The variables of the environment that a file's placeholders name. -/
def readVariables (file : Config.File) : IO (Table String) := do
  let names := Config.placeholders (file.text?.getD "")
  let mut environment : Table String := []
  for name in names do
    if let some value ← IO.getEnv name then
      environment := environment.insert name value
  return environment

def main : IO UInt32 := do
  let path := (← IO.getEnv Startup.pathKey).getD Startup.defaultPath
  let file ← readConfigFile path
  for notice in (Startup.fileNotice? path file).toList do
    IO.println notice.line
  match Startup.configure path file (← readVariables file) >>= (Startup.prepare · false) with
  | .ok _ => return 0
  | .error failure =>
    IO.eprintln failure.text
    return 1
