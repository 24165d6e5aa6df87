import ImageRollout.Config.Load
import ImageRollout.Notice
import ImageRollout.TagSource.Basic

/-!
# Starting up

What has to be in place before anything is watched or served, in the order in which it is put in
place: the configuration, the tag source, a connection to the cluster, the controllers.  The first
thing that fails ends the program.
-/

namespace ImageRollout.Startup

/-- How far the program has come. -/
inductive Stage where
  | configuring
  | connecting
  | connected
  deriving DecidableEq, Repr

/-- Why the program does not start. -/
inductive Failure where
  | unloadable (error : Config.LoadError)
  | invalid (problem : Config.Problem)
  | noSource (failure : TagSource.Failure)
  /-- No cluster answers. -/
  | disconnected
  | refused (refusal : Controllers.Refusal)
  deriving DecidableEq, Repr

namespace Failure

/-- The stage that the failure ends. -/
def stage : Failure → Stage
  | unloadable _ | invalid _ | noSource _ => .configuring
  | disconnected => .connecting
  | refused _ => .connected

/-- The failure in words, the outermost first. -/
def chain : Failure → List String
  | unloadable error => [error.message]
  | invalid problem => ["Invalid laborer config", problem.message]
  | noSource failure => ["Failed to create repository service", failure.message]
  | disconnected => ["No Kubernetes cluster answers"]
  | refused refusal => [refusal.message]

end Failure

/-- Where the configuration is unless the environment names another file. -/
def defaultPath : String := "/etc/laborer/laborer.yaml"

/-- The variable that names the configuration's file. -/
def pathKey : String := "LABORER_CONFIG"

/-- A configuration that is fit to start with. -/
def configure (path : String) (file : Config.File) (environment : Table String) :
    Except Failure Config :=
  match Config.loadOrDefault path file environment with
  | .error error => .error (.unloadable error)
  | .ok config =>
    match config.validate with
    | .error problem => .error (.invalid problem)
    | .ok () => .ok config

/-- What everything else is built on. -/
structure Foundation where
  config : Config
  source : TagSource
  controllers : Controllers.Registry Kind

/-- The controller of a kind. -/
def controllerKind? : String → Option Kind
  | "deployment" => some .deployment
  | "configmap" => some .configMap
  | "job" => some .job
  | _ => none

/-- The controllers that a configuration lists. -/
def controllers (config : Config) : Except Controllers.Refusal (Controllers.Registry Kind) :=
  Controllers.Registry.ofKinds controllerKind? config.controllers

/-- Puts everything in place, given whether a cluster answers. -/
def prepare (config : Config) (clusterAnswers : Bool) : Except Failure Foundation :=
  match TagSource.ofOptions config.repository with
  | .error failure => .error (.noSource failure)
  | .ok source =>
    if !clusterAnswers then .error .disconnected
    else match controllers config with
      | .error refusal => .error (.refused refusal)
      | .ok controllers => .ok { config, source, controllers }

/-- What is reported about a configuration file. -/
def fileNotice? (path : String) : Config.File → Option Notice
  | .missing => some (.configFileMissing path)
  | _ => none

/-- A failure as it is printed: its outermost text, and below it those that caused it. -/
def Failure.text (f : Failure) : String :=
  match f.chain with
  | [] => ""
  | [outermost] => "Error: " ++ outermost
  | [outermost, cause] => "Error: " ++ outermost ++ "\n\nCaused by:\n    " ++ cause
  | outermost :: causes =>
    let numbered := causes.zipIdx.map fun (cause, i) => "    " ++ toString i ++ ": " ++ cause
    "Error: " ++ outermost ++ "\n\nCaused by:\n" ++ String.intercalate "\n" numbered

end ImageRollout.Startup
