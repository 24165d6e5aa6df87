import ImageRollout.Image.Push
import ImageRollout.Namespaces.Tracker

/-!
# Notices

What the program reports while it runs.  A warning is about something that was left undone, an
error about something that failed.
-/

namespace ImageRollout

/-- The kinds of objects that are watched. -/
inductive Kind where
  | namespaces
  | configMap
  | deployment
  | job
  deriving DecidableEq, Repr

/-- The name of a kind. -/
def Kind.name : Kind → String
  | namespaces => "Namespace"
  | configMap => "ConfigMap"
  | deployment => "Deployment"
  | job => "Job"

/-- Something worth reporting. -/
inductive Notice where
  | configFileMissing (path : String)
  | registryDisabled
  | pushDropped (push : Image.Push)
  | alreadyRunning (kind : Kind)
  /-- A controller was stopped before its caches had a complete list. -/
  | unsynced (controller : Kind) (namespaceName : String)
  | deploymentMissing (configMap namespaceName deployment : String)
  | notificationIgnored (registry reason : String)
  | bodyIgnored (registry body reason : String)
  | packageIgnored (package : String)
  | tagUnresolved (image reason : String)
  /-- A handler of the push bus failed. -/
  | handlerFailed (push : Image.Push) (cause : String)
  | watchHandlerFailed (kind : Kind) (cause : String)
  | syncFailed (namespaceName : String) (change : Namespaces.Change) (cause : String)
  | startFailed (namespaceName cause : String)
  | controllerFailed (namespaceName : String) (push : Image.Push) (cause : String)
  | patchFailed (controller : Kind) (namespaceName : String)
  | rerunFailed (namespaceName job : String)
  | annotationUnreadable (key namespaceName configMap : String)
  deriving DecidableEq, Repr

namespace Notice

/-- A change as notices name it. -/
def changeWord : Namespaces.Change → String
  | .added => "Added"
  | .modified => "Modified"
  | .deleted => "Deleted"

/-- Whether the notice is a warning; otherwise it is an error. -/
def isWarning : Notice → Bool
  | configFileMissing _ | registryDisabled | pushDropped _ | alreadyRunning _ | unsynced ..
  | deploymentMissing .. | notificationIgnored .. | bodyIgnored .. | packageIgnored _
  | tagUnresolved .. => true
  | _ => false

/-- The notice in words, as far as they are its own. -/
def message : Notice → String
  | configFileMissing path => "Config file " ++ path ++ " does not exist, using defaults"
  | registryDisabled => "No repository host configured, latest tag resolution is disabled"
  | pushDropped push => "Image event bus is closed, dropping image event " ++ push.text
  | alreadyRunning kind => kind.name ++ " informer is already running"
  | unsynced controller n =>
    controller.name ++ " controller for namespace " ++ n ++ " stopped before caches synced"
  | deploymentMissing c n d =>
    "ConfigMap " ++ c ++ " is associated with deployment " ++ n ++ "/" ++ d ++
      ", which does not exist"
  | notificationIgnored registry reason => "Ignoring " ++ registry ++ " webhook: " ++ reason
  | bodyIgnored registry body reason =>
    "Ignoring " ++ registry ++ " webhook body " ++ body ++ ": " ++ reason
  | packageIgnored package => "GitHub package lacks essential content, ignored: " ++ package
  | tagUnresolved image reason =>
    "Failed to resolve latest tag of image " ++ image ++ ": " ++ reason
  | handlerFailed push cause =>
    "Image event handler panicked for " ++ push.text ++ ": " ++ cause
  | watchHandlerFailed kind cause => kind.name ++ " informer event handler panicked: " ++ cause
  | syncFailed n change cause =>
    "Failed to sync namespace " ++ n ++ " after " ++ changeWord change ++ ": " ++ cause
  | startFailed n cause =>
    "Controllers for namespace " ++ n ++ " panicked while starting: " ++ cause
  | controllerFailed n push cause =>
    "Controller for namespace " ++ n ++ " panicked while processing image event " ++ push.text ++
      ": " ++ cause
  | patchFailed controller n =>
    controller.name ++ " controller for namespace " ++ n ++ " failed to apply"
  | rerunFailed n job => "Failed to rerun job " ++ n ++ "/" ++ job
  | annotationUnreadable key n c =>
    "Failed to parse annotation " ++ key ++ " of configmap " ++ n ++ "/" ++ c

/-- The notice as a line: its severity and its words. -/
def line (n : Notice) : String := (if n.isWarning then "WARN " else "ERROR ") ++ n.message

end Notice

end ImageRollout
