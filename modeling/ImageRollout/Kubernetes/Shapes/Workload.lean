import ImageRollout.Kubernetes.Shapes.Metadata

/-!
# Shapes of workloads

What deployments, jobs, config maps and namespaces hold beside their metadata and pod templates.
-/

namespace ImageRollout.Kubernetes.Shapes

open Shape

/-- A deployment's specification beside the pod template. -/
def deploymentSpecRest : Fields :=
  let strategy := of [] [("rollingUpdate", of [] (each intOrText ["maxSurge", "maxUnavailable"])),
    ("type", text)]
  .prepend true [("selector", labelSelector)] <| .prepend false
    (("paused", bool) :: ("strategy", strategy) :: each int32 ["minReadySeconds",
      "progressDeadlineSeconds", "replicas", "revisionHistoryLimit"]) .nil

/-- A deployment's status. -/
def deploymentStatus : Shape :=
  of [] (("conditions", list (condition ["lastTransitionTime", "lastUpdateTime"])) ::
    ("observedGeneration", int64) :: each int32 ["availableReplicas", "collisionCount",
      "readyReplicas", "replicas", "terminatingReplicas", "unavailableReplicas", "updatedReplicas"])

/-- What to do when a pod of a job fails. -/
def podFailurePolicy : Shape :=
  let exitCodes := of [("operator", text), ("values", list int32)] [("containerName", text)]
  of [("rules", list (of (texts ["action"])
    [("onExitCodes", exitCodes), ("onPodConditions", list (of (texts ["status", "type"]) []))]))] []

/-- A job's specification beside the selector and the pod template. -/
def jobSpecRest : List (String × Shape) :=
  each int32 ["backoffLimit", "backoffLimitPerIndex", "completions", "maxFailedIndexes",
    "parallelism", "ttlSecondsAfterFinished"] ++ each bool ["manualSelector", "suspend"] ++
  texts ["completionMode", "managedBy", "podReplacementPolicy"] ++
  [("activeDeadlineSeconds", int64), ("podFailurePolicy", podFailurePolicy),
    ("successPolicy", of [("rules", list (of [] [("succeededCount", int32),
      ("succeededIndexes", text)]))] [])]

/-- A job's status. -/
def jobStatus : Shape :=
  of [] (each int32 ["active", "failed", "ready", "succeeded", "terminating"] ++
    each instant ["completionTime", "startTime"] ++ texts ["completedIndexes", "failedIndexes"] ++
    [("conditions", list (condition ["lastProbeTime", "lastTransitionTime"])),
      ("uncountedTerminatedPods", of [] (each textList ["failed", "succeeded"]))])

/-- A config map beside its metadata. -/
def configMapRest : List (String × Shape) :=
  [("binaryData", map base64), ("data", textMap), ("immutable", bool)]

/-- A namespace beside its metadata. -/
def namespaceRest : List (String × Shape) :=
  [("spec", of [] [("finalizers", textList)]),
    ("status", of [] [("conditions", list (condition ["lastTransitionTime"])), ("phase", text)])]

end ImageRollout.Kubernetes.Shapes
