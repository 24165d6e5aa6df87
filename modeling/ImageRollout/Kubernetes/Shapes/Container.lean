import ImageRollout.Kubernetes.Shapes.Metadata

/-!
# Shapes of containers

What a container holds beside its name, its image and its pull policy.
-/

namespace ImageRollout.Kubernetes.Shapes

open Shape

/-- Where the value of an environment variable comes from. -/
def valueSource : Shape :=
  of [] [("configMapKeyRef", keySelector), ("fieldRef", fieldSelector),
    ("fileKeyRef", of (texts ["key", "path", "volumeName"]) [("optional", bool)]),
    ("resourceFieldRef", resourceSelector), ("secretKeyRef", keySelector)]

/-- An environment variable. -/
def environmentVariable : Shape := of (texts ["name"]) [("value", text), ("valueFrom", valueSource)]

/-- A config map or secret, by a name that need not exist. -/
def optionalReference : Shape := of (texts ["name"]) [("optional", bool)]

/-- A source of many environment variables. -/
def variablesSource : Shape :=
  of [] [("configMapRef", optionalReference), ("prefix", text), ("secretRef", optionalReference)]

/-- A command to run. -/
def command : Shape := of [] [("command", textList)]

/-- A request to send. -/
def httpGet : Shape :=
  of [("port", intOrText)]
    (texts ["host", "path", "scheme"] ++ [("httpHeaders", list (of (texts ["name", "value"]) []))])

/-- A connection to open. -/
def tcpSocket : Shape := of [("port", intOrText)] (texts ["host"])

/-- What to do at a point of a container's life. -/
def handler : Shape :=
  of [] [("exec", command), ("httpGet", httpGet), ("sleep", of [("seconds", int64)] []),
    ("tcpSocket", tcpSocket)]

/-- A probe of a container. -/
def probe : Shape :=
  of [] ([("exec", command), ("grpc", of [("port", int32)] (texts ["service"])),
    ("httpGet", httpGet), ("tcpSocket", tcpSocket), ("terminationGracePeriodSeconds", int64)] ++
    each int32 ["failureThreshold", "initialDelaySeconds", "periodSeconds", "successThreshold",
      "timeoutSeconds"])

/-- A profile by its type. -/
def profile : Shape := of (texts ["type"]) (texts ["localhostProfile"])

/-- Options of SELinux. -/
def seLinux : Shape := of [] (texts ["level", "role", "type", "user"])

/-- Options of Windows. -/
def windows : Shape :=
  of [] (("hostProcess", bool) ::
    texts ["gmsaCredentialSpec", "gmsaCredentialSpecName", "runAsUserName"])

/-- What a container may do. -/
def securityContext : Shape :=
  of [] (each bool ["allowPrivilegeEscalation", "privileged", "readOnlyRootFilesystem",
      "runAsNonRoot"] ++ each int64 ["runAsGroup", "runAsUser"] ++
    [("appArmorProfile", profile), ("capabilities", of [] (each textList ["add", "drop"])),
      ("procMount", text), ("seLinuxOptions", seLinux), ("seccompProfile", profile),
      ("windowsOptions", windows)])

/-- A port of a container. -/
def containerPort : Shape :=
  of [("containerPort", int32)] (("hostPort", int32) :: texts ["hostIP", "name", "protocol"])

/-- When a container is started again. -/
def restartRule : Shape :=
  of (texts ["action"]) [("exitCodes", of (texts ["operator"]) [("values", list int32)])]

/-- A volume inside a container. -/
def volumeMount : Shape :=
  of (texts ["mountPath", "name"])
    (("readOnly", bool) ::
      texts ["mountPropagation", "recursiveReadOnly", "subPath", "subPathExpr"])

/-- A container beside its name, its image and its pull policy. -/
def containerRest : List (String × Shape) :=
  each textList ["args", "command"] ++ each bool ["stdin", "stdinOnce", "tty"] ++
  each probe ["livenessProbe", "readinessProbe", "startupProbe"] ++
  texts ["restartPolicy", "terminationMessagePath", "terminationMessagePolicy", "workingDir"] ++
  [("env", list environmentVariable), ("envFrom", list variablesSource),
    ("lifecycle", of [] [("postStart", handler), ("preStop", handler), ("stopSignal", text)]),
    ("ports", list containerPort),
    ("resizePolicy", list (of (texts ["resourceName", "restartPolicy"]) [])),
    ("resources", resources), ("restartPolicyRules", list restartRule),
    ("securityContext", securityContext),
    ("volumeDevices", list (of (texts ["devicePath", "name"]) [])),
    ("volumeMounts", list volumeMount)]

/-- A container that is put into a running pod. -/
def ephemeralContainer : Shape :=
  of (texts ["name"]) (texts ["image", "imagePullPolicy", "targetContainerName"] ++ containerRest)

end ImageRollout.Kubernetes.Shapes
