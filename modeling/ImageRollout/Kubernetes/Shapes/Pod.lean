import ImageRollout.Kubernetes.Shapes.Volume

/-!
# Shapes of pods

What a pod holds beside its containers.
-/

namespace ImageRollout.Kubernetes.Shapes

open Shape

/-- Requirements on a node. -/
def nodeTerm : Shape := of [] (each (list requirement) ["matchExpressions", "matchFields"])

/-- Requirements on the pods around. -/
def podTerm : Shape :=
  of (texts ["topologyKey"])
    (each labelSelector ["labelSelector", "namespaceSelector"] ++
      each textList ["matchLabelKeys", "mismatchLabelKeys", "namespaces"])

/-- Nearness to other pods. -/
def podAffinity : Shape :=
  of [] [("preferredDuringSchedulingIgnoredDuringExecution",
      list (of [("podAffinityTerm", podTerm), ("weight", int32)] [])),
    ("requiredDuringSchedulingIgnoredDuringExecution", list podTerm)]

/-- Where a pod may be placed. -/
def affinity : Shape :=
  let node := of [] [("preferredDuringSchedulingIgnoredDuringExecution",
      list (of [("preference", nodeTerm), ("weight", int32)] [])),
    ("requiredDuringSchedulingIgnoredDuringExecution",
      of [("nodeSelectorTerms", list nodeTerm)] [])]
  of [] [("nodeAffinity", node), ("podAffinity", podAffinity), ("podAntiAffinity", podAffinity)]

/-- How pods are spread. -/
def spread : Shape :=
  of (("maxSkew", int32) :: texts ["topologyKey", "whenUnsatisfiable"])
    ([("labelSelector", labelSelector), ("matchLabelKeys", textList), ("minDomains", int32)] ++
      texts ["nodeAffinityPolicy", "nodeTaintsPolicy"])

/-- What all containers of a pod may do. -/
def podSecurityContext : Shape :=
  of [] (each int64 ["fsGroup", "runAsGroup", "runAsUser"] ++
    texts ["fsGroupChangePolicy", "seLinuxChangePolicy", "supplementalGroupsPolicy"] ++
    [("appArmorProfile", profile), ("runAsNonRoot", bool), ("seLinuxOptions", seLinux),
      ("seccompProfile", profile), ("supplementalGroups", list int64),
      ("sysctls", list (of (texts ["name", "value"]) [])), ("windowsOptions", windows)])

/-- How a pod resolves names. -/
def dnsConfig : Shape :=
  of [] [("nameservers", textList), ("options", list (of [] (texts ["name", "value"]))),
    ("searches", textList)]

/-- A pod beside its containers. -/
def podRest : List (String × Shape) :=
  each bool ["automountServiceAccountToken", "enableServiceLinks", "hostIPC", "hostNetwork",
    "hostPID", "hostUsers", "setHostnameAsFQDN", "shareProcessNamespace"] ++
  each int64 ["activeDeadlineSeconds", "terminationGracePeriodSeconds"] ++
  texts ["dnsPolicy", "hostname", "hostnameOverride", "nodeName", "preemptionPolicy",
    "priorityClassName", "restartPolicy", "runtimeClassName", "schedulerName", "serviceAccount",
    "serviceAccountName", "subdomain"] ++
  [("affinity", affinity), ("dnsConfig", dnsConfig),
    ("ephemeralContainers", list ephemeralContainer),
    ("hostAliases", list (of (texts ["ip"]) [("hostnames", textList)])),
    ("imagePullSecrets", list localReference), ("nodeSelector", textMap),
    ("os", of (texts ["name"]) []), ("overhead", quantities), ("priority", int32),
    ("readinessGates", list (of (texts ["conditionType"]) [])),
    ("resourceClaims", list (of (texts ["name"])
      (texts ["resourceClaimName", "resourceClaimTemplateName"]))),
    ("resources", resources), ("schedulingGates", list (of (texts ["name"]) [])),
    ("securityContext", podSecurityContext),
    ("tolerations", list (of [] (("tolerationSeconds", int64) ::
      texts ["effect", "key", "operator", "value"]))),
    ("topologySpreadConstraints", list spread), ("volumes", list volume)]

end ImageRollout.Kubernetes.Shapes
