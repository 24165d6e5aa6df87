import ImageRollout.Json.Reader
import ImageRollout.Kubernetes.ConfigMap
import ImageRollout.Text.Names

/-!
# Deployments of a config map

A config map belongs to the deployment whose name it carries before `-config`, and to those that
its annotation names in a JSON array.  An annotation that is no such array names none.
-/

namespace ImageRollout.ConfigMaps

open Kubernetes

/-- The ending that ties a config map to the deployment of the same name. -/
def nameSuffix : String := "-config"

/-- The annotation that names further deployments. -/
def associationKey : String := "laborer.configmap.associate.deployment"

/-- The deployment that a config map's name ties it to. -/
def deploymentOfName? (name : String) : Option String :=
  (nameSuffix.toList.isSuffixOf? name.toList).map String.ofList

/-- The names in an annotation. -/
def namesInAnnotation? (written : String) : Option (List String) :=
  (Json.parseText? written).bind (Json.listOf? Json.text?)

/-- The names in a config map's annotation, none if it has no annotation or an unreadable one. -/
def annotatedNames (c : ConfigMap) : List String :=
  ((c.metadata.annotated? associationKey).bind namesInAnnotation?).getD []

/-- Whether the config map has an annotation that cannot be read. -/
def hasUnreadableAnnotation (c : ConfigMap) : Bool :=
  (c.metadata.annotated? associationKey).any (namesInAnnotation? · |>.isNone)

/-- The deployments to restart when the config map changes, in ascending order. -/
def deployments (c : ConfigMap) : List String :=
  Text.ascending ((deploymentOfName? c.name).toList ++ annotatedNames c)

end ImageRollout.ConfigMaps
