import ImageRollout.Kubernetes.ConfigMap
import ImageRollout.Kubernetes.Deployment
import ImageRollout.Kubernetes.Job
import ImageRollout.Notice

/-!
# Objects of a cluster

An API server holds objects of several kinds, which it tells apart by kind, namespace and name.
-/

namespace ImageRollout.Cluster

open Kubernetes

/-- An object of one of the kinds that are watched. -/
inductive Object where
  | namespaceObject (object : Namespace)
  | configMap (object : ConfigMap)
  | deployment (object : Deployment)
  | job (object : Job)

namespace Object

/-- The kind of the object. -/
def kind : Object → Kind
  | namespaceObject _ => .namespaces
  | configMap _ => .configMap
  | deployment _ => .deployment
  | job _ => .job

/-- The metadata of the object. -/
def metadata : Object → Metadata
  | namespaceObject o => o.metadata
  | configMap o => o.metadata
  | deployment o => o.metadata
  | job o => o.metadata

/-- The object with other metadata. -/
def withMetadata (m : Metadata) : Object → Object
  | namespaceObject o => namespaceObject { o with metadata := m }
  | configMap o => configMap { o with metadata := m }
  | deployment o => deployment { o with metadata := m }
  | job o => job { o with metadata := m }

/-- The name of the object. -/
def name (o : Object) : String := o.metadata.anyName

/-- The namespace of the object, empty where it is in none. -/
def namespaceName (o : Object) : String := o.metadata.namespaceName.getD ""

/-- The version under which the object is stored. -/
def version (o : Object) : String := o.metadata.resourceVersion.getD ""

/-- The object under a version, if it has none. -/
def versioned (version : String) (o : Object) : Object :=
  o.withMetadata { o.metadata with
    resourceVersion := o.metadata.resourceVersion.or (some version) }

/-- Whether two objects are versions of the same. -/
def isSame (a b : Object) : Bool :=
  a.kind = b.kind && a.namespaceName = b.namespaceName && a.name = b.name

/-- The object that a document of a kind holds. -/
def ofJson? (kind : Kind) (v : Json) : Option Object :=
  match kind with
  | .namespaces => (Namespace.ofJson? v).map namespaceObject
  | .configMap => (ConfigMap.ofJson? v).map configMap
  | .deployment => (Deployment.ofJson? v).map deployment
  | .job => (Job.ofJson? v).map job

/-- The namespace that the object is. -/
def namespace? : Object → Option Namespace
  | namespaceObject o => some o
  | _ => none

/-- The config map that the object is. -/
def configMap? : Object → Option ConfigMap
  | configMap o => some o
  | _ => none

/-- The deployment that the object is. -/
def deployment? : Object → Option Deployment
  | deployment o => some o
  | _ => none

/-- The job that the object is. -/
def job? : Object → Option Job
  | job o => some o
  | _ => none

end Object

/-- The kind of a name. -/
def kindOfName? : String → Option Kind
  | "Namespace" => some .namespaces
  | "ConfigMap" => some .configMap
  | "Deployment" => some .deployment
  | "Job" => some .job
  | _ => none

end ImageRollout.Cluster
