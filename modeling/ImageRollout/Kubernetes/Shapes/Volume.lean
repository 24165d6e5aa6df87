import ImageRollout.Kubernetes.Shapes.Container

/-!
# Shapes of volumes

The sources that a volume of a pod can come from.
-/

namespace ImageRollout.Kubernetes.Shapes

open Shape

/-- A key and the file it becomes. -/
def keyToPath : Shape := of (texts ["key", "path"]) [("mode", int32)]

/-- A file that tells of the pod. -/
def podFile : Shape :=
  of (texts ["path"])
    [("fieldRef", fieldSelector), ("mode", int32), ("resourceFieldRef", resourceSelector)]

/-- The claim that is made for a pod's own volume. -/
def claimTemplate : Shape :=
  let spec := of [] ([("accessModes", textList),
    ("dataSource", of (texts ["kind", "name"]) (texts ["apiGroup"])),
    ("dataSourceRef", of (texts ["kind", "name"]) (texts ["apiGroup", "namespace"])),
    ("resources", of [] (each quantities ["limits", "requests"])), ("selector", labelSelector)] ++
    texts ["storageClassName", "volumeAttributesClassName", "volumeMode", "volumeName"])
  of [("spec", spec)] [("metadata", metadata)]

/-- Keys of a named config map or secret as files. -/
def keyedFiles : List (String × Shape) := [("items", list keyToPath), ("optional", bool)]

/-- One of several sources that share a directory. -/
def projection : Shape :=
  of [] [("clusterTrustBundle", of (texts ["path"])
      (("labelSelector", labelSelector) :: ("optional", bool) :: texts ["name", "signerName"])),
    ("configMap", of (texts ["name"]) keyedFiles),
    ("downwardAPI", of [] [("items", list podFile)]),
    ("podCertificate", of (texts ["keyType", "signerName"])
      (("maxExpirationSeconds", int32) ::
        texts ["certificateChainPath", "credentialBundlePath", "keyPath"])),
    ("secret", of (texts ["name"]) keyedFiles),
    ("serviceAccountToken", of (texts ["path"])
      [("audience", text), ("expirationSeconds", int64)])]

/-- Sources inside the cluster. -/
def clusterVolumes : List (String × Shape) :=
  [("configMap", of (texts ["name"]) (("defaultMode", int32) :: keyedFiles)),
    ("csi", of (texts ["driver"]) [("fsType", text), ("nodePublishSecretRef", localReference),
      ("readOnly", bool), ("volumeAttributes", textMap)]),
    ("downwardAPI", of [] [("defaultMode", int32), ("items", list podFile)]),
    ("emptyDir", of [] (texts ["medium", "sizeLimit"])),
    ("ephemeral", of [] [("volumeClaimTemplate", claimTemplate)]),
    ("hostPath", of (texts ["path"]) (texts ["type"])),
    ("image", of [] (texts ["pullPolicy", "reference"])),
    ("persistentVolumeClaim", of (texts ["claimName"]) [("readOnly", bool)]),
    ("projected", of [] [("defaultMode", int32), ("sources", list projection)]),
    ("secret", of [] (("defaultMode", int32) :: ("secretName", text) :: keyedFiles))]

/-- Sources on a storage system. -/
def storageVolumes : List (String × Shape) :=
  [("awsElasticBlockStore", of (texts ["volumeID"])
      [("fsType", text), ("partition", int32), ("readOnly", bool)]),
    ("azureDisk", of (texts ["diskName", "diskURI"])
      (("readOnly", bool) :: texts ["cachingMode", "fsType", "kind"])),
    ("azureFile", of (texts ["secretName", "shareName"]) [("readOnly", bool)]),
    ("cephfs", of [("monitors", textList)] (("readOnly", bool) :: ("secretRef", localReference) ::
      texts ["path", "secretFile", "user"])),
    ("cinder", of (texts ["volumeID"])
      [("fsType", text), ("readOnly", bool), ("secretRef", localReference)]),
    ("fc", of [] [("fsType", text), ("lun", int32), ("readOnly", bool), ("targetWWNs", textList),
      ("wwids", textList)]),
    ("flexVolume", of (texts ["driver"]) [("fsType", text), ("options", textMap),
      ("readOnly", bool), ("secretRef", localReference)]),
    ("flocker", of [] (texts ["datasetName", "datasetUUID"])),
    ("gcePersistentDisk", of (texts ["pdName"])
      [("fsType", text), ("partition", int32), ("readOnly", bool)]),
    ("gitRepo", of (texts ["repository"]) (texts ["directory", "revision"])),
    ("glusterfs", of (texts ["endpoints", "path"]) [("readOnly", bool)]),
    ("iscsi", of (("lun", int32) :: texts ["iqn", "targetPortal"])
      (each bool ["chapAuthDiscovery", "chapAuthSession", "readOnly"] ++
        [("portals", textList), ("secretRef", localReference)] ++
        texts ["fsType", "initiatorName", "iscsiInterface"])),
    ("nfs", of (texts ["path", "server"]) [("readOnly", bool)]),
    ("photonPersistentDisk", of (texts ["pdID"]) (texts ["fsType"])),
    ("portworxVolume", of (texts ["volumeID"]) [("fsType", text), ("readOnly", bool)]),
    ("quobyte", of (texts ["registry", "volume"])
      (("readOnly", bool) :: texts ["group", "tenant", "user"])),
    ("rbd", of (("monitors", textList) :: texts ["image"]) (("readOnly", bool) ::
      ("secretRef", localReference) :: texts ["fsType", "keyring", "pool", "user"])),
    ("scaleIO", of (("secretRef", localReference) :: texts ["gateway", "system"])
      (each bool ["readOnly", "sslEnabled"] ++
        texts ["fsType", "protectionDomain", "storageMode", "storagePool", "volumeName"])),
    ("storageos", of [] (("readOnly", bool) :: ("secretRef", localReference) ::
      texts ["fsType", "volumeName", "volumeNamespace"])),
    ("vsphereVolume", of (texts ["volumePath"])
      (texts ["fsType", "storagePolicyID", "storagePolicyName"]))]

/-- A volume of a pod. -/
def volume : Shape := of (texts ["name"]) (clusterVolumes ++ storageVolumes)

end ImageRollout.Kubernetes.Shapes
