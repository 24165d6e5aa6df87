import ImageRollout.Cluster.Server
import ImageRollout.Proofs.Rollout.Effect

/-!
# The images of a cluster

The deployments that a cluster holds, by namespace, and the clusters that differ from it in nothing
but the images of containers in some namespaces.

* `mem_deploymentsIn`, `perm_list`, `nodup_names`: the deployments of a namespace.
* `mapImagesIn_mapImagesIn`, `mapImagesIn_concat`: images that are changed in several steps.
* `isProper_mapImagesIn`, `deploymentsIn_mapImagesIn`: what a change of images leaves as it is.
-/

namespace ImageRollout.Cluster

open Image Kubernetes Rollout

/-- The deployment that an object of a namespace is. -/
def Object.deploymentIn? (n : String) (o : Object) : Option Deployment :=
  if o.namespaceName = n then o.deployment? else none

/-- The object with other images for the containers of a deployment, if it is one of a managed
namespace. -/
def Object.mapImagesIn (managed : List String) (f : String → String) : Object → Object
  | deployment d =>
    if (deployment d).namespaceName ∈ managed then deployment (mapImages f d) else deployment d
  | o => o

namespace Server

/-- The deployments of a namespace. -/
def deploymentsIn (n : String) (s : Server) : List Deployment :=
  s.objects.filterMap (Object.deploymentIn? n)

/-- The cluster with other images for the containers of all deployments in managed namespaces, and
all else as it was. -/
def mapImagesIn (managed : List String) (f : String → String) (s : Server) : Server :=
  { s with objects := s.objects.map (Object.mapImagesIn managed f) }

/-- Objects are told apart by what they are called, and containers of one deployment by name. -/
structure IsProper (s : Server) : Prop where
  distinct : s.objects.Pairwise fun a b => a.isSame b = false
  named : ∀ d, .deployment d ∈ s.objects → HasDistinctNames d

variable {s : Server} {n : String} {managed : List String} {f g : String → String}

theorem deploymentIn?_eq_some_iff {o : Object} {d : Deployment} :
    o.deploymentIn? n = some d ↔ o = .deployment d ∧ o.namespaceName = n := by
  rw [Object.deploymentIn?]
  cases o <;> simp [Object.deployment?, and_comm]

theorem mem_deploymentsIn {d : Deployment} :
    d ∈ s.deploymentsIn n ↔
      .deployment d ∈ s.objects ∧ (Object.deployment d).namespaceName = n := by
  rw [deploymentsIn, List.mem_filterMap]
  constructor
  · rintro ⟨o, ho, hd⟩
    obtain ⟨rfl, hn⟩ := deploymentIn?_eq_some_iff.1 hd
    exact ⟨ho, hn⟩
  · rintro ⟨hd, hn⟩
    exact ⟨_, hd, if_pos hn⟩

/-- A complete list of a namespace's deployments holds what the cluster holds. -/
theorem perm_list (hn : n ≠ "") :
    ((s.list .deployment n).filterMap Object.deployment?).Perm (s.deploymentsIn n) := by
  have hsame : (fun o : Object => if (o.kind = .deployment && (n = "" || o.namespaceName = n)) then
      o.deployment? else none) = Object.deploymentIn? n := by
    funext o
    cases o <;> simp [Object.deploymentIn?, Object.kind, Object.deployment?, hn]
  refine ((List.mergeSort_perm _ _).filterMap _).trans ?_
  rw [deploymentsIn, List.filterMap_filter, ← hsame]

/-- Deployments of one namespace have different names. -/
theorem nodup_names (hs : s.IsProper) (n : String) :
    ((s.deploymentsIn n).map (·.name)).Nodup := by
  rw [List.Nodup, List.pairwise_map, deploymentsIn, List.pairwise_filterMap]
  refine hs.distinct.imp fun {a b} hdistinct d hd e he hname => ?_
  obtain ⟨rfl, hn⟩ := deploymentIn?_eq_some_iff.1 hd
  obtain ⟨rfl, hn'⟩ := deploymentIn?_eq_some_iff.1 he
  have hsame : (Object.deployment d).isSame (.deployment e) = true := by
    have hobject : (Object.deployment d).name = (Object.deployment e).name := hname
    simp [Object.isSame, Object.kind, hn, hn', hobject]
  rw [hsame] at hdistinct
  cases hdistinct

theorem isSame_eq_true_iff {a b : Object} : a.isSame b = true ↔
    a.kind = b.kind ∧ a.namespaceName = b.namespaceName ∧ a.name = b.name := by
  simp [Object.isSame, and_assoc]

/-- Changing images changes nothing by which objects are told apart. -/
theorem isSame_mapImagesIn (a b : Object) :
    (a.mapImagesIn managed f).isSame (b.mapImagesIn managed f) = a.isSame b := by
  have hkept : ∀ o : Object, (o.mapImagesIn managed f).kind = o.kind ∧
      (o.mapImagesIn managed f).metadata = o.metadata := by
    intro o
    cases o with
    | deployment d =>
        rw [Object.mapImagesIn]
        split
        · exact ⟨rfl, rfl⟩
        · exact ⟨rfl, rfl⟩
    | namespaceObject | configMap | job => exact ⟨rfl, rfl⟩
  obtain ⟨hkind, hmetadata⟩ := hkept a
  obtain ⟨hkind', hmetadata'⟩ := hkept b
  rw [Bool.eq_iff_iff, isSame_eq_true_iff, isSame_eq_true_iff, Object.namespaceName,
    Object.namespaceName, Object.name, Object.name, hkind, hmetadata, hkind', hmetadata']
  rfl

theorem isProper_mapImagesIn (hs : s.IsProper) : (s.mapImagesIn managed f).IsProper where
  distinct := by
    rw [mapImagesIn, List.pairwise_map]
    exact hs.distinct.imp fun {a b} hdistinct => (isSame_mapImagesIn a b).trans hdistinct
  named := by
    intro d hd
    obtain ⟨o, ho, heq⟩ := List.mem_map.1 hd
    cases o with
    | deployment old =>
        rw [Object.mapImagesIn] at heq
        split at heq
        · cases heq
          exact hasDistinctNames_mapImages (hs.named old ho)
        · cases heq
          exact hs.named d ho
    | namespaceObject | configMap | job => cases heq

/-- Images that are changed twice are changed by the one and then by the other. -/
theorem mapImagesIn_mapImagesIn :
    (s.mapImagesIn managed f).mapImagesIn managed g = s.mapImagesIn managed (g ∘ f) := by
  have hobject : ∀ o : Object,
      (o.mapImagesIn managed f).mapImagesIn managed g = o.mapImagesIn managed (g ∘ f) := by
    intro o
    cases o with
    | deployment d =>
        by_cases hn : (Object.deployment d).namespaceName ∈ managed
        · have hn' : (Object.deployment (mapImages f d)).namespaceName ∈ managed := hn
          simp only [Object.mapImagesIn, if_pos hn, if_pos hn', mapImages_mapImages]
        · simp only [Object.mapImagesIn, if_neg hn]
    | namespaceObject | configMap | job => rfl
  simp [mapImagesIn, hobject]

/-- The images of one more namespace are changed. -/
theorem mapImagesIn_concat (hn : n ∉ managed) :
    (s.mapImagesIn managed f).mapImagesIn [n] f = s.mapImagesIn (managed ++ [n]) f := by
  have hobject : ∀ o : Object,
      (o.mapImagesIn managed f).mapImagesIn [n] f = o.mapImagesIn (managed ++ [n]) f := by
    intro o
    cases o with
    | deployment d =>
        by_cases hd : (Object.deployment d).namespaceName ∈ managed
        · have hd' : (Object.deployment (mapImages f d)).namespaceName ≠ n :=
            fun heq => hn (heq ▸ hd)
          simp [Object.mapImagesIn, hd, hd']
        · simp [Object.mapImagesIn, hd]
    | namespaceObject | configMap | job => rfl
  simp [mapImagesIn, hobject]

/-- In other namespaces the deployments stay as they are. -/
theorem deploymentsIn_mapImagesIn (hn : n ∉ managed) :
    (s.mapImagesIn managed f).deploymentsIn n = s.deploymentsIn n := by
  have hobject : ∀ o : Object, (o.mapImagesIn managed f).deploymentIn? n = o.deploymentIn? n := by
    intro o
    cases o with
    | deployment d =>
        by_cases hd : (Object.deployment d).namespaceName ∈ managed
        · have hne : (Object.deployment d).namespaceName ≠ n := fun heq => hn (heq ▸ hd)
          have hne' : (Object.deployment (mapImages f d)).namespaceName ≠ n := hne
          rw [Object.mapImagesIn, if_pos hd, Object.deploymentIn?, Object.deploymentIn?,
            if_neg hne, if_neg hne']
        · rw [Object.mapImagesIn, if_neg hd]
    | namespaceObject | configMap | job => rfl
  simp [deploymentsIn, mapImagesIn, List.filterMap_map, hobject]

theorem mapImagesIn_id : s.mapImagesIn managed id = s := by
  have hobject : Object.mapImagesIn managed id = id := by
    funext o
    cases o with
    | deployment d =>
        have hsame : mapImages id d = d := mapImages_eq_self fun _ _ c _ => by simp [mapImage]
        simp [Object.mapImagesIn, hsame]
    | namespaceObject | configMap | job => rfl
  rw [mapImagesIn, hobject, List.map_id]

theorem mapImagesIn_congr {order : List String} (h : ∀ n, n ∈ order ↔ n ∈ managed) :
    s.mapImagesIn order f = s.mapImagesIn managed f := by
  have hobject : Object.mapImagesIn order f = Object.mapImagesIn managed f := by
    funext o
    cases o with
    | deployment d => simp only [Object.mapImagesIn, h]
    | namespaceObject | configMap | job => rfl
  rw [mapImagesIn, hobject, mapImagesIn]

/-- In a managed namespace the images of every deployment are changed. -/
theorem exists_of_mem_mapImagesIn {d : Deployment} (hn : n ∈ managed)
    (h : d ∈ (s.mapImagesIn managed f).deploymentsIn n) : ∃ old, d = mapImages f old := by
  obtain ⟨hobject, hnamespace⟩ := mem_deploymentsIn.1 h
  obtain ⟨o, -, heq⟩ := List.mem_map.1 hobject
  cases o with
  | deployment old =>
      rw [Object.mapImagesIn] at heq
      split at heq
      next =>
        cases heq
        exact ⟨old, rfl⟩
      next hold =>
        cases heq
        exact absurd (hnamespace ▸ hn) hold
  | namespaceObject | configMap | job => cases heq

end Server

end ImageRollout.Cluster
