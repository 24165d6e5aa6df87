import Mathlib.Data.List.Forall2
import ImageRollout.Proofs.Text.Replacing
import ImageRollout.Rerun.Copy
import ImageRollout.Rerun.Decision
import ImageRollout.Table

/-!
# What the copy of a job keeps

A job is created anew from a copy that lacks what the server assigned to the old one, and in which
no revision is recorded as running.  In all else the copy is the job, down to maps that are left
without entries.  It still selects the pods that it makes, and a push that would make the job run
again would make the copy run again.

* `replaces_unfinished`, `unfinished_unfinished`: the record of revisions.
* `isCreatable_copy`, `keepsRest_copy`: what is gone, and what is kept.
* `copy_copy`, `selects_copy`, `needsRerun_copy`: the copy of a copy, its pods, and pushes.
* `copy_keeps_rest`: all of it.
-/

namespace ImageRollout

namespace Kubernetes

section TextMaps

variable {key other : String} {f g : String → String}

theorem TextMap.change_eq (m : TextMap) :
    m.change key f = m.map fun e => if e.1 = key then (e.1, f e.2) else e := rfl

/-- Two changes of one entry are one change. -/
theorem TextMap.change_change (m : TextMap) :
    (m.change key f).change key g = m.change key fun v => g (f v) := by
  rw [change_eq, change_eq, change_eq, List.map_map]
  refine List.map_congr_left fun e _ => ?_
  by_cases h : e.1 = key <;> simp [h]

/-- A change of an entry leaves the others alone. -/
theorem TextMap.lookup_change_of_ne (h : other ≠ key) (m : TextMap) :
    (m.change key f).lookup other = m.lookup other := by
  induction m with
  | nil => rfl
  | cons e rest ih =>
      obtain ⟨k, v⟩ := e
      rw [change_eq] at ih ⊢
      rw [List.map_cons]
      by_cases hk : k = key
      · have hother : other ≠ k := hk ▸ h
        rw [if_pos hk, Table.lookup_cons, Table.lookup_cons, if_neg hother, if_neg hother, ih]
      · rw [if_neg hk, Table.lookup_cons, Table.lookup_cons, ih]

end TextMaps

/-- The labels that a job's selector asks for. -/
def Job.matchLabels? (j : Job) : Option TextMap := (j.spec.bind (·.selector)).bind (·.matchLabels)

/-- The labels of the pods that a job makes. -/
def Job.podLabels? (j : Job) : Option TextMap :=
  (j.spec.bind (·.template.metadata)).bind (·.labels)

/-- Every label that the job's selector asks for is a label of the pods that it makes. -/
def Job.Selects (j : Job) : Prop :=
  ∀ asked ∈ j.matchLabels?, ∀ e ∈ asked, ∃ labels ∈ j.podLabels?, e ∈ labels

end Kubernetes

namespace Rerun

open Kubernetes

/-- What a server accepts as a new job: one to which nothing was assigned yet, and of which no
revision is said to be running. -/
structure IsCreatable (j : Job) : Prop where
  uid : j.metadata.uid = none
  resourceVersion : j.metadata.resourceVersion = none
  creationTimestamp : j.metadata.creationTimestamp = none
  managedFields : j.metadata.managedFields = none
  status : j.status = none
  matchLabels : ∀ labels ∈ j.matchLabels?, ∀ e ∈ labels,
    e.1 ≠ "controller-uid" ∧ e.1 ≠ "batch.kubernetes.io/controller-uid"
  podLabels : ∀ labels ∈ j.podLabels?, ∀ e ∈ labels,
    e.1 ≠ "controller-uid" ∧ e.1 ≠ "batch.kubernetes.io/controller-uid"
  revisions : ∀ annotations ∈ j.metadata.annotations, ∀ e ∈ annotations,
    e.1 = "revisions" → ¬ "running".toList <:+: e.2.toList

/-- Two maps that are both there or both missing, with the same entries but for those that tie pods
to one job. -/
def SameButIdentity (labels labels' : Option TextMap) : Prop :=
  Option.Rel (fun m m' => m'.filter (·.1 ∉ identityLabels) = m.filter (·.1 ∉ identityLabels))
    labels labels'

/-- An annotation that is kept, or the record of revisions with a word replaced. -/
def IsKeptEntry (e e' : String × String) : Prop :=
  e'.1 = e.1 ∧
    if e.1 = "revisions" then
      Text.Replaces "running".toList "unfinished".toList e.2.toList e'.2.toList
    else e'.2 = e.2

/-- A specification that differs from another one at most in labels that tie pods to one job. -/
structure KeepsSpec (s s' : JobSpec) : Prop where
  rest : s'.rest = s.rest
  selector : Option.Rel
    (fun l l' => l'.rest = l.rest ∧ SameButIdentity l.matchLabels l'.matchLabels)
    s.selector s'.selector
  podSpec : s'.template.spec = s.template.spec
  podMetadata : Option.Rel
    (fun m m' => m' = { m with labels := m'.labels } ∧ SameButIdentity m.labels m'.labels)
    s.template.metadata s'.template.metadata

/-- A job that differs from another one at most in what the server assigns, in its status and in the
record of revisions. -/
structure KeepsRest (j k : Job) : Prop where
  metadata : k.metadata =
    { j.metadata with
      uid := k.metadata.uid, resourceVersion := k.metadata.resourceVersion
      creationTimestamp := k.metadata.creationTimestamp
      managedFields := k.metadata.managedFields, annotations := k.metadata.annotations }
  annotations : Option.Rel (List.Forall₂ IsKeptEntry) j.metadata.annotations
    k.metadata.annotations
  spec : Option.Rel KeepsSpec j.spec k.spec

section Revisions

/-- What replaces the word cannot help to make it up. -/
theorem isForeign_unfinished :
    Text.IsForeign ('r' :: "unning".toList) "unfinished".toList where
  head_notMem c hc := by
    obtain rfl : 'r' = c := Option.some.inj hc
    decide
  not_isPrefix := by decide
  length_le := by decide

theorem toList_unfinished (revisions : String) : (unfinished revisions).toList =
    Text.replaceAll 'r' "unning".toList "unfinished".toList revisions.toList :=
  String.toList_ofList

/-- **The record of revisions**, with one word for the other. -/
theorem replaces_unfinished (revisions : String) :
    Text.Replaces "running".toList "unfinished".toList revisions.toList
      (unfinished revisions).toList := by
  have hword : "running".toList = 'r' :: "unning".toList := by decide
  rw [toList_unfinished, hword]
  exact Text.replaces_replaceAll 'r' "unning".toList "unfinished".toList revisions.toList

/-- No revision is recorded as running any more. -/
theorem not_isInfix_unfinished (revisions : String) :
    ¬ "running".toList <:+: (unfinished revisions).toList :=
  Text.not_isInfix_of_replaces isForeign_unfinished (replaces_unfinished revisions)

/-- **Once no revision runs, the record stays.** -/
@[simp] theorem unfinished_unfinished (revisions : String) :
    unfinished (unfinished revisions) = unfinished revisions := by
  refine String.toList_inj.1 ?_
  rw [toList_unfinished, toList_unfinished, Text.replaceAll_replaceAll isForeign_unfinished]

end Revisions

section Labels

variable {labels labels' : Option TextMap}

theorem notMem_identityLabels {key : String} : key ∉ identityLabels ↔
    key ≠ "controller-uid" ∧ key ≠ "batch.kubernetes.io/controller-uid" := by
  simp [identityLabels]

/-- None of the labels that tie pods to one job is left. -/
theorem ne_of_mem_withoutIdentity {m : TextMap} {e : String × String}
    (h : e ∈ withoutIdentity m) :
    e.1 ≠ "controller-uid" ∧ e.1 ≠ "batch.kubernetes.io/controller-uid" := by
  obtain ⟨-, he⟩ := List.mem_filter.1 h
  exact notMem_identityLabels.1 (of_decide_eq_true he)

/-- To leave out labels a second time changes nothing. -/
@[simp] theorem withoutIdentity_withoutIdentity (m : TextMap) :
    withoutIdentity (withoutIdentity m) = withoutIdentity m := by
  simp [withoutIdentity, List.filter_filter]

/-- Labels without the tying ones are the same but for these. -/
theorem sameButIdentity_map (labels : Option TextMap) :
    SameButIdentity labels (labels.map withoutIdentity) := by
  cases labels with
  | none => exact .none
  | some m => exact .some (by simp [withoutIdentity, List.filter_filter])

/-- The copy selects by the labels of the job, without the tying ones. -/
theorem matchLabels?_copy (j : Job) :
    (copy j).matchLabels? = j.matchLabels?.map withoutIdentity := by
  cases hspec : j.spec with
  | none => simp [copy, Job.matchLabels?, hspec]
  | some s => cases hselector : s.selector <;>
      simp [copy, Job.matchLabels?, freshSpec, hspec, hselector]

/-- The pods of the copy have the labels of the job's pods, without the tying ones. -/
theorem podLabels?_copy (j : Job) : (copy j).podLabels? = j.podLabels?.map withoutIdentity := by
  cases hspec : j.spec with
  | none => simp [copy, Job.podLabels?, hspec]
  | some s => cases hmetadata : s.template.metadata <;>
      simp [copy, Job.podLabels?, freshSpec, hspec, hmetadata]

end Labels

/-- **What the server assigned is gone from the copy.** -/
theorem isCreatable_copy (j : Job) : IsCreatable (copy j) where
  uid := rfl
  resourceVersion := rfl
  creationTimestamp := rfl
  managedFields := rfl
  status := rfl
  matchLabels := by
    intro labels hlabels e he
    rw [matchLabels?_copy, Option.mem_def, Option.map_eq_some_iff] at hlabels
    obtain ⟨old, -, rfl⟩ := hlabels
    exact ne_of_mem_withoutIdentity he
  podLabels := by
    intro labels hlabels e he
    rw [podLabels?_copy, Option.mem_def, Option.map_eq_some_iff] at hlabels
    obtain ⟨old, -, rfl⟩ := hlabels
    exact ne_of_mem_withoutIdentity he
  revisions := by
    intro annotations hannotations e he hkey
    obtain ⟨old, -, rfl⟩ := Option.map_eq_some_iff.1 hannotations
    rw [TextMap.change_eq] at he
    obtain ⟨entry, -, rfl⟩ := List.mem_map.1 he
    by_cases hrevisions : entry.1 = revisionsKey
    · rw [if_pos hrevisions]
      exact not_isInfix_unfinished entry.2
    · rw [if_neg hrevisions] at hkey
      exact absurd hkey hrevisions

/-- The record of revisions is kept but for the word in it, and every other annotation is kept. -/
theorem isKeptEntry_change (e : String × String) :
    IsKeptEntry e (if e.1 = revisionsKey then (e.1, unfinished e.2) else e) := by
  rw [IsKeptEntry, ← revisionsKey]
  by_cases h : e.1 = revisionsKey
  · rw [if_pos h, if_pos h]
    exact ⟨rfl, replaces_unfinished e.2⟩
  · rw [if_neg h, if_neg h]
    exact ⟨rfl, rfl⟩

/-- The specification of the copy is that of the job but for the tying labels. -/
theorem keepsSpec_freshSpec (s : JobSpec) : KeepsSpec s (freshSpec s) where
  rest := rfl
  selector := by
    rw [freshSpec]
    cases s.selector with
    | none => exact .none
    | some l => exact .some ⟨rfl, sameButIdentity_map l.matchLabels⟩
  podSpec := rfl
  podMetadata := by
    rw [freshSpec]
    cases s.template.metadata with
    | none => exact .none
    | some m => exact .some ⟨rfl, sameButIdentity_map m.labels⟩

/-- **All else is kept.** -/
theorem keepsRest_copy (j : Job) : KeepsRest j (copy j) where
  metadata := rfl
  annotations := by
    rw [copy, freshMetadata]
    cases j.metadata.annotations with
    | none => exact .none
    | some annotations =>
        refine .some (List.forall₂_map_right_iff.2 ?_)
        exact List.forall₂_same.2 fun e _ => isKeptEntry_change e
  spec := by
    rw [copy]
    cases j.spec with
    | none => exact .none
    | some s => exact .some (keepsSpec_freshSpec s)

/-- To freshen metadata a second time changes nothing. -/
theorem freshMetadata_freshMetadata (m : Metadata) :
    freshMetadata (freshMetadata m) = freshMetadata m := by
  simp [freshMetadata, Function.comp_def, TextMap.change_change]

/-- To freshen a specification a second time changes nothing. -/
theorem freshSpec_freshSpec (s : JobSpec) : freshSpec (freshSpec s) = freshSpec s := by
  simp [freshSpec, Function.comp_def]

/-- **The copy of a copy is the copy.** -/
theorem copy_copy (j : Job) : copy (copy j) = copy j := by
  simp [copy, freshMetadata_freshMetadata, Function.comp_def, freshSpec_freshSpec]

/-- **The copy selects the pods that it makes**, if the job does. -/
theorem selects_copy {j : Job} (h : j.Selects) : (copy j).Selects := by
  intro asked hasked e he
  rw [matchLabels?_copy, Option.mem_def, Option.map_eq_some_iff] at hasked
  obtain ⟨old, hold, rfl⟩ := hasked
  obtain ⟨hmem, hkeeps⟩ := List.mem_filter.1 he
  obtain ⟨labels, hlabels, hlabel⟩ := h old hold e hmem
  refine ⟨withoutIdentity labels, ?_, List.mem_filter.2 ⟨hlabel, hkeeps⟩⟩
  rw [podLabels?_copy, Option.mem_def, hlabels]
  rfl

/-- **A push makes the copy run again exactly if it makes the job run again.** -/
theorem needsRerun_copy (push : Image.Push) (j : Job) :
    needsRerun push (copy j) = needsRerun push j := by
  have hkey : optInKey ≠ revisionsKey := by decide
  have hoptIn : (copy j).metadata.annotated? optInKey = j.metadata.annotated? optInKey := by
    rw [copy, freshMetadata, Metadata.annotated?, Metadata.annotated?]
    cases j.metadata.annotations with
    | none => rfl
    | some annotations => exact TextMap.lookup_change_of_ne hkey annotations
  have hpods : (copy j).podSpec? = j.podSpec? := by
    rw [copy, Job.podSpec?, Job.podSpec?]
    cases j.spec <;> rfl
  rw [needsRerun, needsRerun, takesPart, takesPart, hoptIn, hpods]

/-- **What the copy of a job is.**  What the server assigned to the job is gone from it, and no
revision is recorded as running.  It has every other field, entry and map of the job, also where a
map has lost its last entry.  The copy of the copy is the copy itself.  If the job selects the pods
that it makes, so does the copy; and every push makes both run again, or neither. -/
theorem copy_keeps_rest (j : Job) :
    IsCreatable (copy j) ∧ KeepsRest j (copy j) ∧ copy (copy j) = copy j ∧
      (j.Selects → (copy j).Selects) ∧
      ∀ push, needsRerun push (copy j) = needsRerun push j :=
  ⟨isCreatable_copy j, keepsRest_copy j, copy_copy j, selects_copy,
    fun push => needsRerun_copy push j⟩

/-- A job of which the first revision is recorded as running, and whose pods the server tied to it
by the only label that the selector asks for. -/
def tied : Job :=
  let labels : TextMap := [("controller-uid", "7")]
  { metadata := { uid := some "7", annotations := some [("revisions", "1: rurunning")] }
    spec := some
      { selector := some { matchLabels := some labels }
        template := { metadata := some { labels := some (("app", "web") :: labels) } } }
    status := some .null }

/-- The copy of such a job selects the pods that it makes by a map without entries. -/
theorem copy_keeps_rest_tied : tied.Selects ∧ (copy tied).Selects ∧
    (copy tied).matchLabels? = some [] ∧
    (copy tied).metadata.annotated? "revisions" = some "1: ruunfinished" := by
  have htied : tied.Selects := by
    rintro _ ⟨⟩ e he
    exact ⟨_, rfl, List.mem_cons_of_mem _ he⟩
  obtain ⟨-, -, -, hselects, -⟩ := copy_keeps_rest tied
  exact ⟨htied, hselects htied, by decide, by decide +kernel⟩

end Rerun

end ImageRollout
