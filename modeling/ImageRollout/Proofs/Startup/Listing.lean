import Mathlib.Data.List.Induction
import ImageRollout.Proofs.Startup.Assembly

/-!
# Lists of controllers, judged twice

The controllers that a configuration lists are judged when the configuration is checked, and again
when they are registered.  Either goes through the list until it comes to an entry that it does not
take.  The check remembers which kinds it has seen and knows which there are; the registry has what
it has registered, and makes what it can.  Both stop at the same entry, for the same reason.

* `inOrder_or_exists_fault`, `IsFirst.unique`: a list has one first fault, or none.
* `controllersProblem?_of_isOf`, `ofKinds_of_isOf`: what either says of it.
* `judged_alike`: the two judgements of a configuration's list.
-/

namespace ImageRollout

namespace Startup

open Controllers

/-- What can be wrong with an entry of a list of controllers. -/
inductive Fault where
  | unknown
  | repeated
  deriving DecidableEq, Repr

namespace Fault

/-- The fault of an entry, as it is found when the configuration is checked. -/
def problem (kind : String) : Fault → Config.Problem
  | unknown => .unknownController kind
  | repeated => .repeatedController kind

/-- The fault of an entry, as it is found when the controllers are registered. -/
def refusal (kind : String) : Fault → Refusal
  | unknown => .unknown kind
  | repeated => .duplicate kind

/-- What is wrong with an entry behind others: there is no such kind, or there is, and it is one of
theirs. -/
inductive IsOf (before : List String) (kind : String) : Fault → Prop
  | unknown (h : kind ∉ Controllers.kinds) : IsOf before kind .unknown
  | repeated (hknown : kind ∈ Controllers.kinds) (h : kind ∈ before) :
      IsOf before kind .repeated

end Fault

/-- All entries are known, and none repeats an earlier one. -/
def InOrder (listed : List String) : Prop :=
  (∀ kind ∈ listed, kind ∈ Controllers.kinds) ∧ listed.Nodup

/-- The first entry of a list with which anything is wrong stands behind those that are in order. -/
structure Fault.IsFirst (fault : Fault) (listed before : List String) (kind : String) : Prop where
  stands : before ++ [kind] <+: listed
  inOrder : InOrder before
  isOf : fault.IsOf before kind

section Lists

variable {listed before before' rest : List String} {kind kind' : String} {fault fault' : Fault}

theorem inOrder_concat : InOrder (before ++ [kind]) ↔
    InOrder before ∧ kind ∈ Controllers.kinds ∧ kind ∉ before := by
  rw [InOrder, InOrder, List.nodup_append]
  grind

/-- An entry with a fault is in order behind no others. -/
theorem Fault.IsOf.not_inOrder (h : fault.IsOf before kind) : ¬ InOrder (before ++ [kind]) := by
  rw [inOrder_concat]
  rintro ⟨-, hknown, hnew⟩
  cases h with
  | unknown h => exact h hknown
  | repeated _ h => exact hnew h

theorem InOrder.of_isPrefix (h : InOrder listed) (hinitial : before <+: listed) : InOrder before :=
  ⟨fun kind hkind => h.1 kind (hinitial.subset hkind), h.2.sublist hinitial.sublist⟩

/-- **A list is in order, or it has a first fault.** -/
theorem inOrder_or_exists_fault (listed : List String) :
    InOrder listed ∨ ∃ fault before kind, Fault.IsFirst fault listed before kind := by
  induction listed using List.reverseRecOn with
  | nil => exact .inl ⟨by simp, List.nodup_nil⟩
  | append_singleton before kind ih =>
      rcases ih with horder | ⟨fault, earlier, kind', hfirst⟩
      · by_cases hknown : kind ∈ Controllers.kinds
        · by_cases hseen : kind ∈ before
          · exact .inr ⟨.repeated, before, kind, List.prefix_rfl, horder,
              .repeated hknown hseen⟩
          · exact .inl (inOrder_concat.2 ⟨horder, hknown, hseen⟩)
        · exact .inr ⟨.unknown, before, kind, List.prefix_rfl, horder, .unknown hknown⟩
      · exact .inr ⟨fault, earlier, kind', hfirst.stands.trans (List.prefix_append _ _),
          hfirst.inOrder, hfirst.isOf⟩

/-- Of two faults the one that is not behind the other is the first. -/
theorem Fault.IsFirst.length_le (h : fault.IsFirst listed before kind)
    (h' : fault'.IsFirst listed before' kind') : before'.length ≤ before.length := by
  refine Nat.le_of_not_lt fun hlt => ?_
  have hinitial : before ++ [kind] <+: before' := by
    refine List.prefix_of_prefix_length_le h.stands
      ((List.prefix_append before' [kind']).trans h'.stands) ?_
    simp only [List.length_append, List.length_singleton]
    omega
  exact h.isOf.not_inOrder (h'.inOrder.of_isPrefix hinitial)

/-- **There is one first fault at most.** -/
theorem Fault.IsFirst.unique (h : fault.IsFirst listed before kind)
    (h' : fault'.IsFirst listed before' kind') :
    before' = before ∧ kind' = kind ∧ fault' = fault := by
  have hlength : before.length = before'.length :=
    Nat.le_antisymm (h'.length_le h) (h.length_le h')
  have hsame : before ++ [kind] = before' ++ [kind'] :=
    (List.prefix_of_prefix_length_le h.stands h'.stands (by simp [hlength])).eq_of_length
      (by simp [hlength])
  obtain ⟨hbefore, hkind⟩ := List.append_inj hsame hlength
  obtain rfl : kind = kind' := by simpa using hkind
  subst hbefore
  refine ⟨rfl, rfl, ?_⟩
  cases h.isOf with
  | unknown hunknown =>
      cases h'.isOf with
      | unknown => rfl
      | repeated hknown => exact absurd hknown hunknown
  | repeated hknown =>
      cases h'.isOf with
      | unknown hunknown => exact absurd hknown hunknown
      | repeated => rfl

end Lists

end Startup

namespace Config

/-- Entries that are in order are passed over, and remembered. -/
theorem controllersProblem?_append {before : List String} (h : Startup.InOrder before)
    (rest : List String) :
    controllersProblem? [] (before ++ rest) = controllersProblem? before.reverse rest := by
  induction before using List.reverseRecOn generalizing rest with
  | nil => rfl
  | append_singleton before kind ih =>
      obtain ⟨hbefore, hknown, hnew⟩ := Startup.inOrder_concat.1 h
      rw [List.append_assoc, ih hbefore, List.singleton_append, controllersProblem?,
        if_neg (not_not_intro hknown), if_neg (by simpa using hnew), List.reverse_append]
      rfl

end Config

namespace Controllers.Registry

variable {α : Type} {maker? : String → Option α}

/-- Entries behind others are registered on top of them. -/
theorem registerAll_append (before rest : List String) (r : Registry α) :
    registerAll maker? (before ++ rest) r =
      match registerAll maker? before r with
      | .error e => .error e
      | .ok r' => registerAll maker? rest r' := by
  induction before generalizing r with
  | nil => rfl
  | cons kind before ih =>
      rw [List.cons_append, registerAll, registerAll]
      cases hmaker : maker? kind with
      | none => rfl
      | some maker =>
          dsimp only
          cases r.register kind maker with
          | error e => rfl
          | ok r' => exact ih r'

/-- What is registered is made as its kind is. -/
theorem made_of_registerAll {listed : List String} {r r' : Registry α}
    (hr : ∀ e ∈ r.entries, maker? e.1 = some e.2) (h : registerAll maker? listed r = .ok r') :
    ∀ e ∈ r'.entries, maker? e.1 = some e.2 := by
  induction listed generalizing r with
  | nil =>
      cases h
      exact hr
  | cons kind rest ih =>
      rw [registerAll] at h
      split at h
      next => cases h
      next maker hmaker =>
        split at h
        next => cases h
        next next hregister =>
          rw [register] at hregister
          split at hregister
          · cases hregister
          · cases hregister
            refine ih (fun e he => ?_) h
            rcases List.mem_append.1 he with hold | hnew
            · exact hr e hold
            · rw [List.mem_singleton.1 hnew]
              exact hmaker

end Controllers.Registry

namespace Startup

open Controllers

/-- The kinds that can be made are those that may be listed. -/
theorem isSome_controllerKind?_iff {kind : String} :
    (controllerKind? kind).isSome ↔ kind ∈ Controllers.kinds := by
  refine ⟨fun h => ?_, isSome_controllerKind?⟩
  by_contra hunknown
  have hnone : controllerKind? kind = none := by
    simp only [Controllers.kinds, List.mem_cons, List.not_mem_nil, or_false, not_or] at hunknown
    simp [controllerKind?, hunknown]
  rw [hnone] at h
  cases h

section Judgements

variable {before : List String} {kind : String} {fault : Fault}

/-- Controllers that are in order are registered, each with what makes its kind. -/
theorem ofKinds_of_inOrder {listed : List String} (h : InOrder listed) :
    ∃ registry, Registry.ofKinds controllerKind? listed = .ok registry ∧
      registry.registered = listed ∧
      ∀ e ∈ registry.entries, controllerKind? e.1 = some e.2 := by
  have hmade : ∀ kind ∈ listed, (controllerKind? kind).isSome :=
    fun kind hkind => isSome_controllerKind? (h.1 kind hkind)
  obtain ⟨registry, hall, hregistered⟩ :=
    Registry.registerAll_eq_ok (r := {}) hmade (by simpa [Registry.registered] using h.2)
  exact ⟨registry, hall, hregistered, Registry.made_of_registerAll (by simp) hall⟩

/-- **What the check says of the first fault**, whatever stands behind it. -/
theorem controllersProblem?_of_isOf (hbefore : InOrder before) (h : fault.IsOf before kind)
    (rest : List String) :
    Config.controllersProblem? [] (before ++ kind :: rest) = some (fault.problem kind) := by
  rw [Config.controllersProblem?_append hbefore, Config.controllersProblem?]
  cases h with
  | unknown h => rw [if_pos h]; rfl
  | repeated hknown h => rw [if_neg (not_not_intro hknown), if_pos (by simpa using h)]; rfl

/-- **What the registry says of the first fault**, whatever stands behind it. -/
theorem ofKinds_of_isOf (hbefore : InOrder before) (h : fault.IsOf before kind)
    (rest : List String) :
    Registry.ofKinds controllerKind? (before ++ kind :: rest) = .error (fault.refusal kind) := by
  obtain ⟨registry, hregistry, hregistered, -⟩ := ofKinds_of_inOrder hbefore
  rw [Registry.ofKinds] at hregistry
  rw [Registry.ofKinds, Registry.registerAll_append, hregistry]
  dsimp only
  rw [Registry.registerAll]
  cases h with
  | unknown h =>
      rw [← isSome_controllerKind?_iff, Option.not_isSome_iff_eq_none] at h
      rw [h]
      rfl
  | repeated hknown h =>
      obtain ⟨maker, hmaker⟩ := Option.isSome_iff_exists.1 (isSome_controllerKind? hknown)
      rw [hmaker]
      dsimp only
      rw [Registry.register, if_pos (hregistered ▸ h)]
      rfl

end Judgements

/-- **A configuration's controllers are judged alike when they are checked and when they are
registered.**  The check is what the validity of a configuration comes to where nothing else is
wrong with it.  It passes exactly the lists that are registered, and then the registered kinds are
the listed ones in their order, without repetition, each made as its kind is.  A list that does not
pass has one first entry that is unknown or repeats an earlier one.  Both judgements take all that
stands before that entry, and refuse the list at the entry for what is wrong with it, whatever
stands behind. -/
theorem judged_alike (config : Config) :
    let check := Config.controllersProblem? []
    let register := Registry.ofKinds controllerKind?
    (config.repository.validate = .ok () → 0 < config.capacity →
      ∀ problem, config.validate = .error problem ↔ check config.controllers = some problem) ∧
    (check config.controllers = none ↔ ∃ registry, controllers config = .ok registry) ∧
    (∀ registry, controllers config = .ok registry →
      registry.registered = config.controllers ∧ config.controllers.Nodup ∧
        ∀ e ∈ registry.entries, controllerKind? e.1 = some e.2) ∧
    (check config.controllers ≠ none →
      ∃ fault before kind, Fault.IsFirst fault config.controllers before kind ∧
        (∀ fault' before' kind', Fault.IsFirst fault' config.controllers before' kind' →
          before' = before ∧ kind' = kind ∧ fault' = fault) ∧
        check config.controllers = some (fault.problem kind) ∧
        controllers config = .error (fault.refusal kind) ∧
        (check before = none ∧ ∃ registry, register before = .ok registry) ∧
        ∀ rest, check (before ++ kind :: rest) = some (fault.problem kind) ∧
          register (before ++ kind :: rest) = .error (fault.refusal kind)) := by
  intro check register
  have hpasses {listed : List String} (h : InOrder listed) : check listed = none :=
    Config.controllersProblem?_eq_none_iff.2 ⟨h.1, h.2, by simp⟩
  refine ⟨fun hrepository hcapacity problem => ?_, ?_⟩
  · have hproblem : config.problem? = check config.controllers := by
      rw [Config.problem?, hrepository]
      exact if_neg (Nat.ne_of_gt hcapacity)
    rw [Config.validate, hproblem]
    cases check config.controllers <;> simp
  rcases inOrder_or_exists_fault config.controllers with horder | ⟨fault, before, kind, hfirst⟩
  · obtain ⟨registry, hregistry, hregistered, hmade⟩ := ofKinds_of_inOrder horder
    have hcontrollers : controllers config = .ok registry := hregistry
    refine ⟨⟨fun _ => ⟨registry, hcontrollers⟩, fun _ => hpasses horder⟩,
      fun other hother => ?_, fun hproblem => absurd (hpasses horder) hproblem⟩
    rw [hcontrollers] at hother
    cases hother
    exact ⟨hregistered, horder.2, hmade⟩
  · have hrefused (rest : List String) :
        check (before ++ kind :: rest) = some (fault.problem kind) ∧
          register (before ++ kind :: rest) = .error (fault.refusal kind) :=
      ⟨controllersProblem?_of_isOf hfirst.inOrder hfirst.isOf rest,
        ofKinds_of_isOf hfirst.inOrder hfirst.isOf rest⟩
    obtain ⟨rest, hrest⟩ := hfirst.stands
    rw [List.append_assoc, List.singleton_append] at hrest
    obtain ⟨hcheck, hregister⟩ := hrefused rest
    rw [hrest] at hcheck hregister
    have hcontrollers : controllers config = .error (fault.refusal kind) := hregister
    obtain ⟨registry, hregistry, -⟩ := ofKinds_of_inOrder hfirst.inOrder
    refine ⟨?_, ?_, fun _ => ⟨fault, before, kind, hfirst, fun _ _ _ => hfirst.unique, hcheck,
      hcontrollers, ⟨hpasses hfirst.inOrder, registry, hregistry⟩, hrefused⟩⟩
    · simp [hcheck, hcontrollers]
    · simp [hcontrollers]

/-- Of two faults the one that stands first is named by both, here a repetition before an unknown
kind. -/
theorem judged_alike_repeated_first :
    let config : Config := { controllers := ["job", "deployment", "job", "cron"] }
    config.validate = .error (.repeatedController "job") ∧
      controllers config = .error (.duplicate "job") := by
  intro config
  obtain ⟨hvalidate, -, -, hrejected⟩ := judged_alike config
  have hchecked : Config.controllersProblem? [] config.controllers ≠ none := by decide
  obtain ⟨fault, before, kind, -, hunique, hcheck, hcontrollers, -⟩ := hrejected hchecked
  have hfirst : Fault.IsFirst .repeated config.controllers ["job", "deployment"] "job" :=
    ⟨by decide, ⟨by decide, by decide⟩, .repeated (by decide) (by decide)⟩
  obtain ⟨-, rfl, rfl⟩ := hunique _ _ _ hfirst
  exact ⟨(hvalidate rfl (by decide) _).2 hcheck, hcontrollers⟩

end Startup

end ImageRollout
