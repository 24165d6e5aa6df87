import ImageRollout.Config.Basic

/-!
# What makes a configuration valid

A configuration is searched for its first problem.  If there is none, the protocol is spoken, some
push may wait, and the listed controllers are known and different from each other.

* `controllersProblem?_eq_none_iff`: when a list of controllers is in order.
* `validate_eq_ok_iff`: when a configuration is valid.
-/

namespace ImageRollout

theorem TagSource.Options.validate_eq_ok_iff (o : TagSource.Options) :
    o.validate = .ok () ↔ o.protocol = "http" ∨ o.protocol = "https" := by
  rw [validate]
  split <;> simp_all

namespace Config

/-- A list of controllers is in order behind others if all of them are known, and none is named
twice, there or before. -/
theorem controllersProblem?_eq_none_iff {seen listed : List String} :
    controllersProblem? seen listed = none ↔
      (∀ kind ∈ listed, kind ∈ Controllers.kinds) ∧ listed.Nodup ∧
        ∀ kind ∈ listed, kind ∉ seen := by
  induction listed generalizing seen with
  | nil => simp [controllersProblem?]
  | cons kind rest ih =>
      rw [controllersProblem?]
      by_cases hknown : kind ∈ Controllers.kinds
      · by_cases hseen : kind ∈ seen
        · simp [hknown, hseen]
        · rw [if_neg (not_not_intro hknown), if_neg hseen, ih, List.nodup_cons]
          grind
      · simp [hknown]

/-- **What validity means.** -/
theorem validate_eq_ok_iff (c : Config) :
    c.validate = .ok () ↔
      (c.repository.protocol = "http" ∨ c.repository.protocol = "https") ∧ 0 < c.capacity ∧
        (∀ kind ∈ c.controllers, kind ∈ Controllers.kinds) ∧ c.controllers.Nodup := by
  have hnone : c.validate = .ok () ↔ c.problem? = none := by
    rw [validate]
    cases c.problem? <;> simp
  rw [hnone, problem?, ← TagSource.Options.validate_eq_ok_iff]
  cases c.repository.validate with
  | error failure => simp
  | ok =>
      by_cases hcapacity : c.capacity = 0
      · simp [hcapacity]
      · simp [hcapacity, controllersProblem?_eq_none_iff, Nat.pos_of_ne_zero]

end Config

end ImageRollout
