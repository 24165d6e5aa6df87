import ImageRollout.Admission.Review

/-!
# The deployment that a review submits

A review that carries a request for a deployment holds the deployment as a document.  What the
request says about the deployment is read from that document.

* `object_of_review`: the deployment of a request and the document that was submitted.
-/

namespace ImageRollout.Admission

open Kubernetes

/-- The fields of a request. -/
def Request.fields : List String :=
  ["uid", "kind", "resource", "subResource", "requestKind", "requestResource", "requestSubResource",
    "name", "namespace", "operation", "userInfo", "object", "oldObject", "dryRun", "options"]

/-- The review's request has a document as its object. -/
def Submits (review document : Json) : Prop :=
  ∃ members request slots, review = .obj members ∧
    Json.slotIn? members "request" = some (.given request) ∧
    request.slots? Request.fields = some slots ∧
    (Request.fields.zip slots).lookup "object" = some (.given document)

theorem of_orNothing {α : Type} {read : Json → Option α} {v : Json} {a : α}
    (h : (Json.Slot.given v).orNothing read = some (some a)) : read v = some a := by
  cases v with
  | null => cases h
  | _ =>
      obtain ⟨b, hb, hba⟩ := Option.map_eq_some_iff.1 h
      rw [hb, hba]

theorem object_of_read {levels : Nat} {v document : Json} {r : Request}
    (h : Request.read? levels v = some r) {slots : List Json.Slot}
    (hslots : v.slots? Request.fields = some slots)
    (hobject : (Request.fields.zip slots).lookup "object" = some (.given document)) :
    (Json.Slot.given document).optional (Deployment.read? (levels - 1)) = some r.object := by
  rw [Request.read?] at h
  simp only [Option.bind_eq_bind] at h
  rw [show v.slots? ["uid", "kind", "resource", "subResource", "requestKind", "requestResource",
    "requestSubResource", "name", "namespace", "operation", "userInfo", "object", "oldObject",
    "dryRun", "options"] = some slots from hslots, Option.bind_some] at h
  split at h
  next uid kind resource subResource requestKind requestResource requestSubResource name
      namespaceName operation userInfo object oldObject dryRun options =>
    cases hobject
    simp only [Option.bind_eq_some_iff, Option.pure_def, Option.some.injEq] at h
    -- Eleven fields must merely read; the object is the fourth of those that are kept.
    obtain ⟨-, -, -, -, -, -, -, -, -, -, -, -, -, -, -, -, -, -, -, -, -, -, -, -, -, -, -, -,
      d, hd, rfl⟩ := h
    exact hd
  next => cases h

theorem request_of_read {members : List (String × Json)} {review : Review}
    (h : Review.ofJson? (.obj members) = some review) {request : Json}
    (hrequest : Json.slotIn? members "request" = some (.given request)) :
    (Json.Slot.given request).orNothing (Request.read? (Json.depthLimit - 1)) =
      some review.request := by
  rw [Review.ofJson?] at h
  simp only [Option.bind_eq_bind, Json.members?, Option.bind_some] at h
  split at h
  · cases h
  · simp only [Option.bind_eq_some_iff, Option.pure_def, Option.some.injEq, hrequest] at h
    obtain ⟨-, -, -, -, -, -, -, -, -, -, -, -, -, rfl, request?, hread, rfl⟩ := h
    exact hread

/-- **The deployment of a request is read from the document that was submitted.** -/
theorem object_of_review {v : Json} {review : Review} (h : Review.ofJson? v = some review)
    {request : Request} (hrequest : review.request = some request)
    {members : List (String × Json)} (hsubmits : Submits v (.obj members)) :
    ∃ d, request.object = some d ∧
      Deployment.read? (Json.depthLimit - 2) (.obj members) = some d := by
  obtain ⟨top, record, slots, rfl, hrecord, hslots, hobject⟩ := hsubmits
  have hread := request_of_read h hrecord
  rw [hrequest] at hread
  have hdeployment := object_of_read (of_orNothing hread) hslots hobject
  obtain ⟨d, hd, hsome⟩ := Option.map_eq_some_iff.1 hdeployment
  exact ⟨d, hsome.symm, hd⟩

theorem decode_of_parse {body : List UInt8} {v : Json} (hbody : Json.parse? body = some v)
    {review : Review} (h : Review.ofJson? v = some review) {request : Request}
    (hrequest : review.request = some request) : decode body = .ok (review, request) := by
  rw [decode, hbody, Option.bind_some, h]
  simp only [hrequest]

end ImageRollout.Admission
