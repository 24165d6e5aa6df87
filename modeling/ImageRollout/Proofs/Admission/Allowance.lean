import ImageRollout.Http.Service
import ImageRollout.Proofs.Admission.Pinning

/-!
# What admission depends on

The answer to a review says whether the request is allowed, and it may carry a patch.  Where images
resolve to, and whether they resolve at all, decides only about the patch; so nothing that goes
wrong with a registry keeps a deployment from being stored.

* `withoutPatch_allowed`: the part of an answer that no resolver decides about.
* `replacements_ne_nil_iff`: when anything is to be replaced.
* `resolves_only_patch`: what is answered to whatever body.
-/

namespace ImageRollout.Admission

open Kubernetes

/-- What an answer's document says under a key of its response. -/
def said? (key : String) (v : Json) : Option Json := (v.get? "response").bind (·.get? key)

/-- A response without its patch. -/
def dropPatch : Json → Json
  | .obj members => .obj (members.filter fun m => m.1 ≠ "patch" ∧ m.1 ≠ "patchType")
  | v => v

/-- An answer's document without the patch. -/
def withoutPatch : Json → Json
  | .obj members =>
    .obj (members.map fun (key, v) => (key, if key = "response" then dropPatch v else v))
  | v => v

/-- The image of a container resolves to another tag than it has. -/
def IsStale (resolve : Resolver) (c : Container) : Prop :=
  ∃ image latest, c.image = some image ∧ latestTag resolve (.parse image) = .ok latest ∧
    latest ≠ (Image.Reference.parse image).tag

/-- A body has a deployment created of which a container is stale. -/
def CreatesStale (resolve : Resolver) (body : List UInt8) : Prop :=
  ∃ review request d, decode body = .ok (review, request) ∧ request.operation = .create ∧
    request.object = some d ∧ ∃ (listing : Listing), ∃ c ∈ listing.of d, IsStale resolve c

section Document

variable (apiVersion kind uid : String) (rs : List Replacement)

/-- **But for its patch, an answer that allows is the same** whatever is to be replaced. -/
theorem withoutPatch_allowed :
    withoutPatch (Answer.allowed apiVersion kind uid rs).toJson =
      (Answer.allowed apiVersion kind uid []).toJson := by
  cases rs <;> rfl

theorem said?_uid_allowed :
    said? "uid" (Answer.allowed apiVersion kind uid rs).toJson = some (.str uid) := by
  cases rs <;> rfl

theorem said?_allowed_allowed :
    said? "allowed" (Answer.allowed apiVersion kind uid rs).toJson = some (.bool true) := by
  cases rs <;> rfl

theorem isSome_said?_patch_allowed :
    (said? "patch" (Answer.allowed apiVersion kind uid rs).toJson).isSome ↔ rs ≠ [] := by
  cases rs with
  | nil => exact ⟨(nomatch ·), (absurd rfl ·)⟩
  | cons => exact ⟨fun _ => List.cons_ne_nil _ _, fun _ => rfl⟩

end Document

section Stale

variable {resolve : Resolver}

theorem isSome_pinned?_iff {c : Container} :
    (c.image.bind (pinned? resolve)).isSome ↔ IsStale resolve c := by
  rw [IsStale]
  cases c.image with
  | none => simp
  | some image =>
      rw [Option.bind_some, pinned?]
      cases htag : latestTag resolve (.parse image) with
      | error failure => simp [htag]
      | ok latest => by_cases h : latest = (Image.Reference.parse image).tag <;> simp [htag, h]

theorem containerReplacements_ne_nil_iff {field : String} {cs : List Container} :
    containerReplacements resolve field cs ≠ [] ↔ ∃ c ∈ cs, IsStale resolve c := by
  rw [containerReplacements, ne_eq, List.filterMap_eq_nil_iff]
  push Not
  constructor
  · rintro ⟨⟨c, index⟩, hc, hsome⟩
    refine ⟨c, List.fst_mem_of_mem_zipIdx hc, isSome_pinned?_iff.1 ?_⟩
    rw [← Option.isSome_map]
    exact Option.isSome_iff_ne_none.2 hsome
  · rintro ⟨c, hc, hstale⟩
    obtain ⟨index, hindex⟩ := List.mem_iff_getElem?.1 hc
    refine ⟨(c, index), List.mk_mem_zipIdx_iff_getElem?.2 hindex,
      Option.isSome_iff_ne_none.1 ?_⟩
    rw [replacement?, Option.isSome_map]
    exact isSome_pinned?_iff.2 hstale

/-- **Something is replaced exactly if a container is stale**, be it an init container or not. -/
theorem replacements_ne_nil_iff {d : Deployment} :
    replacements resolve d ≠ [] ↔
      ∃ (listing : Listing), ∃ c ∈ listing.of d, IsStale resolve c := by
  rw [replacements_eq_append, ne_eq, List.append_eq_nil_iff, not_and_or, ← ne_eq, ← ne_eq,
    containerReplacements_ne_nil_iff, containerReplacements_ne_nil_iff]
  constructor
  · rintro (hinit | hother)
    · exact ⟨.initContainers, hinit⟩
    · exact ⟨.containers, hother⟩
  · rintro ⟨_ | _, hlisted⟩
    · exact .inl hlisted
    · exact .inr hlisted

theorem Request.replacements_of_ne_create (request : Request) (h : request.operation ≠ .create) :
    request.replacements resolve = [] := by
  rw [Request.replacements]
  split
  next hcreate _ => exact absurd hcreate h
  next => rfl

/-- A request has something replaced only if it creates its deployment. -/
theorem Request.replacements_ne_nil_iff (request : Request) :
    request.replacements resolve ≠ [] ↔ request.operation = .create ∧
      ∃ d, request.object = some d ∧
        ∃ (listing : Listing), ∃ c ∈ listing.of d, IsStale resolve c := by
  by_cases hcreate : request.operation = .create
  · cases hobject : request.object with
    | none => simp [Request.replacements, hcreate, hobject]
    | some d =>
        simp only [Request.replacements, hcreate, hobject, Admission.replacements_ne_nil_iff]
        simp
  · simp [request.replacements_of_ne_create hcreate, hcreate]

end Stale

/-- **No resolver decides about more than the patch.**  Every body that gets as far as the admission
of deployments is answered with success, and for any two resolvers the answers are the same but for
their patch.  A request is allowed under its own identity if the body carries one, and otherwise the
body is called invalid.  There is a patch exactly if a deployment is created of which a container
resolves to another tag than it has; so the answer to any other operation depends on no resolver at
all. -/
theorem resolves_only_patch {r : Http.Request} (hreached : r.endpoint = .ok .admission)
    (resolve : Resolver) :
    ∃ v, Http.respond resolve r = { status := 200, content := .json v } ∧
      (∀ other w, (Http.respond other r).content = .json w →
        withoutPatch w = withoutPatch v) ∧
      (∀ uid, said? "allowed" v = some (.bool true) ∧ said? "uid" v = some (.str uid) ↔
        ∃ review request, decode r.body = .ok (review, request) ∧ request.uid = uid) ∧
      (∀ cause, decode r.body = .error cause →
        v = (Answer.invalid cause).toJson ∧ said? "allowed" v = some (.bool false)) ∧
      ((said? "patch" v).isSome ↔ CreatesStale resolve r.body) ∧
      (∀ review request, decode r.body = .ok (review, request) →
        request.operation ≠ .create → ∀ other, Http.respond other r = Http.respond resolve r)
        := by
  have hrespond (any : Resolver) :
      Http.respond any r = { status := 200, content := .json (answer any r.body).toJson } := by
    rw [Http.respond, hreached]
  refine ⟨(answer resolve r.body).toJson, hrespond resolve, ?_⟩
  -- A body either carries a request or does not, and no resolver has a say in that.
  cases hdecode : decode r.body with
  | error cause =>
      have hanswer (any : Resolver) : answer any r.body = .invalid cause := by
        rw [answer, hdecode]
      have hrefused : said? "allowed" (Answer.invalid cause).toJson = some (.bool false) := rfl
      have hpatch : said? "patch" (Answer.invalid cause).toJson = none := rfl
      rw [hanswer]
      refine ⟨fun other w hw => ?_, fun uid => ?_, fun cause' heq => ?_, ?_, fun _ _ heq => ?_⟩
      · rw [hrespond, hanswer] at hw
        cases hw
        rfl
      · rw [hrefused]
        simp
      · cases heq
        exact ⟨rfl, hrefused⟩
      · rw [hpatch]
        simp [CreatesStale, hdecode]
      · cases heq
  | ok carried =>
      obtain ⟨review, request⟩ := carried
      have hanswer (any : Resolver) : answer any r.body =
          .allowed review.apiVersion review.kind request.uid (request.replacements any) := by
        rw [answer, hdecode]
      have hpatch : request.replacements resolve ≠ [] ↔ CreatesStale resolve r.body := by
        rw [request.replacements_ne_nil_iff, CreatesStale]
        simp [hdecode]
      rw [hanswer, said?_allowed_allowed, said?_uid_allowed, isSome_said?_patch_allowed]
      refine ⟨fun other w hw => ?_, fun uid => by simp, fun _ heq => ?_, hpatch,
        fun review' request' heq hother other => ?_⟩
      · rw [hrespond, hanswer] at hw
        cases hw
        rw [withoutPatch_allowed, withoutPatch_allowed]
      · cases heq
      · cases heq
        rw [hrespond, hrespond, hanswer, hanswer, request.replacements_of_ne_create hother,
          request.replacements_of_ne_create hother]

/-- A deployment of one container is to be created, the records of the request as arrays where they
may be. -/
def asked : Http.Request :=
  { method := "POST", path := "/webhook-v1alpha1-pod-latest-tag"
    body := Text.toUtf8 <|
      "\x7b\"apiVersion\":\"v1\",\"kind\":\"AdmissionReview\",\"request\":\x7b\"uid\":\"1\"," ++
      "\"kind\":[\"\",\"\",\"\"],\"resource\":[\"\",\"\",\"\"],\"operation\":\"CREATE\"," ++
      "\"userInfo\":\x7b\x7d,\"object\":\x7b\"spec\":\x7b\"template\":\x7b\"spec\":" ++
      "\x7b\"containers\":[\x7b\"image\":\"hub/team/web:1\"\x7d]\x7d\x7d\x7d\x7d\x7d\x7d" }

/-- A resolver that fails everywhere takes away the patch, and nothing else. -/
theorem allowed_by_failing :
    asked.endpoint = .ok .admission ∧
    ∃ v, Http.respond allButOne asked = { status := 200, content := .json v } ∧
      said? "allowed" v = some (.bool true) ∧ said? "uid" v = some (.str "1") ∧
      (said? "patch" v).isSome = true ∧
      ∀ w,
        (Http.respond (fun host _ _ => .error (.hostUnsupported host)) asked).content = .json w →
        withoutPatch w = withoutPatch v := by
  have hreached : asked.endpoint = .ok .admission :=
    Http.Request.endpoint_eq_ok_iff.2 (by decide +kernel)
  have hread : (decode asked.body).toOption.any (fun carried =>
      carried.2.uid = "1" && !(carried.2.replacements allButOne).isEmpty) = true := by
    decide +kernel
  cases hdecode : decode asked.body with
  | error _ => simp [hdecode, Except.toOption] at hread
  | ok carried =>
      obtain ⟨review, request⟩ := carried
      obtain ⟨huid, hreplaced⟩ :
          request.uid = "1" ∧ request.replacements allButOne ≠ [] := by
        simpa [hdecode, Except.toOption] using hread
      obtain ⟨hcreate, d, hobject, hcontainer⟩ := request.replacements_ne_nil_iff.1 hreplaced
      obtain ⟨v, hrespond, hsame, hallowed, -, hpatch, -⟩ :=
        resolves_only_patch hreached allButOne
      obtain ⟨htrue, hown⟩ := (hallowed "1").2 ⟨review, request, hdecode, huid⟩
      exact ⟨hreached, v, hrespond, htrue, hown,
        hpatch.2 ⟨review, request, d, hdecode, hcreate, hobject, hcontainer⟩, hsame _⟩

end ImageRollout.Admission
