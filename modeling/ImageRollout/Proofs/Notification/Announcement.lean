import ImageRollout.Proofs.Cluster.Requests

/-!
# What a notification announces

The body of a notification is read twice: once for the word that tells what happened, and once for
the payload.  The two readings know different fields, and both take an array for a record.  A body
counts as an announcement only if it passes both, and only an object does.

* `discriminator?_obj_eq_some_iff`: what the first reading finds in an object.
* `decode_eq_ok_iff`: the bodies that pass both readings.
* `submits_announced`: what is submitted to the bus for whatever body.
* `same_type_other_answer`: an object of an unaccepted type that is not called unsupported.
-/

namespace ImageRollout

namespace Json

/-- The members have the field once, with the value. -/
def HoldOnce (members : List (String × Json)) (field : String) (v : Json) : Prop :=
  ∃ before after, members = before ++ (field, v) :: after ∧
    ∀ m ∈ before ++ after, m.1 ≠ field

section Slots

variable {members : List (String × Json)} {field : String}

/-- No member bears a name just if every member bears another. -/
theorem filter_eq_nil_iff_absent :
    members.filter (·.1 == field) = [] ↔ ∀ m ∈ members, m.1 ≠ field := by
  simp [List.filter_eq_nil_iff]

/-- A field is given a value just if one member bears its name, with that value. -/
theorem slotIn?_eq_given_iff {v : Json} :
    slotIn? members field = some (.given v) ↔ HoldOnce members field v := by
  constructor
  · intro hslot
    rw [slotIn?] at hslot
    split at hslot
    next => cases hslot
    next key found hfilter =>
      cases hslot
      obtain ⟨before, after, rfl, hbefore, hkey, hafter⟩ := List.filter_eq_cons_iff.1 hfilter
      obtain rfl : key = field := by simpa using hkey
      refine ⟨before, after, rfl, fun m hm => ?_⟩
      rcases List.mem_append.1 hm with hm | hm
      · simpa using hbefore m hm
      · exact filter_eq_nil_iff_absent.1 hafter m hm
    next => cases hslot
  · rintro ⟨before, after, rfl, hothers⟩
    have hbefore := filter_eq_nil_iff_absent.2 fun m hm => hothers m (List.mem_append_left _ hm)
    have hafter := filter_eq_nil_iff_absent.2 fun m hm => hothers m (List.mem_append_right _ hm)
    have hfilter : (before ++ (field, v) :: after).filter (·.1 == field) = [(field, v)] := by
      rw [List.filter_append, hbefore, List.filter_cons_of_pos (by simp), hafter, List.nil_append]
    rw [slotIn?, hfilter]

/-- A field is absent just if no member bears its name. -/
theorem slotIn?_eq_absent_iff :
    slotIn? members field = some .absent ↔ ∀ m ∈ members, m.1 ≠ field := by
  rw [← filter_eq_nil_iff_absent, slotIn?]
  split
  next hnone => simp only [hnone]
  next hone => simp [hone]
  next hnone _ => simpa using hnone

/-- A field of an object is never past the object's end. -/
theorem slotIn?_ne_cut : slotIn? members field ≠ some .cut := by
  rw [slotIn?]
  split <;> simp

end Slots

end Json

namespace Notification

/-- What an object's members tell under a field: a text, or nothing if it is null or missing. -/
inductive Tell (members : List (String × Json)) (field : String) : Option String → Prop where
  | text {word : String} :
      Json.HoldOnce members field (.str word) → Tell members field (some word)
  | null : Json.HoldOnce members field .null → Tell members field none
  | absent : (∀ m ∈ members, m.1 ≠ field) → Tell members field none

section Discriminator

variable {field : String}

/-- The word of an object stands in the one field of that name, if it is given at all. -/
theorem discriminator?_obj {members : List (String × Json)} :
    discriminator? field (.obj members) =
      (Json.slotIn? members field).bind (Json.Slot.optional Json.text?) := by
  cases h : Json.slotIn? members field <;> simp [discriminator?, Json.slots?, h]

/-- **The first reading of an object** finds what the object tells. -/
theorem discriminator?_obj_eq_some_iff {members : List (String × Json)} {word : Option String} :
    discriminator? field (.obj members) = some word ↔ Tell members field word := by
  rw [discriminator?_obj]
  constructor
  · intro hword
    obtain ⟨slot, hslot, hread⟩ := Option.bind_eq_some_iff.1 hword
    cases slot with
    | given v =>
        have honce := Json.slotIn?_eq_given_iff.1 hslot
        cases v with
        | null => cases hread; exact .null honce
        | str s => cases hread; exact .text honce
        | _ => cases hread
    | absent => cases hread; exact .absent (Json.slotIn?_eq_absent_iff.1 hslot)
    | cut => exact absurd hslot Json.slotIn?_ne_cut
  · rintro (honce | honce | habsent)
    · rw [Json.slotIn?_eq_given_iff.2 honce]
      rfl
    · rw [Json.slotIn?_eq_given_iff.2 honce]
      rfl
    · rw [Json.slotIn?_eq_absent_iff.2 habsent]
      rfl

/-- The first reading of an array finds a text if there is nothing else in the array. -/
theorem items_of_discriminator? {items : List Json} {word : String}
    (h : discriminator? field (.arr items) = some (some word)) : items = [.str word] := by
  match items with
  | [] => cases h
  | [v] =>
      cases v with
      | str s => cases h; rfl
      | _ => cases h
  | _ :: _ :: _ => simp [discriminator?, Json.slots?] at h

end Discriminator

section Decode

variable {α : Type} {field accepted : String} {payload? : Json → Option α} {body : List UInt8}

/-- A body that is JSON is decoded by its word first and then by the payload. -/
theorem decode_of_parse? {v : Json} (hbody : Json.parse? body = some v) :
    decode field accepted payload? body =
      match discriminator? field v with
      | none => .error .malformed
      | some word =>
        if word = some accepted then
          match payload? v with
          | some p => .ok p
          | none => .error .malformed
        else .error (.unsupported field word) := by
  cases body with
  | nil => cases hbody
  | cons b body => rw [decode, hbody]; rfl

/-- **The word decides first**: an object that tells another word than the accepted one is called
unsupported with that word, whatever else it holds. -/
theorem decode_eq_unsupported {members : List (String × Json)} {word : Option String}
    (hbody : Json.parse? body = some (.obj members)) (htell : Tell members field word)
    (hword : word ≠ some accepted) :
    decode field accepted payload? body = .error (.unsupported field word) := by
  rw [decode_of_parse? hbody, discriminator?_obj_eq_some_iff.2 htell]
  exact if_neg hword

/-- **The bodies that pass both readings** are the objects that tell the accepted word and hold a
payload, as long as no array passes the second reading that holds the word alone. -/
theorem decode_eq_ok_iff (harray : payload? (.arr [.str accepted]) = none) {p : α} :
    decode field accepted payload? body = .ok p ↔
      ∃ members, Json.parse? body = some (.obj members) ∧
        Json.HoldOnce members field (.str accepted) ∧ payload? (.obj members) = some p := by
  constructor
  · intro hdecode
    cases hbody : Json.parse? body with
    | none => rw [decode, hbody] at hdecode; split at hdecode <;> cases hdecode
    | some v =>
        rw [decode_of_parse? hbody] at hdecode
        split at hdecode
        next => cases hdecode
        next word hword =>
          split at hdecode
          next heq =>
            cases heq
            cases hpayload : payload? v with
            | none => simp [hpayload] at hdecode
            | some p' =>
                obtain rfl : p' = p := by simpa [hpayload] using hdecode
                cases v with
                | obj members =>
                    obtain ⟨honce⟩ := discriminator?_obj_eq_some_iff.1 hword
                    exact ⟨members, rfl, honce, hpayload⟩
                | arr items =>
                    -- The first reading takes an array of one item, and the second one does not.
                    cases items_of_discriminator? hword
                    rw [harray] at hpayload
                    cases hpayload
                | _ => cases hword
          next => cases hdecode
  · rintro ⟨members, hbody, honce, hpayload⟩
    rw [decode_of_parse? hbody, discriminator?_obj_eq_some_iff.2 (.text honce)]
    simp [hpayload]

end Decode

/-- Who notifies. -/
inductive Sender where
  | harbor
  | gitHub

namespace Sender

/-- The endpoint to which a sender posts. -/
def endpoint : Sender → Http.Endpoint
  | harbor => .harborPush
  | gitHub => .gitHubPush

/-- The field that tells what happened. -/
def field : Sender → String
  | harbor => "type"
  | gitHub => "action"

/-- The word under which pushed images are announced. -/
def accepted : Sender → String
  | harbor => "PUSH_ARTIFACT"
  | gitHub => "published"

/-- Whether a value passes the second reading. -/
def reads : Sender → Json → Bool
  | harbor, v => (Harbor.Artifact.ofJson? v).isSome
  | gitHub, v => (GitHub.packageOfJson? v).isSome

/-- Why a body does not pass both readings. -/
def refusal? : Sender → List UInt8 → Option Refusal
  | harbor, body =>
    match Harbor.decode body with
    | .error refusal => some refusal
    | .ok _ => none
  | gitHub, body =>
    match GitHub.decode body with
    | .error refusal => some refusal
    | .ok _ => none

/-- A body announces pushes: Harbor's one for every resource with an address, and GitHub's the one
of a container with an address. -/
inductive Announces (body : List UInt8) : Sender → List Image.Push → Prop where
  | artifact {members : List (String × Json)} {a : Harbor.Artifact} :
      Json.parse? body = some (.obj members) →
      Json.HoldOnce members "type" (.str "PUSH_ARTIFACT") →
      Harbor.Artifact.ofJson? (.obj members) = some a →
      Announces body harbor
        ((a.resources.filter (·.url ≠ "")).map (Image.Push.ofReference ·.url))
  | package {members : List (String × Json)} {p : GitHub.Package} :
      Json.parse? body = some (.obj members) →
      Json.HoldOnce members "action" (.str "published") →
      GitHub.packageOfJson? (.obj members) = some (some p) →
      p.kind = "CONTAINER" → p.url ≠ "" →
      Announces body gitHub [Image.Push.ofReference p.url]

/-- The images that a body announces to a sender's address, in order. -/
def pushes : Sender → List UInt8 → List Image.Push
  | harbor, body => Harbor.pushes body
  | gitHub, body => (GitHub.push? body).toList

section

variable {sender : Sender} {body : List UInt8}

/-- An artifact is decoded just from an object with the right word and an artifact. -/
theorem harbor_decode_eq_ok_iff {a : Harbor.Artifact} :
    Harbor.decode body = .ok a ↔
      ∃ members, Json.parse? body = some (.obj members) ∧
        Json.HoldOnce members "type" (.str "PUSH_ARTIFACT") ∧
        Harbor.Artifact.ofJson? (.obj members) = some a :=
  decode_eq_ok_iff rfl

/-- A package is decoded just from an object with the right word and a package, if one is given. -/
theorem gitHub_decode_eq_ok_iff {package : Option GitHub.Package} :
    GitHub.decode body = .ok package ↔
      ∃ members, Json.parse? body = some (.obj members) ∧
        Json.HoldOnce members "action" (.str "published") ∧
        GitHub.packageOfJson? (.obj members) = some package :=
  decode_eq_ok_iff rfl

/-- What a body announces is what is taken from it. -/
theorem pushes_of_announces {announced : List Image.Push} (h : Announces body sender announced) :
    sender.pushes body = announced := by
  cases h with
  | artifact hbody honce hread =>
      rw [pushes, Harbor.pushes, harbor_decode_eq_ok_iff.2 ⟨_, hbody, honce, hread⟩]
      rfl
  | package hbody honce hread hkind hurl =>
      rw [pushes, GitHub.push?, gitHub_decode_eq_ok_iff.2 ⟨_, hbody, honce, hread⟩]
      simp [GitHub.Package.push?, hkind, hurl]

/-- What is taken from a body is announced by it. -/
theorem announces_pushes (h : sender.pushes body ≠ []) :
    Announces body sender (sender.pushes body) := by
  cases sender with
  | harbor =>
      cases hdecode : Harbor.decode body with
      | error _ => simp [pushes, Harbor.pushes, hdecode] at h
      | ok a =>
          obtain ⟨members, hbody, honce, hread⟩ := harbor_decode_eq_ok_iff.1 hdecode
          rw [pushes, Harbor.pushes, hdecode]
          exact .artifact hbody honce hread
  | gitHub =>
      cases hdecode : GitHub.decode body with
      | error _ => simp [pushes, GitHub.push?, hdecode] at h
      | ok package =>
          obtain ⟨members, hbody, honce, hread⟩ := gitHub_decode_eq_ok_iff.1 hdecode
          cases package with
          | none => simp [pushes, GitHub.push?, hdecode] at h
          | some p =>
              by_cases hpushed : p.kind = "CONTAINER" ∧ p.url ≠ ""
              · rw [pushes, GitHub.push?, hdecode]
                simp only [Option.bind_some, GitHub.Package.push?, if_pos hpushed]
                exact .package hbody honce hread hpushed.1 hpushed.2
              · simp [pushes, GitHub.push?, hdecode, GitHub.Package.push?, hpushed] at h

/-- A body that announces nothing has no pushes. -/
theorem pushes_of_not_announces (h : ∀ announced, ¬Announces body sender announced) :
    sender.pushes body = [] :=
  Classical.byContradiction fun hsome => h _ (announces_pushes hsome)

/-- An object that tells another word is refused with the word. -/
theorem refusal?_eq_unsupported {members : List (String × Json)} {word : Option String}
    (hbody : Json.parse? body = some (.obj members)) (htell : Tell members sender.field word)
    (hword : word ≠ some sender.accepted) :
    sender.refusal? body = some (.unsupported sender.field word) := by
  cases sender with
  | harbor =>
      have hdecode : Harbor.decode body = .error (.unsupported "type" word) :=
        decode_eq_unsupported hbody htell hword
      rw [refusal?, hdecode]
      rfl
  | gitHub =>
      have hdecode : GitHub.decode body = .error (.unsupported "action" word) :=
        decode_eq_unsupported hbody htell hword
      rw [refusal?, hdecode]
      rfl

/-- A list announces nothing. -/
theorem not_announces_of_items {items : List Json} (hbody : Json.parse? body = some (.arr items))
    (announced : List Image.Push) : ¬Announces body sender announced := by
  rintro (hobject | hobject) <;> rw [hbody] at hobject <;> cases hobject

end

end Sender

/-- What a sender gets to see is success, whatever it has sent. -/
theorem respond_of_reached {r : Http.Request} {sender : Sender}
    (hreached : r.endpoint = .ok sender.endpoint) (resolve : Admission.Resolver) :
    Http.respond resolve r = { status := 200 } := by
  rw [Http.respond, hreached]
  cases sender <;> rfl

/-- What a request announces is what is taken from its body. -/
theorem pushes_of_reached {r : Http.Request} {sender : Sender}
    (hreached : r.endpoint = .ok sender.endpoint) : Http.pushes r = sender.pushes r.body := by
  rw [Http.pushes, hreached]
  cases sender <;> rfl

/-- **What is announced is submitted, and nothing else.**  Every body that gets to the address of a
sender is answered with success after what it announces has been submitted to the bus, in order, one
push after the other; while the bus has no room for the next one, there is no response, but room can
always come of what the bus does by itself.  This is so whatever else happens on the bus, and so it
is in the whole program.  Of a body that announces nothing, nothing is submitted.  One word decides
about it first: the objects that tell another word than the accepted one are all called unsupported
with that word, whatever else they hold.  Both readings take arrays, and yet no array announces
anything. -/
theorem submits_announced {r : Http.Request} {sender : Sender}
    (hreached : r.endpoint = .ok sender.endpoint) :
    ∃ pushes : List Image.Push,
      (∀ (H : Type) (channel : Bus.Channel) (capacity : Nat) (handlers : List H)
        (resolve : Admission.Resolver) (begun e : Http.Exchange H),
        begun.Begins channel capacity handlers resolve r → Http.Exchange.Leads channel begun e →
        e.Serves channel { status := 200 } begun.submitted pushes) ∧
      (∀ (capacity : Nat) (handlers : List Unit) (resolve : Admission.Resolver)
        (s : Bus.Session Unit) (w : Cluster.World), w.Hosts capacity handlers s →
        ∃ begun e : Http.Exchange Unit, begun.Begins .first capacity handlers resolve r ∧
          begun.session = s ∧ Http.Exchange.Leads .first begun e ∧
          (w.serve resolve r).1.bus = e.session.bus ∧
          (w.serve resolve r).2 = if e.handling.answered then { status := 200 } else .missing) ∧
      (∀ announced, sender.Announces r.body announced → pushes = announced) ∧
      ((∀ announced, ¬sender.Announces r.body announced) → pushes = []) ∧
      (∀ members word, Json.parse? r.body = some (.obj members) →
        Tell members sender.field word → word ≠ some sender.accepted →
        sender.refusal? r.body = some (.unsupported sender.field word)) ∧
      discriminator? sender.field (.arr [.str sender.accepted]) = some (some sender.accepted) ∧
      sender.reads (.arr []) = true ∧
      (∀ items, Json.parse? r.body = some (.arr items) → pushes = []) := by
  have hserves {H : Type} {channel : Bus.Channel} {capacity : Nat} {handlers : List H}
      {resolve : Admission.Resolver} {begun e : Http.Exchange H}
      (hbegins : begun.Begins channel capacity handlers resolve r)
      (hleads : Http.Exchange.Leads channel begun e) :
      e.Serves channel { status := 200 } begun.submitted (sender.pushes r.body) := by
    have hkept := Http.Exchange.kept_begins hbegins
    rw [respond_of_reached hreached, pushes_of_reached hreached] at hkept
    exact (Http.Exchange.kept_run hkept hleads).serves channel
  refine ⟨sender.pushes r.body, fun _ _ _ _ _ _ _ => hserves, ?_,
    fun _ => Sender.pushes_of_announces, Sender.pushes_of_not_announces,
    fun _ _ => Sender.refusal?_eq_unsupported, rfl, ?_,
    fun _ hbody => Sender.pushes_of_not_announces (Sender.not_announces_of_items hbody)⟩
  · intro capacity handlers resolve s w hhosts
    obtain ⟨begun, e, hbegins, hsession, hleads, hbus, hresponse⟩ :=
      hhosts.serve resolve r
    rw [(hserves hbegins hleads).response_eq] at hresponse
    exact ⟨begun, e, hbegins, hsession, hleads, hbus, hresponse⟩
  · cases sender <;> rfl

/-- Harbor tells of two pushed tags and of a resource without an address. -/
def pushed : Http.Request :=
  { method := "POST", path := "/webhook-v1alpha1-harbor-image"
    body := Text.toUtf8 <|
      "\x7b\"type\":\"PUSH_ARTIFACT\",\"event_data\":\x7b\"resources\":[" ++
      "\x7b\"resource_url\":\"hub/web:2\"\x7d,\x7b\x7d,\x7b\"resource_url\":\"db\"\x7d]\x7d\x7d" }

/-- The notification at a bus with one place, whose dispatch has not begun: the first push has the
place, and the second one waits. -/
def pushedAtFullBus : Http.Exchange Unit where
  handling := { collector := 0, pending := [], response := { status := 200 } }
  session :=
    { bus :=
        { capacity := 1, handlers := [()], queue := [⟨"hub/web", "2"⟩]
          waiting := [⟨0, ⟨"db", "latest"⟩⟩] }
      calls := [⟨0, ⟨"hub/web", "2"⟩⟩, ⟨0, ⟨"db", "latest"⟩⟩]
      filled := [⟨0, ⟨"hub/web", "2"⟩⟩] }

/-- The notification when the dispatch has taken the first push, and the second one has the
place. -/
def pushedAndAnswered : Http.Exchange Unit where
  handling := { collector := 0, pending := [], response := { status := 200 }, answered := true }
  session :=
    { bus :=
        { capacity := 1, handlers := [()], queue := [⟨"db", "latest"⟩]
          phase := .busy ⟨"hub/web", "2"⟩ [()] }
      calls := [⟨0, ⟨"hub/web", "2"⟩⟩, ⟨0, ⟨"db", "latest"⟩⟩]
      filled := [⟨0, ⟨"hub/web", "2"⟩⟩, ⟨0, ⟨"db", "latest"⟩⟩]
      dispatched := [⟨"hub/web", "2"⟩], record := [.offered ⟨"hub/web", "2"⟩ ()] }

/-- The response comes as soon as there is room for the second push. -/
theorem leads_pushedAndAnswered : Http.Exchange.Leads .first pushedAtFullBus pushedAndAnswered := by
  refine .head (.other .start rfl rfl) (.head (.other (.advance rfl) rfl rfl) ?_)
  exact .head (.other (.fill rfl List.mem_cons_self rfl) rfl rfl) (.head (.move rfl) .refl)

/-- Two pushes are submitted for three resources, and there is no response before there is room for
the second one, which can come. -/
theorem two_submitted :
    pushed.endpoint = .ok Sender.harbor.endpoint ∧
    ∀ resolve : Admission.Resolver, ∃ begun : Http.Exchange Unit,
      begun.Begins .first 1 [()] resolve pushed ∧
      Http.Exchange.Leads .first begun pushedAtFullBus ∧
      (∃ c ∈ pushedAtFullBus.session.bus.underWay, c.collector = 0) ∧
      (∃ e, Http.Exchange.Leads .first pushedAtFullBus e ∧ e.handling.answered = true ∧
        e.session.bus.stopped = false) ∧
      Http.Exchange.Leads .first begun pushedAndAnswered ∧
      pushedAndAnswered.returned = [⟨"hub/web", "2"⟩, ⟨"db", "latest"⟩] := by
  have hreached : pushed.endpoint = .ok Sender.harbor.endpoint :=
    Http.Request.endpoint_eq_ok_iff.2 (by decide +kernel)
  have hpushes :
      Sender.harbor.pushes pushed.body = [⟨"hub/web", "2"⟩, ⟨"db", "latest"⟩] := by
    decide +kernel
  have hannounces := Sender.announces_pushes (hpushes ▸ List.cons_ne_nil _ _)
  obtain ⟨pushes, hserves, -, hannounced, -⟩ := submits_announced hreached
  refine ⟨hreached, fun resolve => ?_⟩
  let begun : Http.Exchange Unit :=
    { handling :=
        { collector := 0, pending := [⟨"hub/web", "2"⟩, ⟨"db", "latest"⟩]
          response := { status := 200 } }
      session := .new 1 [()] }
  have hbegins : begun.Begins .first 1 [()] resolve pushed := by
    refine ⟨.refl, rfl, ?_⟩
    rw [Http.Handling.begin, respond_of_reached hreached, pushes_of_reached hreached, hpushes]
  have hfull : Http.Exchange.Leads .first begun pushedAtFullBus := by
    refine .head (.move rfl) (.head (.other (.fill rfl List.mem_cons_self rfl) rfl rfl) ?_)
    exact .head (.move rfl) .refl
  have hend := hfull.trans leads_pushedAndAnswered
  have hwaiting := hserves _ _ _ _ _ _ _ hbegins hfull
  obtain ⟨c, hc, hown, -⟩ := hwaiting.waits rfl rfl
  obtain ⟨-, hreturned, -⟩ := (hserves _ _ _ _ _ _ _ hbegins hend).answered rfl
  rw [hannounced _ hannounces, hpushes] at hreturned
  exact ⟨begun, hbegins, hfull, ⟨c, hc, hown⟩,
    hwaiting.ends Bus.Channel.lets_first Nat.one_pos, hend, hreturned⟩

/-- The word decides first only where the first reading gets as far as the word, and where there is
one.  Of two objects of one type the one with a key that is no text is malformed, and so is an
object whose type is a number. -/
theorem same_type_other_answer :
    let deleted := Text.toUtf8 "\x7b\"type\":\"DELETE_ARTIFACT\"\x7d"
    let deletedOddly := Text.toUtf8 "\x7b\"type\":\"DELETE_ARTIFACT\",\"\\ud800\":1\x7d"
    let numbered := Text.toUtf8 "\x7b\"type\":1\x7d"
    (Json.Token.scan? deleted).any (fun
        | [.openObject, .string (some "type"), .colon, .string (some "DELETE_ARTIFACT"),
          .closeObject] => true
        | _ => false) ∧
      (Json.Token.scan? deletedOddly).any (fun
        | [.openObject, .string (some "type"), .colon, .string (some "DELETE_ARTIFACT"),
          .comma, .string none, .colon, .scalar (.int 1), .closeObject] => true
        | _ => false) ∧
      (Json.parse? deletedOddly).isSome ∧
      Sender.harbor.refusal? deleted = some (.unsupported "type" (some "DELETE_ARTIFACT")) ∧
      Sender.harbor.refusal? deletedOddly = some .malformed ∧
      (Json.parse? numbered).any (fun
        | .obj [("type", .int 1)] => true
        | _ => false) ∧
      Sender.harbor.refusal? numbered = some .malformed := by
  refine ⟨?_, ?_, ?_, ?_, ?_, ?_, ?_⟩ <;> decide +kernel

end Notification

end ImageRollout
