import ImageRollout.Bus
import ImageRollout.Proofs.Config.Validation
import ImageRollout.Startup

/-!
# What a valid configuration promises

A configuration is checked before anything is built from it, so that nothing that is built from a
valid one can fail.  For the tag source and the controllers the check sees to that.  A bus must have
room for some push, which the check sees to as well; but it cannot have room for any number of them,
and of that the check knows nothing.

* `registerAll_eq_ok`: which kinds of controllers are registered.
* `exists_prepare`: a valid configuration has a source and all of its controllers.
* `assembles_iff_capacity_le`: when everything can be built.
-/

namespace ImageRollout

open Controllers

/-- There can be a bus exactly if it has room for some push, and for no more than an eighth of what
can be counted. -/
theorem Bus.isSome_make?_iff {H : Type} {capacity : Nat} {handlers : List H} :
    (Bus.make? capacity handlers).isSome ↔
      0 < capacity ∧ capacity ≤ (UInt64.size - 1) >>> 3 := by
  have hmax : Bus.maxCapacity = (UInt64.size - 1) >>> 3 := by decide
  rw [make?, ← hmax]
  split <;> simp_all

/-- Kinds that can all be made, and are different from each other and from those before, are
registered in order. -/
theorem Controllers.Registry.registerAll_eq_ok {α : Type} {maker? : String → Option α}
    {listed : List String} {r : Registry α} (hmade : ∀ kind ∈ listed, (maker? kind).isSome)
    (hnodup : (r.registered ++ listed).Nodup) :
    ∃ r', registerAll maker? listed r = .ok r' ∧ r'.registered = r.registered ++ listed := by
  induction listed generalizing r with
  | nil => exact ⟨r, rfl, (List.append_nil _).symm⟩
  | cons kind rest ih =>
      obtain ⟨hfirst, hrest⟩ := List.forall_mem_cons.1 hmade
      obtain ⟨maker, hmaker⟩ := Option.isSome_iff_exists.1 hfirst
      have hfree : kind ∉ r.registered := fun hmem =>
        (List.nodup_append.1 hnodup).2.2 kind hmem kind List.mem_cons_self rfl
      let next : Registry α := { entries := r.entries ++ [(kind, maker)] }
      have hregister : r.register kind maker = .ok next := if_neg hfree
      have hnext : next.registered = r.registered ++ [kind] := by
        simp [next, Registry.registered]
      have hwhole : next.registered ++ rest = r.registered ++ kind :: rest := by
        rw [hnext, List.append_assoc, List.singleton_append]
      obtain ⟨r', hall, hregistered⟩ := ih (r := next) hrest (hwhole ▸ hnodup)
      refine ⟨r', ?_, hregistered.trans hwhole⟩
      simp only [registerAll, hmaker, hregister, hall]

namespace Startup

/-- Every kind of controller that a configuration may list can be made. -/
theorem isSome_controllerKind? {kind : String} (h : kind ∈ Controllers.kinds) :
    (controllerKind? kind).isSome := by
  simp only [Controllers.kinds, List.mem_cons, List.not_mem_nil, or_false] at h
  rcases h with rfl | rfl | rfl <;> rfl

/-- **A valid configuration has a tag source and all of its controllers.** -/
theorem exists_prepare {config : Config} (hvalid : config.validate = .ok ()) :
    ∃ foundation, prepare config true = .ok foundation ∧ foundation.config = config ∧
      TagSource.ofOptions config.repository = .ok foundation.source ∧
      controllers config = .ok foundation.controllers ∧
      foundation.controllers.registered = config.controllers := by
  obtain ⟨hprotocol, -, hknown, hnodup⟩ := config.validate_eq_ok_iff.1 hvalid
  have hoptions := config.repository.validate_eq_ok_iff.2 hprotocol
  obtain ⟨source, hsource⟩ :
      ∃ source, TagSource.ofOptions config.repository = .ok source := by
    rw [TagSource.ofOptions, hoptions]
    dsimp only
    split
    · exact ⟨_, rfl⟩
    · split <;> exact ⟨_, rfl⟩
  have hmade : ∀ kind ∈ config.controllers, (controllerKind? kind).isSome := fun kind hkind =>
    isSome_controllerKind? (hknown kind hkind)
  obtain ⟨registry, hregistry, hregistered⟩ :=
    Registry.registerAll_eq_ok (r := {}) hmade (by simpa [Registry.registered] using hnodup)
  have hcontrollers : controllers config = .ok registry := hregistry
  refine ⟨{ config, source, controllers := registry }, ?_, rfl, hsource,
    hcontrollers, hregistered⟩
  simp [prepare, hsource, hcontrollers]

/-- What makes clients that carry requests to registries, given whether any certificate will do. -/
abbrev ClientMaker (Client : Type) := Bool → Option Client

/-- Everything that the program consists of before it watches or serves anything. -/
structure Assembly (Client : Type) where
  foundation : Foundation
  /-- What carries requests to the registry, where there is one. -/
  client : Option Client
  bus : Bus Unit

variable {Client : Type} (makeClient : ClientMaker Client)

/-- The client of a tag source, if it needs one. -/
def equip? (foundation : Foundation) : Option (Option Client) :=
  match foundation.source with
  | .harbor .. => (makeClient foundation.config.repository.insecureSkipVerify).map some
  | .mock _ | .unsupported => some none

/-- Builds everything from a configuration, unless a part of it cannot be had. -/
def assemble? (config : Config) : Option (Assembly Client) :=
  match prepare config true with
  | .error _ => none
  | .ok foundation =>
    match equip? makeClient foundation, Bus.make? config.capacity [()] with
    | some client, some bus => some { foundation, client, bus }
    | _, _ => none

/-- A tag source has its client where clients can be made. -/
theorem isSome_equip? (hclient : ∀ any, (makeClient any).isSome) (foundation : Foundation) :
    (equip? makeClient foundation).isSome := by
  rw [equip?]
  split
  · rw [Option.isSome_map]
    exact hclient _
  · rfl
  · rfl

/-- **Only the length of the queue can be wrong with a valid configuration.**  Where clients can be
made, everything but the bus is built from it without fail, and the controllers are the listed ones
in their order.  The bus is built, and so everything is, exactly if its capacity is at most an
eighth of what 64 bits can count. -/
theorem assembles_iff_capacity_le (hclient : ∀ any, (makeClient any).isSome) {config : Config}
    (hvalid : config.validate = .ok ()) :
    (∃ foundation client, prepare config true = .ok foundation ∧
      TagSource.ofOptions config.repository = .ok foundation.source ∧
      equip? makeClient foundation = some client ∧
      controllers config = .ok foundation.controllers ∧
      foundation.controllers.registered = config.controllers) ∧
    ((Bus.make? config.capacity [()]).isSome ↔ config.capacity ≤ (UInt64.size - 1) >>> 3) ∧
    ((assemble? makeClient config).isSome ↔ config.capacity ≤ (UInt64.size - 1) >>> 3) := by
  obtain ⟨foundation, hprepare, -, hsource, hcontrollers, hregistered⟩ := exists_prepare hvalid
  obtain ⟨client, hequip⟩ :=
    Option.isSome_iff_exists.1 (isSome_equip? makeClient hclient foundation)
  have hbus : (Bus.make? config.capacity [()]).isSome ↔
      config.capacity ≤ (UInt64.size - 1) >>> 3 := by
    have hsome := (config.validate_eq_ok_iff.1 hvalid).2.1
    rw [Bus.isSome_make?_iff, and_iff_right hsome]
  refine ⟨⟨foundation, client, hprepare, hsource, hequip, hcontrollers, hregistered⟩,
    hbus, ?_⟩
  rw [← hbus, assemble?, hprepare]
  cases hmake : Bus.make? config.capacity [()] <;> simp [hequip]

/-- A configuration file that sets nothing but the capacity of the bus. -/
def fileOf (capacity : String) : Config.File :=
  .content ("eventBus:\n  capacity: " ++ capacity ++ "\n").toUTF8.toList

/-- The longest queue that can be had. -/
theorem assembled_at_most :
    let config : Config := { capacity := 2305843009213693951 }
    config.validate = .ok () ∧ (assemble? (fun _ => some ()) config).isSome := by
  intro config
  have hvalid : config.validate = .ok () := (Config.validate_eq_ok_iff _).2 (by decide)
  obtain ⟨-, -, hall⟩ := assembles_iff_capacity_le (fun _ => some ()) (fun _ => rfl) hvalid
  exact ⟨hvalid, hall.2 (by decide)⟩

/-- With room for one more push a configuration is read from its file and found valid, and the
source and the controllers are there; but there is no such bus. -/
theorem no_room_for_one_more :
    (configure "laborer.yaml" (fileOf "2305843009213693952") []).toOption.any
        (fun config => config.capacity = 2305843009213693952) ∧
      let config : Config := { capacity := 2305843009213693952 }
      config.capacity < UInt64.size ∧ config.validate = .ok () ∧
        (prepare config true).toOption.isSome ∧
        Bus.make? config.capacity [()] = none ∧
        (assemble? (fun _ => some ()) config).isNone := by
  refine ⟨?_, by decide, (Config.validate_eq_ok_iff _).2 (by decide), by decide, by decide,
    by decide⟩
  decide +kernel

end Startup

end ImageRollout
