import Mathlib.Data.List.Count
import Mathlib.Data.List.Induction
import Mathlib.Data.List.Nodup
import ImageRollout.Proofs.Fleet.Acts

/-!
# The chronicle of a fleet

A fleet is told of changes of namespaces in any order, among them changes that no watch would
report, and at any moment everything can be asked to stop.  The chronicle keeps what was done to
teams and to their controllers.

The invariant is `Sound`: seen from one namespace, teams are built and stopped by turns; the deeds
are those of the acts; and a team is stopped, with all its members, exactly if it is managed no
more.

* `entries_enroll`: what a registry holds after any calls to register kinds.
* `sound_next`, `sound_follow`: whatever the fleet is told keeps the invariant.
* `teams_by_turns`: the invariant and what the end of the fleet adds to it.
-/

namespace ImageRollout.Controllers

open Kubernetes Namespaces

variable {C : Type}

namespace Registry

variable {α : Type}

/-- The registry after calls to register kinds, of which a refused one changes nothing. -/
def enroll (calls : List (String × α)) : Registry α :=
  calls.foldl
    (fun r call =>
      match r.register call.1 call.2 with
      | .ok r => r
      | .error _ => r)
    {}

/-- A kind that was registered before keeps its maker. -/
theorem enroll_concat (calls : List (String × α)) (kind : String) (maker : α) :
    (enroll (calls ++ [(kind, maker)])).entries =
      if kind ∈ (enroll calls).registered then (enroll calls).entries
      else (enroll calls).entries ++ [(kind, maker)] := by
  rw [enroll, List.foldl_append]
  change (match (enroll calls).register kind maker with
    | .ok r => r
    | .error _ => enroll calls).entries = _
  by_cases hkind : kind ∈ (enroll calls).registered
  · rw [register, if_pos hkind, if_pos hkind]
  · rw [register, if_neg hkind, if_neg hkind]

/-- **What calls to register come to.**  Of every kind the first call counts, and the kinds stand
in the order of those calls, each once. -/
theorem entries_enroll (calls : List (String × α)) :
    (enroll calls).entries.Sublist calls ∧ (enroll calls).registered.Nodup ∧
      ∀ kind, List.lookup kind (enroll calls).entries = List.lookup kind calls := by
  induction calls using List.reverseRecOn with
  | nil => exact ⟨List.Sublist.refl _, List.nodup_nil, fun _ => rfl⟩
  | append_singleton earlier call ih =>
      obtain ⟨kind, maker⟩ := call
      obtain ⟨hsublist, hnodup, hlookup⟩ := ih
      have hentries := enroll_concat earlier kind maker
      have hknown : kind ∈ (enroll earlier).registered ↔ (List.lookup kind earlier).isSome := by
        rw [← hlookup kind]
        exact Table.has_eq_true_iff.symm
      by_cases hkind : kind ∈ (enroll earlier).registered
      · rw [if_pos hkind] at hentries
        refine ⟨?_, ?_, fun other => ?_⟩
        · rw [hentries]
          exact hsublist.trans (List.sublist_append_left _ _)
        · rw [registered, hentries]
          exact hnodup
        · rw [hentries, hlookup, List.lookup_append, Table.lookup_cons]
          by_cases hother : other = kind
          · obtain ⟨first, hfirst⟩ := Option.isSome_iff_exists.1 (hknown.1 hkind)
            rw [hother, hfirst]
            rfl
          · rw [if_neg hother]
            simp
      · rw [if_neg hkind] at hentries
        refine ⟨?_, ?_, fun other => ?_⟩
        · rw [hentries]
          exact hsublist.append_right _
        · rw [registered, hentries, List.map_append]
          refine List.nodup_append.2 ⟨hnodup, by simp, fun a ha b hb heq => hkind ?_⟩
          have hb : b = kind := by simpa using hb
          rw [← hb, ← heq]
          exact ha
        · rw [hentries, List.lookup_append, List.lookup_append, hlookup]

end Registry

/-- Something that a fleet is told: a change of a namespace, or that everything is to stop. -/
inductive Order where
  | notify (note : Notification)
  | cancel

/-- A fleet with what was done to teams and to their controllers, in the order of time. -/
structure Chronicle (C : Type) where
  fleet : Fleet C := {}
  acts : List Act := []
  deeds : List Deed := []

namespace Chronicle

variable (conduct : Conduct C) (registry : Registry (String → Except String C))

/-- The chronicle after the fleet was told something. -/
def next (c : Chronicle C) : Order → Chronicle C
  | .notify note =>
    { fleet := (c.fleet.sync conduct registry note).1
      acts := c.acts ++ (c.fleet.act? note).toList
      deeds := c.deeds ++ (c.fleet.sync conduct registry note).2 }
  | .cancel => { c with fleet := c.fleet.stopAll }

/-- The chronicle of a fleet from its beginning. -/
def follow (orders : List Order) : Chronicle C := orders.foldl (next conduct registry) {}

/-- The first `k` acts on the team of a namespace if teams are built and stopped by turns. -/
def byTurns (n : String) : Nat → List Act
  | 0 => []
  | k + 1 => byTurns n k ++ [if k % 2 = 0 then .built n else .stopped n]

/-- The acts on the team of a namespace. -/
def actsOn (c : Chronicle C) (n : String) : List Act := c.acts.filter (·.namespaceName = n)

/-- The invariant of all chronicles. -/
structure Sound (c : Chronicle C) : Prop where
  wellKept : c.fleet.WellKept registry
  byTurns : ∀ n, ∃ k, c.actsOn n = byTurns n k ∧ (c.fleet.managed.has n = true ↔ k % 2 = 1)
  deeds : c.deeds = c.acts.flatMap (Act.deeds registry.registered)
  /-- The managed teams are not stopped, and one run of each was begun. -/
  running : ∀ e ∈ c.fleet.managed,
    e.2.stopped = false ∧ (∀ m ∈ e.2.members, m.stopped = false) ∧ e.2.runs.length = 1
  /-- All others are. -/
  halted : ∀ t ∈ c.fleet.retired,
    t.stopped = true ∧ t.members.map (·.kind) = registry.registered ∧ t.runs.length = 1
  retired : ∀ n, (c.fleet.retired.filter (·.namespaceName = n)).length =
    c.acts.count (.stopped n)

variable {conduct registry}

/-- Of acts that come by turns the first builds a team, so half of them build one, rounded up, and
half of them stop it. -/
theorem count_byTurns (n : String) (k : Nat) :
    (byTurns n k).count (.built n) = (k + 1) / 2 ∧ (byTurns n k).count (.stopped n) = k / 2 := by
  induction k with
  | zero => exact ⟨rfl, rfl⟩
  | succ k ih =>
      obtain ⟨hbuilt, hstopped⟩ := ih
      rw [byTurns, List.count_append, List.count_append, hbuilt, hstopped]
      rcases Nat.mod_two_eq_zero_or_one k with heven | hodd
      · rw [if_pos heven, List.count_singleton_self, List.count_singleton, if_neg (by simp)]
        omega
      · rw [if_neg (by omega), List.count_singleton_self, List.count_singleton, if_neg (by simp)]
        omega

/-- A namespace is managed while its team was built once more than stopped. -/
theorem managed_iff_count {c : Chronicle C} (h : c.Sound registry) (n : String) :
    (c.fleet.managed.has n = true ↔ c.acts.count (.built n) = c.acts.count (.stopped n) + 1) ∧
      (c.fleet.managed.has n = false ↔ c.acts.count (.built n) = c.acts.count (.stopped n)) := by
  obtain ⟨k, hacts, hmanaged⟩ := h.byTurns n
  have hown (a : Act) (ha : a.namespaceName = n) : c.acts.count a = (byTurns n k).count a := by
    rw [← hacts, actsOn, List.count_filter (by simpa using ha)]
  obtain ⟨hbuilt, hstopped⟩ := count_byTurns n k
  rw [hown _ rfl, hown _ rfl, hbuilt, hstopped, ← Bool.not_eq_true, hmanaged]
  omega

/-- Before the first order there is nothing to be told. -/
theorem sound_new : ({} : Chronicle C).Sound registry where
  wellKept := Fleet.wellKept_empty
  byTurns := fun n => ⟨0, rfl, by simp [Table.has]⟩
  deeds := rfl
  running := by simp
  halted := by simp
  retired := by simp

/-- An act done to a namespace in its turn keeps the turns of all namespaces. -/
theorem byTurns_act {c : Chronicle C} (h : c.Sound registry) {managed : Table (Team C)} {a : Act}
    (hturn : a = if c.fleet.managed.has a.namespaceName then .stopped a.namespaceName
      else .built a.namespaceName)
    (hmanaged : ∀ n, managed.has n =
      if n = a.namespaceName then !c.fleet.managed.has n else c.fleet.managed.has n) (n : String) :
    ∃ k, (c.acts ++ [a]).filter (·.namespaceName = n) = byTurns n k ∧
      (managed.has n = true ↔ k % 2 = 1) := by
  obtain ⟨k, hacts, hk⟩ := h.byTurns n
  rw [actsOn] at hacts
  rw [List.filter_append, hacts, hmanaged]
  by_cases hn : n = a.namespaceName
  · refine ⟨k + 1, ?_, ?_⟩
    · rw [List.filter_cons_of_pos (by simpa using hn.symm), List.filter_nil, byTurns, hturn,
        ← hn]
      by_cases hhas : c.fleet.managed.has n = true
      · have hodd := hk.1 hhas
        rw [if_pos hhas, if_neg (by omega)]
      · have heven : k % 2 = 0 := by
          have := mt hk.2 hhas
          omega
        rw [if_neg hhas, if_pos heven]
    · rw [if_pos hn, Bool.not_eq_true', ← Bool.not_eq_true, hk]
      omega
  · refine ⟨k, ?_, ?_⟩
    · rw [List.filter_cons_of_neg (by simpa using fun heq => hn heq.symm), List.filter_nil,
        List.append_nil]
    · rw [if_neg hn, hk]

/-- A notification keeps the invariant, whether or not a watch would report it. -/
theorem sound_notify (hreg : registry.NeverFails) (hstop : conduct.NeverFails) {c : Chronicle C}
    (h : c.Sound registry) (note : Notification) :
    (c.next conduct registry (.notify note)).Sound registry := by
  have hkept : (c.fleet.sync conduct registry note).1.WellKept registry :=
    Fleet.wellKept_sync h.wellKept note
  rcases Fleet.act_cases conduct registry hreg note c.fleet with
    ⟨t, deeds, hact, hfree, hmake, hsync⟩ | ⟨t, hact, hteam, hsync⟩ | ⟨hact, hsync⟩
  · -- The team is built.
    obtain ⟨hdeeds, hrunning, hmembers, hruns⟩ := Team.deeds_of_make hmake
    rw [hsync] at hkept
    simp only [next, hact, hsync, Option.toList_some]
    refine ⟨hkept, ?_, ?_, ?_, h.halted, ?_⟩
    · apply byTurns_act h
      · simp [Act.namespaceName, hfree]
      · intro n
        rw [Table.has_insert]
        by_cases hn : n = note.object.name
        · simp [Act.namespaceName, hn, hfree]
        · simp [Act.namespaceName, hn]
    · rw [h.deeds, List.flatMap_append, List.flatMap_singleton, hdeeds]
    · intro e he
      rcases List.mem_cons.1 he with rfl | hmem
      · exact ⟨hrunning, hmembers, by simp [Team.beginRun, hruns]⟩
      · exact h.running e (List.mem_filter.1 hmem).1
    · intro n
      rw [List.count_append, List.count_singleton, if_neg (by simp)]
      exact h.retired n
  · -- The team is stopped.
    have hmem := Table.mem_of_lookup hteam
    have hname : t.namespaceName = note.object.name := h.wellKept.named _ hmem
    have hkinds : t.members.map (·.kind) = registry.registered := h.wellKept.complete _ hmem
    have hhas : c.fleet.managed.has note.object.name = true := by simp [Table.has, hteam]
    rw [Fleet.stopTeam, Team.stop_of_never_fails hstop, hname, hkinds] at hsync
    simp only [Option.map_none, Option.toList_none, List.append_nil] at hsync
    rw [hsync] at hkept
    simp only [next, hact, hsync, Option.toList_some]
    refine ⟨hkept, ?_, ?_, ?_, ?_, ?_⟩
    · apply byTurns_act h
      · simp [Act.namespaceName, hhas]
      · intro n
        rw [Table.has_erase]
        by_cases hn : n = note.object.name
        · simp [Act.namespaceName, hn, hhas]
        · simp [Act.namespaceName, hn]
    · rw [h.deeds, List.flatMap_append, List.flatMap_singleton]
    · intro e he
      exact h.running e (List.mem_filter.1 he).1
    · intro u hu
      rcases List.mem_append.1 hu with hold | hnew
      · exact h.halted u hold
      · rw [List.mem_singleton.1 hnew]
        refine ⟨rfl, ?_, (h.running _ hmem).2.2⟩
        simpa [Team.halted, Function.comp_def] using hkinds
    · intro n
      rw [List.filter_append, List.length_append, h.retired, List.count_append]
      have hhalted : t.halted.namespaceName = note.object.name := hname
      by_cases hn : note.object.name = n
      · simp [hhalted, hn]
      · simp [hhalted, hn]
  · simpa [next, hact, hsync] using h

/-- Every order leaves a chronicle that tells of all that was done, as long as nobody fails. -/
theorem sound_next (hreg : registry.NeverFails) (hstop : conduct.NeverFails) {c : Chronicle C}
    (h : c.Sound registry) (order : Order) : (c.next conduct registry order).Sound registry := by
  cases order with
  | notify note => exact sound_notify hreg hstop h note
  | cancel =>
      exact ⟨⟨h.wellKept.nodup, h.wellKept.named, h.wellKept.complete⟩, h.byTurns, h.deeds,
        h.running, h.halted, h.retired⟩

/-- The invariant holds whatever a fleet is told. -/
theorem sound_follow (hreg : registry.NeverFails) (hstop : conduct.NeverFails)
    (orders : List Order) : (follow conduct registry orders).Sound registry := by
  induction orders using List.reverseRecOn with
  | nil => exact sound_new
  | append_singleton earlier order ih =>
      rw [follow, List.foldl_append]
      exact sound_next hreg hstop ih order

/-- The fleet is stopped for good just if it was told so. -/
theorem stopped_follow (orders : List Order) :
    (follow conduct registry orders).fleet.stopped = true ↔ .cancel ∈ orders := by
  induction orders using List.reverseRecOn with
  | nil => simp [follow]
  | append_singleton earlier order ih =>
      have hlast : follow conduct registry (earlier ++ [order]) =
          (follow conduct registry earlier).next conduct registry order := by
        rw [follow, List.foldl_append]
        rfl
      rw [hlast]
      cases order with
      | cancel => simp [next, Fleet.stopAll]
      | notify note =>
          have hsync :=
            Fleet.stopped_sync conduct registry note (follow conduct registry earlier).fleet
          simp [next, hsync, ih]

/-- Whether a controller is asked to stop depends on its own team alone. -/
theorem isStopped_iff {c : Chronicle C} (h : c.Sound registry) {t : Team C}
    (ht : t ∈ c.fleet.managed.map (·.2) ++ c.fleet.retired) {m : Member C}
    (hm : m ∈ t.members) :
    t.isStopped c.fleet.stopped m = false ↔
      t ∈ c.fleet.managed.map (·.2) ∧ c.fleet.stopped = false := by
  rcases List.mem_append.1 ht with hcurrent | hpast
  · obtain ⟨e, he, rfl⟩ := List.mem_map.1 hcurrent
    obtain ⟨hteam, hmembers, -⟩ := h.running e he
    simp [Team.isStopped, hteam, hmembers m hm, hcurrent]
  · have hhalted := (h.halted t hpast).1
    have hgone : t ∉ c.fleet.managed.map (·.2) := by
      intro hcurrent
      obtain ⟨e, he, rfl⟩ := List.mem_map.1 hcurrent
      rw [(h.running e he).1] at hhalted
      cases hhalted
    simp [Team.isStopped, hhalted, hgone]

/-- What the end of the fleet comes to. -/
theorem shutdown_eq (hstop : conduct.NeverFails) {c : Chronicle C} (h : c.Sound registry) :
    c.fleet.shutdown conduct =
      ({ c.fleet with managed := [], retired := c.fleet.retired ++ c.fleet.teams.map Team.halted },
        c.fleet.namespaces.flatMap fun n => (Act.stopped n).deeds registry.registered) := by
  have hdeeds := Fleet.map_teams h.wellKept fun n kinds => (Act.stopped n).deeds kinds
  rw [Fleet.shutdown, Fleet.stopTeams_of_never_fails hstop, List.flatMap_def, hdeeds,
    ← List.flatMap_def]

/-- With the end of the fleet every team was stopped as often as built. -/
theorem count_shutdown {c : Chronicle C} (h : c.Sound registry) (n : String) :
    (c.acts ++ c.fleet.namespaces.map Act.stopped).count (Act.built n) =
      (c.acts ++ c.fleet.namespaces.map Act.stopped).count (Act.stopped n) := by
  obtain ⟨hmanaged, hunmanaged⟩ := managed_iff_count h n
  have hnames := (Fleet.perm_namespaces h.wellKept).mem_iff (a := n)
  rw [← Table.has_eq_true_iff] at hnames
  have hbuilt : (c.fleet.namespaces.map Act.stopped).count (Act.built n) = 0 := by
    rw [List.count_eq_zero]
    simp
  have hstopped : (c.fleet.namespaces.map Act.stopped).count (Act.stopped n) =
      c.fleet.namespaces.count n :=
    List.count_map_of_injective _ _ (fun _ _ heq => Act.stopped.inj heq) n
  rw [List.count_append, List.count_append, hbuilt, hstopped]
  cases hhas : c.fleet.managed.has n with
  | true =>
      have hone : c.fleet.namespaces.count n = 1 :=
        List.count_eq_one_of_mem (Text.nodup_ascending _) (hnames.2 hhas)
      have := hmanaged.1 hhas
      omega
  | false =>
      have hnone : c.fleet.namespaces.count n = 0 := by
        rw [List.count_eq_zero, hnames, hhas]
        exact Bool.false_ne_true
      have := hunmanaged.1 hhas
      omega

/-- **Teams are built and stopped by turns.**  Register kinds by any calls, let no maker and no stop
fail, and tell the fleet of any changes of namespaces and to stop everything, in any order.  Of each
namespace the team is built and stopped by turns, and it is managed while it was built once more
than stopped.  A team that is built has one controller of each registered kind, made in the order of
registration, and one run; a controller goes on exactly while its team is managed and nobody has
stopped everything, and what is done to one team leaves all others alone.  The end of the fleet
stops each managed team once, in whatever order, and leaves none. -/
theorem teams_by_turns (calls : List (String × (String → Except String C)))
    (hmakers : ∀ call ∈ calls, ∀ n, ∃ body, call.2 n = .ok body)
    (hstop : conduct.NeverFails) (orders : List Order) :
    let registry := Registry.enroll calls
    let c := follow conduct registry orders
    let teams := c.fleet.managed.map (·.2) ++ c.fleet.retired
    let ended := c.fleet.shutdown conduct
    (registry.entries.Sublist calls ∧ registry.registered.Nodup ∧
      ∀ kind, List.lookup kind registry.entries = List.lookup kind calls) ∧
    (∀ n, (∃ k, c.actsOn n = byTurns n k ∧ (c.fleet.managed.has n = true ↔ k % 2 = 1)) ∧
      (c.fleet.managed.has n = true ↔
        c.acts.count (Act.built n) = c.acts.count (Act.stopped n) + 1)) ∧
    (c.deeds = c.acts.flatMap (Act.deeds registry.registered) ∧
      (∀ t ∈ teams, t.members.map (·.kind) = registry.registered ∧ t.runs.length = 1) ∧
      ∀ n, (c.fleet.retired.filter (·.namespaceName = n)).length =
        c.acts.count (Act.stopped n)) ∧
    ((∀ t ∈ teams, ∀ m ∈ t.members, t.isStopped c.fleet.stopped m = false ↔
        t ∈ c.fleet.managed.map (·.2) ∧ c.fleet.stopped = false) ∧
      (c.fleet.stopped = true ↔ .cancel ∈ orders) ∧
      ∀ note n, n ≠ note.object.name →
        List.lookup n (c.fleet.sync conduct registry note).1.managed =
          List.lookup n c.fleet.managed) ∧
    (ended.1.managed = [] ∧
      ended.2 = c.fleet.namespaces.flatMap (fun n => (Act.stopped n).deeds registry.registered) ∧
      (c.fleet.namespaces.Perm c.fleet.managed.names ∧ c.fleet.namespaces.Nodup) ∧
      (∀ n, (c.acts ++ c.fleet.namespaces.map Act.stopped).count (Act.built n) =
        (c.acts ++ c.fleet.namespaces.map Act.stopped).count (Act.stopped n)) ∧
      (∀ t ∈ ended.1.retired, ∀ m ∈ t.members, t.isStopped ended.1.stopped m = true) ∧
      ∀ order : List (Team C), order.Perm c.fleet.teams →
        (Fleet.stopTeams conduct order).2.Perm ended.2) := by
  intro registry c teams ended
  obtain ⟨hsublist, hnodup, hfirst⟩ := Registry.entries_enroll calls
  have hreg : registry.NeverFails := fun e he n => hmakers e (hsublist.subset he) n
  have hsound : c.Sound registry := sound_follow hreg hstop orders
  have hended : ended = _ := shutdown_eq hstop hsound
  refine ⟨⟨hsublist, hnodup, hfirst⟩,
    fun n => ⟨hsound.byTurns n, (managed_iff_count hsound n).1⟩,
    ⟨hsound.deeds, ?_, hsound.retired⟩, ⟨?_, stopped_follow orders, ?_⟩,
    by rw [hended], by rw [hended], ?_, count_shutdown hsound, ?_, ?_⟩
  · intro t ht
    rcases List.mem_append.1 ht with hcurrent | hpast
    · obtain ⟨e, he, rfl⟩ := List.mem_map.1 hcurrent
      exact ⟨hsound.wellKept.complete e he, (hsound.running e he).2.2⟩
    · exact (hsound.halted t hpast).2
  · intro t ht m hm
    exact isStopped_iff hsound ht hm
  · intro note n hn
    apply Fleet.lookup_sync_of_ne hreg
    intro a ha heq
    exact hn (heq.symm.trans (Fleet.namespaceName_of_act? ha))
  · exact ⟨Fleet.perm_namespaces hsound.wellKept, Text.nodup_ascending _⟩
  · intro t ht m hm
    rw [hended] at ht
    rcases List.mem_append.1 ht with hpast | hnow
    · simp [Team.isStopped, (hsound.halted t hpast).1]
    · obtain ⟨u, -, rfl⟩ := List.mem_map.1 hnow
      simp [Team.isStopped, Team.halted]
  · intro order horder
    have hteams : ended.2 = (Fleet.stopTeams conduct c.fleet.teams).2 := rfl
    rw [hteams, Fleet.stopTeams_of_never_fails hstop, Fleet.stopTeams_of_never_fails hstop]
    exact horder.flatMap_right _

/-- Calls to register two kinds, of which the third is refused. -/
def threeCalls : List (String × (String → Except String Script)) :=
  twoKinds.entries ++ [("job", fun _ => .ok { running := .waiting })]

/-- A fleet that is told of a namespace it does not know, of one twice, that everything is to stop,
and of one that comes again. -/
def disorder : List Order :=
  [.notify { change := .deleted, object := labelled "a" "true" },
    .notify { change := .added, object := labelled "a" "true" },
    .notify { change := .added, object := labelled "a" "true" },
    .notify { change := .modified, object := labelled "b" "true" },
    .notify { change := .modified, object := labelled "a" "false" },
    .cancel,
    .notify { change := .added, object := labelled "a" "true" }]

/-- Controllers whose runs are over at once and that never fail to stop. -/
def steady : Conduct Script := { progress := fun _ _ => .over }

/-- In the disorder the team of `a` is built twice and stopped once, and the end stops it again. -/
theorem turns_in_disorder :
    (∀ call ∈ threeCalls, ∀ n, ∃ body, call.2 n = .ok body) ∧ steady.NeverFails ∧
      (follow steady (Registry.enroll threeCalls) disorder).fleet.managed.has "a" = true ∧
      ((follow steady (Registry.enroll threeCalls) disorder).fleet.shutdown steady).1.managed =
        [] := by
  have hmakers : ∀ call ∈ threeCalls, ∀ n, ∃ body, call.2 n = .ok body := by
    intro call hcall n
    rcases List.mem_append.1 hcall with hmem | hmem
    · exact neverFails_twoKinds call hmem n
    · rw [List.mem_singleton.1 hmem]
      exact ⟨_, rfl⟩
  have hstop : steady.NeverFails := fun _ => rfl
  obtain ⟨-, hturns, -, -, hended, -⟩ := teams_by_turns threeCalls hmakers hstop disorder
  have hacts : (follow steady (Registry.enroll threeCalls) disorder).acts =
      [.built "a", .built "b", .stopped "a", .built "a"] := by decide
  refine ⟨hmakers, hstop, (hturns "a").2.2 ?_, hended⟩
  rw [hacts]
  decide

end Chronicle

end ImageRollout.Controllers
