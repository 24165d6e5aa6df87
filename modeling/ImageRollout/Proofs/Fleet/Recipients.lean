import ImageRollout.Proofs.Fleet.Transition

/-!
# Who gets a push

A push goes to the members of all managed teams.  Seen from one namespace, those are its
`recipients`, and whatever the order in which the managed namespaces are visited, the same members
get the push, those of one namespace in the order of their registration.

* `wellKept_sync`: every team bears the name of its namespace and has a member of each kind.
* `audience_eq_flatMap`: the audience is the recipients of the managed namespaces.
* `perm_audience`, `filter_visit`: what a visit of the managed namespaces in any order comes to.
-/

namespace ImageRollout.Controllers

open Kubernetes Namespaces

variable {C : Type}

/-- The members of a team are of the registered kinds, in order. -/
theorem Team.kinds_of_makeMembers {n : String}
    {entries : List (String × (String → Except String C))} {members : List (Member C)}
    {deeds : List Deed} (h : Team.makeMembers n entries = (.ok members, deeds)) :
    members.map (·.kind) = entries.map (·.1) := by
  induction entries generalizing members deeds with
  | nil =>
      cases h
      rfl
  | cons e rest ih =>
      obtain ⟨kind, maker⟩ := e
      rw [Team.makeMembers] at h
      cases hbody : maker n with
      | error cause =>
          rw [hbody] at h
          cases h
      | ok body =>
          cases hrest : Team.makeMembers n rest with
          | mk made later =>
              rw [hbody, hrest] at h
              cases made with
              | error cause => cases h
              | ok others =>
                  cases h
                  simp [ih hrest]

/-- A team bears the name of its namespace and has a member of each registered kind. -/
theorem Team.of_make {registry : Registry (String → Except String C)} {n : String} {t : Team C}
    {deeds : List Deed} (h : Team.make registry n = (.ok t, deeds)) :
    t.namespaceName = n ∧ t.members.map (·.kind) = registry.registered := by
  rw [Team.make] at h
  cases hmembers : Team.makeMembers n registry.entries with
  | mk made later =>
      rw [hmembers] at h
      cases made with
      | error cause => cases h
      | ok members =>
          cases h
          exact ⟨rfl, Team.kinds_of_makeMembers hmembers⟩

namespace Fleet

/-- Those who get a push in one namespace, in the order of their registration. -/
def recipients (f : Fleet C) (n : String) : List (String × Member C) :=
  match List.lookup n f.managed with
  | some t => t.members.map (n, ·)
  | none => []

/-- What holds of the managed teams at all times. -/
structure WellKept (registry : Registry (String → Except String C)) (f : Fleet C) : Prop where
  nodup : f.managed.names.Nodup
  named : ∀ e ∈ f.managed, e.2.namespaceName = e.1
  complete : ∀ e ∈ f.managed, e.2.members.map (·.kind) = registry.registered

variable {conduct : Conduct C} {registry : Registry (String → Except String C)} {f : Fleet C}

/-- A fleet without teams is well kept. -/
theorem wellKept_empty : ({} : Fleet C).WellKept registry where
  nodup := List.nodup_nil
  named := fun _ h => absurd h List.not_mem_nil
  complete := fun _ h => absurd h List.not_mem_nil

/-- Whatever a notification does, the managed teams stay well kept. -/
theorem wellKept_sync (h : f.WellKept registry) (note : Notification) :
    (f.sync conduct registry note).1.WellKept registry := by
  rcases sync_cases conduct registry note f with
    ⟨t, deeds, -, hmake, hsync⟩ | ⟨cause, deeds, -, -, hsync⟩ | ⟨t, -, -, hsync⟩ |
    ⟨-, hsync⟩
  · obtain ⟨hname, hkinds⟩ := Team.of_make hmake
    rw [hsync]
    refine ⟨Table.nodup_insert h.nodup, fun e he => ?_, fun e he => ?_⟩
    all_goals rcases List.mem_cons.1 he with rfl | hmem
    · exact hname
    · exact h.named e (List.mem_filter.1 hmem).1
    · exact hkinds
    · exact h.complete e (List.mem_filter.1 hmem).1
  · rw [hsync]
    exact h
  · rw [hsync]
    exact ⟨Table.nodup_filter h.nodup, fun e he => h.named e (List.mem_filter.1 he).1,
      fun e he => h.complete e (List.mem_filter.1 he).1⟩
  · rw [hsync]
    exact h

/-- The order in which a push visits the namespaces holds each managed one once. -/
theorem perm_namespaces (h : f.WellKept registry) : f.namespaces.Perm f.managed.names :=
  (List.perm_ext_iff_of_nodup (Text.nodup_ascending _) h.nodup).2 fun _ => Text.mem_ascending

/-- Nobody gets a push in a namespace that is not managed. -/
theorem recipients_eq_nil {n : String} (h : n ∉ f.managed.names) : f.recipients n = [] := by
  rw [← Table.has_eq_true_iff, Table.has] at h
  rw [recipients]
  cases hteam : List.lookup n f.managed with
  | none => rfl
  | some t => simp [hteam] at h

/-- Whom a push reaches in a namespace belongs to it. -/
theorem fst_of_mem_recipients {n : String} {r : String × Member C} (h : r ∈ f.recipients n) :
    r.1 = n := by
  rw [recipients] at h
  split at h
  · obtain ⟨m, -, rfl⟩ := List.mem_map.1 h
    rfl
  · cases h

/-- In a managed namespace one member of each registered kind gets a push, in order. -/
theorem kinds_recipients (h : f.WellKept registry) (n : String) :
    (f.recipients n).map (·.2.kind) = if f.managed.has n then registry.registered else [] := by
  rw [recipients, Table.has]
  cases hteam : List.lookup n f.managed with
  | none => rfl
  | some t =>
      have hkinds := h.complete (n, t) (Table.mem_of_lookup hteam)
      simpa [Function.comp_def] using hkinds

/-- **The audience is the recipients of the managed namespaces.** -/
theorem audience_eq_flatMap (h : f.WellKept registry) :
    f.audience = f.namespaces.flatMap f.recipients := by
  rw [audience, teams]
  induction f.namespaces with
  | nil => rfl
  | cons n rest ih =>
      rw [List.filterMap_cons, List.flatMap_cons, recipients]
      cases hteam : List.lookup n f.managed with
      | none => simpa using ih
      | some t =>
          have hname : t.namespaceName = n := h.named (n, t) (Table.mem_of_lookup hteam)
          simp only [List.flatMap_cons, hname, ih]

/-- Whatever the order of the visits, the audience gets the push. -/
theorem perm_audience (h : f.WellKept registry) {visited : List String}
    (hvisited : visited.Perm f.managed.names) :
    (visited.flatMap f.recipients).Perm f.audience := by
  rw [audience_eq_flatMap h]
  exact (hvisited.trans (perm_namespaces h).symm).flatMap_right _

/-- Whatever the order of the visits, a namespace gets the push in its own order. -/
theorem filter_visit {visited : List String} (hnodup : visited.Nodup) (n : String) :
    (visited.flatMap f.recipients).filter (·.1 = n) =
      if n ∈ visited then f.recipients n else [] := by
  induction visited with
  | nil => rfl
  | cons k rest ih =>
      obtain ⟨hk, hrest⟩ := List.nodup_cons.1 hnodup
      rw [List.flatMap_cons, List.filter_append, ih hrest]
      by_cases hn : n = k
      · have hall : (f.recipients k).filter (·.1 = n) = f.recipients k :=
          List.filter_eq_self.2 fun r hr => by simp [fst_of_mem_recipients hr, hn]
        rw [hall, hn, if_neg hk]
        simp
      · have hnone : (f.recipients k).filter (·.1 = n) = [] :=
          List.filter_eq_nil_iff.2 fun r hr => by
            simpa [fst_of_mem_recipients hr] using fun heq => hn heq.symm
        rw [hnone]
        simp [hn]

end Fleet

end ImageRollout.Controllers
