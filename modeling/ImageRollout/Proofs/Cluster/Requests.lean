import Mathlib.Data.List.MinMax
import ImageRollout.Cluster.World
import ImageRollout.Proofs.Http.Exchanges

/-!
# Requests in the whole program

What the whole program does with the bus and with the requests that are being handled, and that this
is an exchange for every one of them.

* `move?_cases`: everything that one move of the program does to the bus and to the requests.
* `carries_turn`, `carries_run`: the program carries on the exchange of a request, whatever happens.
* `Hosts.accept`, `Hosts.serve`: a request that comes begins an exchange, and who waits for the
  response has it when the exchange is through.
-/

namespace ImageRollout.Cluster.World

open Bus (Call Channel Session callsOf)
open Http (Exchange Handling)

section Moves

variable {w w' : World}

/-- One handling moves, and all others wait. -/
theorem moveHandlings?_cases {b : Bus Unit} {handlings later : List Handling}
    {m : Bus Unit × List Notice} (hmove : moveHandlings? b handlings = some (later, m)) :
    ∃ before h h' c? after, handlings = before ++ h :: after ∧ later = before ++ h' :: after ∧
      h.next? (b.isCalling h.collector) = some (h', c?) ∧ m = makeCall b c? := by
  induction handlings generalizing later with
  | nil => cases hmove
  | cons h rest ih =>
      rw [moveHandlings?] at hmove
      split at hmove
      next h' c? hnext =>
        cases hmove
        exact ⟨[], h, h', c?, rest, rfl, rfl, hnext, rfl⟩
      next =>
        obtain ⟨⟨_, _⟩, hrest, heq⟩ := Option.map_eq_some_iff.1 hmove
        cases heq
        obtain ⟨before, h₁, h₂, c?, after, rfl, rfl, hnext, hm⟩ := ih hrest
        exact ⟨h :: before, h₁, h₂, c?, after, rfl, rfl, hnext, hm⟩

/-- The watch on namespaces has nothing to do with the bus or with requests. -/
theorem frame_moveNamespaces? (hmove : w.moveNamespaces? = some w') :
    w'.bus = w.bus ∧ w'.handlings = w.handlings := by
  rw [moveNamespaces?] at hmove
  repeat' split at hmove
  all_goals cases hmove
  all_goals exact ⟨rfl, rfl⟩

/-- Teams have nothing to do with the bus or with requests. -/
theorem frame_moveTeams? (hmove : w.moveTeams? = some w') :
    w'.bus = w.bus ∧ w'.handlings = w.handlings := by
  rw [moveTeams?] at hmove
  split at hmove
  next =>
    cases hmove
    exact ⟨rfl, rfl⟩
  next =>
    obtain ⟨⟨_, _⟩, -, rfl⟩ := Option.map_eq_some_iff.1 hmove
    exact ⟨rfl, rfl⟩

/-- Who gets a push has nothing to do with the bus or with requests. -/
theorem frame_giveTo (n kind : String) (h : Handout) (w : World) :
    (w.giveTo n kind h).handlings = w.handlings ∧ (w.giveTo n kind h).bus = w.bus := by
  rw [giveTo]
  split <;> exact ⟨rfl, rfl⟩

/-- A push that is given out occupies the bus until all have had it. -/
theorem moveHandout?_cases {h : Handout} (hmove : w.moveHandout? h = some w') :
    w'.handlings = w.handlings ∧ (w'.bus = w.bus ∨ w'.bus = (w.bus.handled .done).1) := by
  rw [moveHandout?] at hmove
  split at hmove
  next => cases hmove
  next reply _ =>
    -- Whether the last patch was accepted is only reported.
    cases reply
    all_goals
      dsimp only at hmove
      split at hmove
      next =>
        cases hmove
        exact ⟨rfl, .inl rfl⟩
      next =>
        split at hmove
        next =>
          cases hmove
          exact (frame_giveTo ..).imp_right .inl
        next =>
          cases hmove
          exact ⟨rfl, .inr rfl⟩

/-- **The moves of the program**, as the bus and the requests see them: a call returns; a request
that is being handled moves; the handler at work is done with the push in hand; the dispatch moves;
or something else happens. -/
theorem move?_cases (hmove : w.move? = some w') :
    (∃ m, w.bus.return? = some m ∧ w'.bus = m.1 ∧ w'.handlings = w.handlings) ∨
    (∃ before h h' c? after, w.handlings = before ++ h :: after ∧
      w'.handlings = before ++ h' :: after ∧
      h.next? (w.bus.isCalling h.collector) = some (h', c?) ∧ w'.bus = (makeCall w.bus c?).1) ∨
    (w'.bus = (w.bus.handled .done).1 ∧ w'.handlings = w.handlings) ∨
    (w.bus.advance? = some w'.bus ∧ w'.handlings = w.handlings) ∨
    (w'.bus = w.bus ∧ w'.handlings = w.handlings) := by
  rw [move?, Option.or_eq_some_iff, Option.or_eq_some_iff, Option.or_eq_some_iff] at hmove
  rcases hmove with ((hrequests | ⟨-, hnamespaces⟩) | ⟨-, hbus⟩) | ⟨-, hteams⟩
  · rw [moveRequests?] at hrequests
    split at hrequests
    next bus notices hreturn =>
      cases hrequests
      exact .inl ⟨_, hreturn, rfl, rfl⟩
    next =>
      obtain ⟨⟨later, bus, notices⟩, hhandlings, rfl⟩ := Option.map_eq_some_iff.1 hrequests
      obtain ⟨before, h, h', c?, after, hbefore, hafter, hnext, hm⟩ :=
        moveHandlings?_cases hhandlings
      exact .inr (.inl ⟨before, h, h', c?, after, hbefore, hafter, hnext, congrArg Prod.fst hm⟩)
  · exact .inr (.inr (.inr (.inr (frame_moveNamespaces? hnamespaces))))
  · rw [moveBus?] at hbus
    split at hbus
    next =>
      obtain ⟨hhandlings, hsame | hdone⟩ := moveHandout?_cases hbus
      · exact .inr (.inr (.inr (.inr ⟨hsame, hhandlings⟩)))
      · exact .inr (.inr (.inl ⟨hdone, hhandlings⟩))
    next =>
      cases hbus
      exact .inr (.inr (.inr (.inr ⟨rfl, rfl⟩)))
    next =>
      obtain ⟨bus, hadvance, rfl⟩ := Option.map_eq_some_iff.1 hbus
      exact .inr (.inr (.inr (.inl ⟨hadvance, rfl⟩)))
  · exact .inr (.inr (.inr (.inr (frame_moveTeams? hteams))))

end Moves

/-- What can happen while a request is handled in the name of a collector: the program moves;
something happens that has nothing to do with the bus or with requests, such as that time passes;
somebody else collects a push; another request comes, or is through; everything is stopped. -/
inductive Turn (collector : Nat) (w : World) : World → Prop
  | move {w' : World} (hmove : w.move? = some w') : Turn collector w w'
  | elsewhere {w' : World} (hbus : w'.bus = w.bus) (hhandlings : w'.handlings = w.handlings) :
      Turn collector w w'
  | collect (push : Image.Push) : Turn collector w (w.collect push)
  | accept (resolve : Admission.Resolver) (other : Nat) (r : Http.Request)
      (hother : ∀ h ∈ w.handlings, h.collector ≠ other) :
      Turn collector w (w.accept resolve other r)
  | dismiss {other : Nat} (hother : other ≠ collector) : Turn collector w (w.dismiss other)
  | cancel : Turn collector w w.cancel

/-- The exchange is that of a request that the program handles. -/
structure Carries (w : World) (e : Exchange Unit) : Prop where
  bus_eq : e.session.bus = w.bus
  handled : e.handling ∈ w.handlings
  collecting : w.bus.collecting = true
  distinct : (w.handlings.map (·.collector)).Nodup

/-- The exchange has gone on, and is still that of a request that the program handles. -/
def CarriesOn (w : World) (e : Exchange Unit) : Prop :=
  ∃ e', Exchange.Leads .first e e' ∧
    e'.handling.collector = e.handling.collector ∧ w.Carries e'

variable {collector : Nat} {w w' : World} {e : Exchange Unit}

/-- What happens on the bus in the name of others is a step of the exchange. -/
theorem leads_other {s : Session Unit}
    (hstep : Session.Step .first e.session s)
    (hcalls : callsOf e.handling.collector s.calls = callsOf e.handling.collector e.session.calls)
    (hbus : s.bus = w'.bus) (hcollecting : w'.bus.collecting = true)
    (hhandled : e.handling ∈ w'.handlings) (hdistinct : (w'.handlings.map (·.collector)).Nodup) :
    w'.CarriesOn e :=
  ⟨{ e with session := s }, .single (.other hstep hcalls (hbus ▸ hcollecting)), rfl,
    hbus, hhandled, hcollecting, hdistinct⟩

/-- What leaves the bus alone leaves the exchange as it is. -/
theorem Carries.still (hcarries : w.Carries e) (hbus : w'.bus = w.bus)
    (hhandled : e.handling ∈ w'.handlings) (hdistinct : (w'.handlings.map (·.collector)).Nodup) :
    w'.CarriesOn e :=
  ⟨e, .refl, rfl, hcarries.bus_eq.trans hbus.symm, hhandled, hbus ▸ hcarries.collecting,
    hdistinct⟩

/-- A new collector handles no request and has no call under way. -/
theorem newCollector_notMem (w : World) :
    w.newCollector ∉ w.handlings.map (·.collector) ++ w.bus.underWay.map (·.collector) := by
  intro hmem
  have hle : w.newCollector + 1 ≤ w.newCollector :=
    List.le_max_of_le' 0 (List.mem_map_of_mem hmem) le_rfl
  omega

/-- A call that returns is a step of every exchange. -/
theorem Carries.returned (h : w.Carries e) {m : Bus Unit × List Notice}
    (hreturn : w.bus.return? = some m) (hbus : w'.bus = m.1)
    (hhandlings : w'.handlings = w.handlings) :
    w'.CarriesOn e := by
  have hhandled : e.handling ∈ w'.handlings := hhandlings ▸ h.handled
  have hdistinct : (w'.handlings.map (·.collector)).Nodup := hhandlings ▸ h.distinct
  have hcollecting : e.session.bus.collecting = true := h.bus_eq ▸ h.collecting
  rw [← h.bus_eq] at hreturn
  rcases Bus.return?_cases hreturn with ⟨c, hopen, hfirst, hfill, -⟩ |
    ⟨c, hclosed, hcall, hrefuse⟩
  · rw [hfill] at hbus
    exact leads_other (.fill hopen (List.mem_of_mem_head? hfirst) hfirst) rfl hbus.symm
      (hbus ▸ hcollecting) hhandled hdistinct
  · rw [congrArg Prod.fst hrefuse] at hbus
    exact leads_other (.refuse hclosed hcall) rfl hbus.symm
      (hbus ▸ hcollecting) hhandled hdistinct

/-- The move of a handling is a step of every exchange, its own one or one of another. -/
theorem Carries.moved (h : w.Carries e) {before after : List Handling} {next next' : Handling}
    {c? : Option Call} (hbefore : w.handlings = before ++ next :: after)
    (hafter : w'.handlings = before ++ next' :: after)
    (hnext : next.next? (w.bus.isCalling next.collector) = some (next', c?))
    (hbus : w'.bus = (makeCall w.bus c?).1) :
    w'.CarriesOn e := by
  have hcollector := (Handling.frame_next? hnext).1
  have hdistinct : (w'.handlings.map (·.collector)).Nodup := by
    have hsame : w'.handlings.map (·.collector) = w.handlings.map (·.collector) := by
      rw [hbefore, hafter]
      simp [hcollector]
    exact hsame ▸ h.distinct
  have hcollecting : w'.bus.collecting = true := by
    rw [hbus]
    cases c? with
    | none => exact h.collecting
    | some c => exact (Bus.call_frame w.bus c).2.2.2.2.2.2.trans h.collecting
  by_cases hown : e.handling = next
  · subst hown
    rw [← h.bus_eq] at hnext hbus
    refine ⟨_, .single (.move hnext), hcollector, ?_, hafter ▸ by simp, hcollecting,
      hdistinct⟩
    rw [hbus]
    cases c? <;> rfl
  · have hhandled : e.handling ∈ w'.handlings := by
      have hmem := h.handled
      rw [hbefore, List.mem_append, List.mem_cons] at hmem
      rw [hafter, List.mem_append, List.mem_cons]
      exact hmem.imp_right fun hlater => .inr (hlater.resolve_left hown)
    have hother : next.collector ≠ e.handling.collector := fun heq =>
      hown (List.inj_on_of_nodup_map h.distinct h.handled (hbefore ▸ by simp) heq.symm)
    obtain ⟨⟨hidle, -⟩, ⟨push, pending, -, -, rfl⟩ | ⟨-, -, rfl⟩⟩ :=
      Handling.next?_cases hnext
    · rw [← h.bus_eq] at hidle hbus
      refine leads_other (.call ⟨next.collector, push⟩ (h.bus_eq ▸ h.collecting) hidle) ?_
        hbus.symm hcollecting hhandled hdistinct
      change callsOf _ (e.session.calls ++ [⟨next.collector, push⟩]) = _
      simp [callsOf, hother]
    · exact h.still hbus hhandled hdistinct

/-- The handler at work is done with the push in hand, if there is one. -/
theorem Carries.handedOut (h : w.Carries e) (hbus : w'.bus = (w.bus.handled .done).1)
    (hhandlings : w'.handlings = w.handlings) : w'.CarriesOn e := by
  have hhandled : e.handling ∈ w'.handlings := hhandlings ▸ h.handled
  have hdistinct : (w'.handlings.map (·.collector)).Nodup := hhandlings ▸ h.distinct
  cases hphase : w.bus.phase with
  | busy push handlers =>
      cases handlers with
      | cons handler rest =>
          rw [← h.bus_eq] at hphase hbus
          refine leads_other (.handled .returned hphase) rfl hbus.symm ?_ hhandled hdistinct
          rw [hbus, Bus.handled_of_busy hphase]
          exact h.bus_eq ▸ h.collecting
      | nil => exact h.still (by simp [hbus, Bus.handled, hphase]) hhandled hdistinct
  | waiting | idle | ended =>
      exact h.still (by simp [hbus, Bus.handled, hphase]) hhandled hdistinct

/-- The dispatch lets no collector go. -/
theorem collecting_advance? {b b' : Bus Unit} (hmove : b.advance? = some b') :
    b'.collecting = b.collecting := by
  rcases Bus.advance?_cases hmove with ⟨-, -, rfl⟩ | ⟨push, queue, -, -, -, rfl⟩ |
    ⟨push, -, rfl⟩
  all_goals rfl

/-- **The program carries on the exchange of a request**, whatever happens next. -/
theorem carries_turn (h : w.Carries e) (hturn : Turn e.handling.collector w w') :
    w'.CarriesOn e := by
  cases hturn with
  | move hmove =>
      rcases move?_cases hmove with ⟨m, hreturn, hbus, hhandlings⟩ |
        ⟨before, next, next', c?, after, hbefore, hafter, hnext, hbus⟩ |
        ⟨hbus, hhandlings⟩ | ⟨hadvance, hhandlings⟩ | ⟨hbus, hhandlings⟩
      · exact h.returned hreturn hbus hhandlings
      · exact h.moved hbefore hafter hnext hbus
      · exact h.handedOut hbus hhandlings
      · have hcollecting := (collecting_advance? hadvance).trans h.collecting
        rw [← h.bus_eq] at hadvance
        exact leads_other (.advance hadvance) rfl rfl hcollecting (hhandlings ▸ h.handled)
          (hhandlings ▸ h.distinct)
      · exact h.still hbus (hhandlings ▸ h.handled) (hhandlings ▸ h.distinct)
  | elsewhere hbus hhandlings =>
      exact h.still hbus (hhandlings ▸ h.handled) (hhandlings ▸ h.distinct)
  | collect push =>
      have hnew := newCollector_notMem w
      rw [List.mem_append, not_or] at hnew
      have hidle : w.bus.isCalling w.newCollector = false :=
        Bus.isCalling_eq_false_iff.2 fun c hc heq => hnew.2 (List.mem_map.2 ⟨c, hc, heq⟩)
      have hother : w.newCollector ≠ e.handling.collector := fun heq =>
        hnew.1 (List.mem_map.2 ⟨e.handling, h.handled, heq.symm⟩)
      have hcollecting := (Bus.call_frame w.bus ⟨w.newCollector, push⟩).2.2.2.2.2.2
      refine leads_other (.call ⟨w.newCollector, push⟩ (h.bus_eq ▸ h.collecting)
        (h.bus_eq ▸ hidle)) ?_ ?_ (hcollecting.trans h.collecting) h.handled h.distinct
      · change callsOf _ (e.session.calls ++ [⟨w.newCollector, push⟩]) = _
        simp [callsOf, hother]
      · change (e.session.bus.call ⟨w.newCollector, push⟩).1 = (w.bus.call _).1
        rw [h.bus_eq]
  | accept resolve other r hother =>
      refine h.still rfl (List.mem_append_left _ h.handled) ?_
      change ((w.handlings ++ [Handling.begin resolve other r]).map (·.collector)).Nodup
      rw [List.map_append, List.nodup_append]
      refine ⟨h.distinct, List.nodup_singleton _, fun number hnumber last hlast heq => ?_⟩
      obtain ⟨handling, hhandling, rfl⟩ := List.mem_map.1 hnumber
      exact hother handling hhandling (heq.trans (List.mem_singleton.1 hlast))
  | @dismiss other hother =>
      refine h.still rfl (List.mem_filter.2 ⟨h.handled, by simp [hother.symm]⟩) ?_
      exact h.distinct.sublist (List.filter_sublist.map _)
  | cancel =>
      refine leads_other .stop rfl ?_ h.collecting h.handled h.distinct
      rw [h.bus_eq]
      rfl

/-- **The program carries on the exchange of a request** in every run. -/
theorem carries_run (h : w.Carries e)
    (hrun : Relation.ReflTransGen (Turn e.handling.collector) w w') : w'.CarriesOn e := by
  induction hrun with
  | refl => exact ⟨e, .refl, rfl, h⟩
  | tail _ hturn ih =>
      obtain ⟨e', hleads, hcollector, hcarries⟩ := ih
      obtain ⟨e'', hmore, hsame, hcarries'⟩ := carries_turn hcarries (hcollector ▸ hturn)
      exact ⟨e'', hleads.trans hmore, hsame.trans hcollector, hcarries'⟩

/-- The response to a request is given when its exchange is through, and not before. -/
theorem Carries.response?_eq (h : w.Carries e) :
    w.response? e.handling.collector =
      if e.handling.answered then some e.handling.response else none := by
  have hown : ∀ found ∈ w.handlings, found.collector = e.handling.collector →
      found = e.handling := fun found hfound heq =>
    List.inj_on_of_nodup_map h.distinct hfound h.handled heq
  rw [response?]
  cases hfind : w.handlings.find? fun h => h.collector = e.handling.collector && h.answered with
  | none =>
      have hasked := List.find?_eq_none.1 hfind _ h.handled
      simp only [decide_true, Bool.true_and] at hasked
      simp [hasked]
  | some found =>
      have hfound := List.find?_some hfind
      rw [Bool.and_eq_true, decide_eq_true_eq] at hfound
      obtain rfl := hown found (List.mem_of_find?_eq_some hfind) hfound.1
      simp [hfound.2]

/-- To wait for a response is to let the program move, and time pass when it does not. -/
theorem turns_await (collector limit : Nat) (w : World) :
    Relation.ReflTransGen (Turn collector) w (w.await collector limit) := by
  induction limit generalizing w with
  | zero => exact .refl
  | succ limit ih =>
      rw [await]
      split
      · exact .refl
      split
      next moved hmove => exact .head (.move hmove) (ih moved)
      next =>
        split
        next m _ =>
          have hturn : Turn collector w { w with site := w.site.arriveAt m } := .elsewhere rfl rfl
          exact .head hturn (ih _)
        next => exact .refl

/-- The program uses the bus of a session, and handles requests in the names of different
collectors. -/
structure Hosts (w : World) (capacity : Nat) (handlers : List Unit) (s : Session Unit) : Prop where
  reached : Session.Leads .first (Session.new capacity handlers) s
  bus_eq : s.bus = w.bus
  collecting : w.bus.collecting = true
  distinct : (w.handlings.map (·.collector)).Nodup

variable {capacity : Nat} {handlers : List Unit} {s : Session Unit} {resolve : Admission.Resolver}
  {r : Http.Request}

/-- The program at its start uses a bus whose dispatch has just begun, and handles no request. -/
theorem hosts_start (server : Server) (source : TagSource) (kinds : Controllers.Registry Kind)
    (capacity : Nat) (handlers : List Unit) :
    (World.start server source kinds { capacity, handlers }).Hosts capacity handlers
      { bus := Bus.start { capacity, handlers } } :=
  ⟨.single .start, rfl, rfl, List.nodup_nil⟩

/-- **A request that comes to the program begins an exchange**, and the program carries it on. -/
theorem Hosts.accept (h : w.Hosts capacity handlers s)
    (hfree : collector ∉ w.handlings.map (·.collector))
    (hrun : Relation.ReflTransGen (Turn collector) (w.accept resolve collector r) w') :
    ∃ begun e : Exchange Unit, begun.Begins .first capacity handlers resolve r ∧
      begun.session = s ∧ begun.handling.collector = collector ∧
      Exchange.Leads .first begun e ∧ e.handling.collector = collector ∧ w'.Carries e := by
  let begun : Exchange Unit := { handling := Handling.begin resolve collector r, session := s }
  have hcarries : (w.accept resolve collector r).Carries begun := by
    refine ⟨h.bus_eq, List.mem_append_right _ List.mem_cons_self, h.collecting, ?_⟩
    change ((w.handlings ++ [begun.handling]).map (·.collector)).Nodup
    rw [List.map_append]
    exact h.distinct.append (List.nodup_singleton _) (List.disjoint_singleton.2 hfree)
  obtain ⟨e, hleads, hcollector, hlater⟩ := carries_run hcarries hrun
  exact ⟨begun, e, ⟨h.reached, h.bus_eq ▸ h.collecting, rfl⟩, rfl, rfl, hleads,
    hcollector, hlater⟩

/-- **Who waits for the response to a request** has it when the exchange is through. -/
theorem Hosts.serve (h : w.Hosts capacity handlers s) (resolve : Admission.Resolver)
    (r : Http.Request) :
    ∃ begun e : Exchange Unit, begun.Begins .first capacity handlers resolve r ∧
      begun.session = s ∧ Exchange.Leads .first begun e ∧
      (w.serve resolve r).1.bus = e.session.bus ∧
      (w.serve resolve r).2 = if e.handling.answered then e.handling.response else .missing := by
  have hfree : w.newCollector ∉ w.handlings.map (·.collector) := fun hmem =>
    newCollector_notMem w (List.mem_append_left _ hmem)
  obtain ⟨begun, e, hbegins, hsession, -, hleads, hcollector, hcarries⟩ :=
    h.accept hfree (turns_await w.newCollector moveLimit (w.accept resolve w.newCollector r))
  refine ⟨begun, e, hbegins, hsession, hleads, hcarries.bus_eq.symm, ?_⟩
  have hresponse := hcarries.response?_eq
  rw [hcollector] at hresponse
  rw [World.serve, hresponse]
  cases e.handling.answered <;> rfl

end ImageRollout.Cluster.World
