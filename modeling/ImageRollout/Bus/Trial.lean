import ImageRollout.Bus

/-!
# Buses on trial

A bus whose handlers follow a script, with a clock.  It shows how a bus gets on with handlers that
take their time, wait for somebody else or fail.

A trial is made of moves: those of the calls to collect, those of the handler at work, and those of
the dispatch.  Between two interventions there are only so many of them, because every call returns
once, and every push in hand takes at most two moves of every handler, and one each to take it up
and to be through with it.
-/

namespace ImageRollout.Bus

/-- What a scripted handler does with a push. -/
inductive Script where
  /-- It is done at once. -/
  | prompt
  /-- It is done once it has a permit, which it uses up. -/
  | gated
  /-- It takes so many milliseconds. -/
  | lasting (duration : Nat)
  | failing (cause : Image.Push → String)

/-- A handler that follows a script. -/
structure ScriptedHandler where
  name : String
  script : Script

/-- A bus on trial. -/
structure Trial where
  bus : Bus ScriptedHandler
  /-- The permits that are left. -/
  permits : Nat := 0
  now : Nat := 0
  /-- When the handler at work is done, if it takes its time. -/
  due : Option Nat := none
  /-- What the handlers were done with, in order. -/
  record : List (String × Image.Push) := []
  notices : List Notice := []

namespace Trial

/-- The trial after a move of its bus, with what the move reports. -/
def after (t : Trial) (m : Bus ScriptedHandler × List Notice) : Trial :=
  { t with bus := m.1, notices := t.notices ++ m.2 }

/-- The handler at work is done with the push. -/
def finishHandler (h : ScriptedHandler) (push : Image.Push) (t : Trial) : Trial :=
  { t with record := t.record ++ [(h.name, push)] }.after (t.bus.handled .done)

/-- One move of the handler at work; nothing if it waits for somebody else or beyond the
deadline. -/
def work? (deadline : Nat) (h : ScriptedHandler) (push : Image.Push) (t : Trial) : Option Trial :=
  match h.script with
  | .prompt => some (t.finishHandler h push)
  | .gated =>
    if t.permits = 0 then none
    else some ({ t with permits := t.permits - 1 }.finishHandler h push)
  | .lasting duration =>
    match t.due with
    | none => some { t with due := some (t.now + duration) }
    | some due =>
      if due < deadline then some ({ t with now := due, due := none }.finishHandler h push)
      else none
  | .failing cause => some (t.after (t.bus.handled (.failed (cause push))))

/-- One move: of a call that can return, or else of the handler at work if there is one, or else of
the dispatch. -/
def move? (deadline : Nat) (t : Trial) : Option Trial :=
  match t.bus.return? with
  | some m => some (t.after m)
  | none =>
    match t.bus.phase with
    | .busy push (h :: _) => t.work? deadline h push
    | _ => t.bus.advance?.map fun bus => { t with bus }

/-- Moves until nothing can move before the deadline, at most `limit` times. -/
def settle (deadline : Nat) : Nat → Trial → Trial
  | 0, t => t
  | limit + 1, t =>
    match t.move? deadline with
    | some t => settle deadline limit t
    | none => t

/-- How many moves the trial can make at most before somebody intervenes. -/
def moveLimit (t : Trial) : Nat :=
  (t.bus.queue.length + t.bus.underWay.length + 1) * (2 * t.bus.handlers.length + 3) + 1

/-- Lets so many milliseconds pass. -/
def pass (millis : Nat) (t : Trial) : Trial :=
  let deadline := t.now + millis
  { settle deadline t.moveLimit t with now := deadline }

end Trial

end ImageRollout.Bus
