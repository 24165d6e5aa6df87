import ImageRollout.Proofs.Rerun.Desk

/-!
# The threads of a desk

The reruns of one name follow each other, and each follows a script until it ends or panics.

* `Thread.sound_step`: what holds of a thread after every step.
* `Desk.steady_step`: what this means for a desk.
-/

namespace ImageRollout.Rerun

open Cluster Kubernetes Watch

namespace Thread

/-- What the rerun under way has left so far, given the push that began it. -/
def current (n : String) (push : Image.Push) (v : Thread) : List Mark :=
  match v.task with
  | none => []
  | some t =>
    .began push t.job ::
      (t.stage.past n t.job ++ if v.wait.isSome then t.stage.call n t.job else [])

/-- A rerun waits for what its stage asks for, and every rerun before it has ended. -/
structure Sound (n name : String) (v : Thread) : Prop where
  idle : v.task = none → v.wait = none
  named : ∀ t, v.task = some t → t.job.name = name
  valid : ∀ t, v.task = some t → t.stage.Valid
  awaits : ∀ t wait, v.task = some t → v.wait = some wait → t.stage.Awaits wait
  alive : v.alive = v.task.isSome
  told : ∃ (chapters : List Chapter) (push : Image.Push),
    (∀ c ∈ chapters, c.job.name = name ∧ c.Lawful n) ∧
      v.text = chapters.flatMap Chapter.text ++ v.current n push

variable {n name : String} {v v' : Thread}

/-- Of a name that was not heard of there is nothing to tell. -/
theorem sound_empty (n name : String) : Sound n name {} where
  idle := fun _ => rfl
  named := by simp
  valid := by simp
  awaits := by simp
  alive := rfl
  told := ⟨[], ⟨"", ""⟩, by simp, rfl⟩

/-- A rerun under way has played the beginning of a script. -/
theorem begun_current (h : v.Sound n name) {t : Task} (htask : v.task = some t) :
    ∃ calls, (∀ push, v.current n push = .began push t.job :: calls) ∧
      Begun n t.job calls := by
  simp only [current, htask]
  refine ⟨_, fun _ => rfl, ?_⟩
  cases v.wait.isSome with
  | true => exact Stage.begun_call (h.valid t htask)
  | false => simpa using Stage.begun_past (h.valid t htask)

/-- What was waited for is answered at the stage. -/
theorem answered_eq {t : Task} {wait : Wait} {accepted : Bool} (hname : t.job.name = name)
    (hawaits : t.stage.Awaits wait) (hmeant : ∀ due reply, wait = .reply due reply →
      accepted = decide (reply = .accepted)) :
    Desk.answered name (some wait) = t.stage.answer t.job accepted := by
  cases wait with
  | ready => exact hawaits.elim
  | reply due reply =>
      have hasks : t.stage.asks = true := hawaits
      rw [Stage.answer, if_pos hasks, hmeant due reply rfl, hname]
      rfl
  | pause wake =>
      have hasks : t.stage.asks = false := hawaits
      rw [Stage.answer, hasks, if_neg Bool.false_ne_true]
      rfl

/-- With its last marks the rerun under way becomes a chapter. -/
theorem sound_end (h : v.Sound n name) {t : Task} (htask : v.task = some t)
    {marks calls : List Mark} (panicked : Bool)
    (hcalls : ∀ push, v.current n push ++ marks = .began push t.job :: calls)
    (hlawful : ∀ push, Chapter.Lawful n { push, job := t.job, calls, panicked }) :
    Sound n name { text := v.text ++ marks ++ [.ended name panicked] } := by
  obtain ⟨chapters, push, hchapters, htext⟩ := h.told
  have hname := h.named t htask
  refine ⟨fun _ => rfl, by simp, by simp, by simp, rfl,
    chapters ++ [{ push, job := t.job, calls, panicked }], push, ?_, ?_⟩
  · intro c hc
    rcases List.mem_append.1 hc with hold | hlast
    · exact hchapters c hold
    · rw [List.mem_singleton.1 hlast]
      exact ⟨hname, hlawful push⟩
  · rw [htext, List.append_assoc, List.append_assoc,
      ← List.append_assoc (v.current n push), hcalls, List.flatMap_append]
    simp [Chapter.text, hname, current]

/-- **Whatever happens to a name, its thread stays sound.** -/
theorem sound_step (h : v.Sound n name) (hstep : Step n name v v') : v'.Sound n name := by
  obtain ⟨chapters, push, hchapters, htext⟩ := h.told
  cases hstep with
  | stay => exact h
  | @begin begun j hname hfree =>
      have hwait := h.idle hfree
      refine ⟨by simp, by simpa using hname, by simp [Stage.Valid], by simp [hwait], rfl,
        chapters, begun, hchapters, ?_⟩
      rw [htext]
      simp [current, hfree, hwait, Stage.past]
  | @ask t due reply htask hwait hasks =>
      refine ⟨by simp [htask], h.named, h.valid, ?_, h.alive, chapters, push, hchapters, ?_⟩
      · intro u wait hu hnew
        cases hnew
        cases htask.symm.trans hu
        exact hasks
      · rw [htext]
        simp [current, htask, hwait]
  | @rest t wake htask hwait hasks =>
      refine ⟨by simp [htask], h.named, h.valid, ?_, h.alive, chapters, push, hchapters, ?_⟩
      · intro u wait hu hnew
        cases hnew
        cases htask.symm.trans hu
        exact hasks
      · have hnothing : t.stage.call n t.job = [] := by
          cases hstage : t.stage <;> simp_all [Stage.asks, Stage.call]
        rw [htext]
        simp [current, htask, hwait, hnothing]
  | @goOn t wait accepted stage htask hwait hmeant hnext =>
      -- The answer is the one of the stage, so the script has come as far as the next stage.
      have hname := h.named t htask
      have hanswer := answered_eq hname (h.awaits t wait htask hwait) hmeant
      obtain ⟨hvalid, hpast⟩ := Stage.past_of_goesOn n t.job (h.valid t htask) hnext
      refine ⟨by simp, by simpa using hname, by simpa using hvalid, by simp, ?_, chapters,
        push, hchapters, ?_⟩
      · rw [h.alive, htask]
        rfl
      · rw [htext, hanswer]
        simp [current, htask, hwait, hpast]
  | @finish t wait accepted htask hwait hmeant hnext =>
      have hname := h.named t htask
      have hanswer := answered_eq hname (h.awaits t wait htask hwait) hmeant
      have hscript := Stage.script_of_end n t.job (h.valid t htask) hnext
      refine sound_end h htask false (fun push => ?_) fun _ => hscript
      rw [hanswer]
      simp [current, htask, hwait]
  | crash hlive =>
      obtain ⟨t, htask⟩ := Option.isSome_iff_exists.1 hlive
      obtain ⟨calls, hcurrent, hbegun⟩ := begun_current h htask
      have hcalls (push : Image.Push) : v.current n push ++ [] = .began push t.job :: calls := by
        rw [List.append_nil, hcurrent]
      have hend := sound_end h htask true hcalls fun _ => hbegun
      rwa [List.append_nil] at hend

end Thread

namespace Desk

variable {n : String} {d d' : Desk}

/-- All threads of the desk are sound. -/
structure Steady (n : String) (d : Desk) : Prop where
  kept : d.reruns.Kept
  threads : ∀ name, (d.thread name).Sound n name

theorem steady_start (n : String) : Steady n {} where
  kept := ⟨List.nodup_nil, by simp, by simp [Claims.Own], fun _ => rfl⟩
  threads := fun name => Thread.sound_empty n name

/-- **No step unsettles a thread.** -/
theorem steady_step (h : d.Steady n) (hstep : Step n d d') : d'.Steady n where
  kept := kept_step h.kept hstep
  threads := fun name => Thread.sound_step (h.threads name) (thread_step h.kept hstep name)

end Desk

end ImageRollout.Rerun
