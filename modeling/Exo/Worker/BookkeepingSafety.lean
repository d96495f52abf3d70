import Exo.Worker.Bookkeeping

/-!
# When the books of a supervisor are right

Of a step only a few things matter: what it does to the tasks in progress, that whoever ends
`_forward_events` sets the pending events, and what a check of the runner sends. `Effect` says these
once. A supervisor that still forwards cannot be kept from releasing whoever waits for a dead runner,
one that does not forward any more releases nobody, and so the exact guard of a run can be read off.
-/

namespace Exo

open Lib (Dict Machine)

namespace Books

variable {s s' : Supervisor} {a : Supervisor.Action} {events : List EventBody} {b b' : Books}

/-! ## What a step does -/

/-- A stopped supervisor does not forward, and a runner that left `main` closed its channel. -/
structure Sane (s : Supervisor) : Prop where
  stopped : s.stopped = true → s.forwarding = false
  closed : s.forwarding = true → s.runner.phase = .exited 0 → s.closed = true

def Released (s : Supervisor) : Prop := ∀ t set, s.pending.get? t = some set → set = true

/-- What `_check_runner` sends: nothing, or an answer for every generation task and the failure. -/
structure Checked (s s' : Supervisor) (events : List EventBody) : Prop where
  begun : s.stopped = false
  sent : (events.any isFailure = false ∧ events.filterMap errorCommand? = [])
    ∨ events.any isFailure = true ∧ events.filterMap errorCommand? = s.generating
      ∧ s'.stopped = true

structure Effect (s : Supervisor) (a : Supervisor.Action) (s' : Supervisor)
    (events : List EventBody) : Prop where
  books : (s'.inProgress = s.inProgress ∧ s'.completed = s.completed)
    ∨ ∃ t, s.forwarding = true ∧ a = .forward
      ∧ s'.inProgress = s.inProgress.erase t ∧ s'.completed = t :: s.completed
  pending : s'.forwarding = false → (s.forwarding = true ∧ Released s')
    ∨ s.forwarding = false ∧ s'.pending = s.pending
  sane : Sane s'
  stopped : s.stopped = true → s'.stopped = true
  forwarding : s'.forwarding = true → s.forwarding = true
  checked : checks a = true → Checked s s' events

theorem released_releasePending (s : Supervisor) : Released s.releasePending := by
  intro t set h
  have hget : (s.pending.mapValues fun _ _ => true).get? t = some set := h
  rw [Dict.get?_mapValues] at hget
  obtain ⟨-, -, rfl⟩ := Option.map_eq_some_iff.mp hget
  rfl

theorem released_endForwarding (s : Supervisor) : Released s.endForwarding :=
  released_releasePending s

theorem stop_pending (s : Supervisor) : (s.forwarding = true ∧ Released s.stop)
    ∨ s.forwarding = false ∧ s.stop.pending = s.pending := by
  cases hf : s.forwarding with
  | true =>
      refine .inl ⟨rfl, fun t set h => released_releasePending s t set ?_⟩
      have hpending : s.stop.pending = s.releasePending.pending := if_pos hf
      rw [← hpending]
      exact h
  | false => exact .inr ⟨rfl, if_neg (by rw [hf]; exact Bool.false_ne_true)⟩

theorem sane_stop (s : Supervisor) : Sane s.stop := ⟨fun _ => rfl, nofun⟩

variable {s₀ : Supervisor}

/-- A step of the process changes nothing in the books. -/
theorem effect_of_sent (p : Runner × List RunnerMessage) (ha : checks a = false)
    (hs : Sane s) (hpending : s₀.pending = s.pending) (hprogress : s₀.inProgress = s.inProgress)
    (hcompleted : s₀.completed = s.completed) (hstopped : s₀.stopped = s.stopped)
    (hforwarding : s₀.forwarding = s.forwarding) : Effect s a (s₀.sent p) [] where
  books := .inl ⟨hprogress, hcompleted⟩
  pending := fun hf => .inr ⟨hforwarding ▸ hf, hpending⟩
  sane := by
    refine ⟨fun h => ?_, fun _ hphase => ?_⟩
    · show s₀.forwarding = false
      rw [hforwarding]
      exact hs.stopped (hstopped ▸ h)
    · have hexited : Supervisor.exited { s₀ with runner := p.1, messages := s₀.messages ++ p.2 }
          = true := by
        have hp : p.1.phase = .exited 0 := hphase
        rw [Supervisor.exited, hp]
      show (s₀.closed || _) = true
      rw [hexited, Bool.or_true]
  stopped := fun h => hstopped.trans h
  forwarding := fun h => hforwarding ▸ h
  checked := fun h => by rw [ha] at h; cases h

/-! ## Checks -/

theorem errorCommands_generating (tasks : List Task) :
    (tasks.filterMap fun task => task.kind.commandId?.map EventBody.chunkGenerated).filterMap
      errorCommand? = tasks.filterMap fun task => task.kind.commandId? := by
  rw [List.filterMap_filterMap]
  refine List.filterMap_congr fun task _ => ?_
  cases task.kind.commandId? <;> rfl

theorem checkRunner_cases (s : Supervisor) (exitcode : Int) (cause : String) :
    (exitcode = 0 ∧ s.checkRunner exitcode cause
        = ({ s with runner := { s.runner with phase := .exited exitcode } }, []))
      ∨ ∃ status, exitcode ≠ 0 ∧ s.checkRunner exitcode cause
          = ({ s with runner := { s.runner with phase := .exited exitcode }, status }.stop,
            (s.inProgress.values.filterMap fun task => task.kind.commandId?.map .chunkGenerated)
              ++ [.runnerStatusUpdated s.boundInstance.boundRunnerId status])
        ∧ isFailure (.runnerStatusUpdated s.boundInstance.boundRunnerId status) = true := by
  unfold Supervisor.checkRunner
  by_cases h : exitcode = 0
  · exact .inl ⟨h, if_pos h⟩
  · exact .inr ⟨_, h, if_neg h, rfl⟩

/-- What a check sends, for a supervisor that was not stopped. -/
theorem checked_checkRunner (hbegun : s.stopped = false) (exitcode : Int) (cause : String) :
    Checked s (s.checkRunner exitcode cause).1 (s.checkRunner exitcode cause).2 := by
  refine ⟨hbegun, ?_⟩
  rcases checkRunner_cases s exitcode cause with ⟨-, h⟩ | ⟨status, -, h, hfailure⟩
  · rw [h]
    exact .inl ⟨rfl, rfl⟩
  · rw [h]
    refine .inr ⟨?_, ?_, rfl⟩
    · rw [List.any_append, List.any_cons, hfailure]
      simp
    · rw [List.filterMap_append, errorCommands_generating]
      exact List.append_nil _

/-- A check by `_forward_events`, which ends then. -/
theorem effect_of_forwarder (exitcode : Int) (cause : String)
    (hf : s.forwarding = true) (hs : Sane s) (hprogress : s₀.inProgress = s.inProgress)
    (hcompleted : s₀.completed = s.completed) (hstopped : s₀.stopped = s.stopped) :
    Effect s a (s₀.checkRunner exitcode cause).1.endForwarding
      (s₀.checkRunner exitcode cause).2 := by
  have hbegun : s.stopped = false := by
    cases h : s.stopped with
    | false => rfl
    | true =>
        rw [hs.stopped h] at hf
        cases hf
  have hchecked := checked_checkRunner (hstopped.trans hbegun) exitcode cause
  have hsame : (s₀.checkRunner exitcode cause).1.inProgress = s.inProgress
      ∧ (s₀.checkRunner exitcode cause).1.completed = s.completed := by
    rcases checkRunner_cases s₀ exitcode cause with ⟨-, h⟩ | ⟨status, -, h, -⟩ <;> rw [h]
    · exact ⟨hprogress, hcompleted⟩
    · exact ⟨hprogress, hcompleted⟩
  refine ⟨.inl hsame, fun _ => .inl ⟨hf, released_endForwarding _⟩, ⟨fun _ => rfl, nofun⟩,
    fun h => ?_, nofun, fun _ => ⟨hbegun, ?_⟩⟩
  · rw [hbegun] at h
    cases h
  · rcases hchecked.sent with hsent | ⟨hfailure, herrors, hstop⟩
    · exact .inl hsent
    · refine .inr ⟨hfailure, ?_, hstop⟩
      rw [herrors, Supervisor.generating, Supervisor.generating, hprogress]

/-- A check by `_watch_runner`. -/
theorem effect_of_watch {exitcode : Int} (cause : String) (hs : Sane s)
    (hphase : s.runner.phase = .exited exitcode) (hbegun : s.stopped = false) :
    Effect s a (s.checkRunner exitcode cause).1 (s.checkRunner exitcode cause).2 := by
  have hchecked := checked_checkRunner hbegun exitcode cause
  rcases checkRunner_cases s exitcode cause with ⟨-, h⟩ | ⟨status, -, h, -⟩
  · rw [h] at hchecked ⊢
    refine ⟨.inl ⟨rfl, rfl⟩, fun hf => .inr ⟨hf, rfl⟩, ⟨hs.stopped, fun hf hzero => ?_⟩, id, id,
      fun _ => hchecked⟩
    exact hs.closed hf (hphase.trans hzero)
  · rw [h] at hchecked ⊢
    exact ⟨.inl ⟨rfl, rfl⟩, fun _ => stop_pending _, sane_stop _, fun _ => rfl, nofun,
      fun _ => hchecked⟩

/-! ## Every step -/

/-- The forwarder goes on behind the event. -/
theorem effect_of_books (hf : s.forwarding = true) (hs : Sane s) (ha : a = .forward)
    (hstopped : s'.stopped = s.stopped) (hforwarding : s'.forwarding = s.forwarding)
    (hclosed : s'.closed = s.closed) (hrunner : s'.runner = s.runner)
    (hbooks : (s'.inProgress = s.inProgress ∧ s'.completed = s.completed)
      ∨ ∃ t, s'.inProgress = s.inProgress.erase t ∧ s'.completed = t :: s.completed) :
    Effect s a s' events where
  books := hbooks.imp_right fun ⟨t, hprogress, hcompleted⟩ => ⟨t, hf, ha, hprogress, hcompleted⟩
  pending := fun hnone => by
    rw [hforwarding, hf] at hnone
    cases hnone
  sane := by
    refine ⟨fun h => ?_, fun _ hphase => ?_⟩
    · rw [hforwarding]
      exact hs.stopped (hstopped ▸ h)
    · rw [hclosed]
      exact hs.closed hf (hrunner ▸ hphase)
  stopped := fun h => hstopped.trans h
  forwarding := fun _ => hf
  checked := fun h => by
    rw [ha] at h
    cases h

theorem effect_of_forward {body : EventBody} {messages : List RunnerMessage}
    (hf : s.forwarding = true) (hs : Sane s) (ha : a = .forward)
    (h : Supervisor.forwardEvent { s with messages } body = some (s', events)) :
    Effect s a s' events := by
  unfold Supervisor.forwardEvent at h
  split at h
  · obtain ⟨rfl, rfl⟩ := Prod.mk.inj (Option.some.inj h)
    refine effect_of_books hf hs ha ?_ ?_ ?_ ?_ (.inl ⟨?_, ?_⟩) <;> rfl
  · split at h
    · obtain ⟨rfl, rfl⟩ := Prod.mk.inj (Option.some.inj h)
      refine effect_of_books hf hs ha ?_ ?_ ?_ ?_ (.inl ⟨?_, ?_⟩) <;> rfl
    · cases h
  · split at h
    · obtain ⟨rfl, rfl⟩ := Prod.mk.inj (Option.some.inj h)
      exact effect_of_books hf hs ha rfl rfl rfl rfl (.inr ⟨_, rfl, rfl⟩)
    · cases h
  · obtain ⟨rfl, rfl⟩ := Prod.mk.inj (Option.some.inj h)
    refine effect_of_books hf hs ha ?_ ?_ ?_ ?_ (.inl ⟨?_, ?_⟩) <;> rfl

theorem forwardEvent_kept {body : EventBody} (h : s.forwardEvent body = some (s', events)) :
    s'.runner = s.runner ∧ s'.messages = s.messages := by
  unfold Supervisor.forwardEvent at h
  split at h
  · rw [← (Prod.mk.inj (Option.some.inj h)).1]
    exact ⟨rfl, rfl⟩
  · split at h
    · rw [← (Prod.mk.inj (Option.some.inj h)).1]
      exact ⟨rfl, rfl⟩
    · cases h
  · split at h
    · rw [← (Prod.mk.inj (Option.some.inj h)).1]
      exact ⟨rfl, rfl⟩
    · cases h
  · rw [← (Prod.mk.inj (Option.some.inj h)).1]
    exact ⟨rfl, rfl⟩

/-- **What a step does.** -/
theorem effect_of_step (hs : Sane s) (hmay : ∀ exitcode, a = .die exitcode → exitcode ≠ 0)
    (h : s.step a = some (some (s', events))) : Effect s a s' events := by
  cases a with
  | boot | pollEmpty =>
      simp only [Supervisor.step, Option.ite_none_right_eq_some] at h
      obtain ⟨rfl, rfl⟩ := Prod.mk.inj (Option.some.inj (Option.some.inj h.2))
      exact effect_of_sent _ rfl hs rfl rfl rfl rfl rfl
  | take =>
      simp only [Supervisor.step] at h
      split at h
      · obtain ⟨p, -, he⟩ := Option.map_eq_some_iff.mp h
        obtain ⟨rfl, rfl⟩ := Prod.mk.inj (Option.some.inj he)
        exact effect_of_sent _ rfl hs rfl rfl rfl rfl rfl
      · cases h
  | takeClosed =>
      simp only [Supervisor.step, Option.ite_none_right_eq_some] at h
      obtain ⟨r, -, he⟩ := Option.map_eq_some_iff.mp h.2
      obtain ⟨rfl, rfl⟩ := Prod.mk.inj (Option.some.inj he)
      exact effect_of_sent _ rfl hs rfl rfl rfl rfl rfl
  | unblock port | loadProgress k n | engineStep reads results =>
      obtain ⟨p, -, he⟩ := Option.map_eq_some_iff.mp h
      obtain ⟨rfl, rfl⟩ := Prod.mk.inj (Option.some.inj he)
      exact effect_of_sent _ rfl hs rfl rfl rfl rfl rfl
  | die exitcode =>
      obtain ⟨rfl, rfl⟩ := Prod.mk.inj (Option.some.inj (Option.some.inj h))
      refine ⟨.inl ⟨rfl, rfl⟩, fun hf => .inr ⟨hf, rfl⟩, ⟨hs.stopped, fun _ hphase => ?_⟩, id, id,
        nofun⟩
      exact absurd (RunnerPhase.exited.inj hphase) (hmay exitcode rfl)
  | forward =>
      simp only [Supervisor.step, Option.ite_none_right_eq_some] at h
      obtain ⟨hf, h⟩ := h
      split at h
      · exact effect_of_forward hf hs rfl (Option.some.inj h)
      · cases h
  | forwardError exitcode cause =>
      simp only [Supervisor.step, Option.ite_none_right_eq_some] at h
      obtain ⟨hf, h⟩ := h
      split at h
      · obtain ⟨rfl, rfl⟩ := Prod.mk.inj (Option.some.inj (Option.some.inj h))
        exact effect_of_forwarder exitcode cause hf hs rfl rfl rfl
      · cases h
  | forwardClosed exitcode cause =>
      simp only [Supervisor.step, Option.ite_none_right_eq_some] at h
      obtain ⟨⟨hf, -⟩, h⟩ := h
      obtain ⟨rfl, rfl⟩ := Prod.mk.inj (Option.some.inj (Option.some.inj h))
      exact effect_of_forwarder exitcode cause hf hs rfl rfl rfl
  | forwardEnd =>
      simp only [Supervisor.step, Option.ite_none_right_eq_some] at h
      obtain ⟨⟨hf, -⟩, h⟩ := h
      obtain ⟨rfl, rfl⟩ := Prod.mk.inj (Option.some.inj (Option.some.inj h))
      exact ⟨.inl ⟨rfl, rfl⟩, fun _ => .inl ⟨hf, released_endForwarding _⟩, ⟨fun _ => rfl, nofun⟩,
        id, nofun, nofun⟩
  | watch cause =>
      simp only [Supervisor.step] at h
      split at h
      · rename_i hphase
        rw [Option.ite_none_left_eq_some] at h
        obtain ⟨hbegun, h⟩ := h
        have heffect := effect_of_watch (a := .watch cause) cause hs hphase
          (Bool.eq_false_iff.mpr hbegun)
        rw [Option.some.inj (Option.some.inj h)] at heffect
        exact heffect
      · cases h

/-! ## Waiting for a dead runner -/

variable {boundInstance : BoundInstance}

theorem mayTake_die {exitcode : Int} (h : b.mayTake (.die exitcode) = true) :
    b.supervisor.exited = false ∧ exitcode ≠ 0 := by
  rw [mayTake, Bool.and_eq_true, Bool.not_eq_true'] at h
  exact ⟨h.1, of_decide_eq_true h.2⟩

/-- An exception, or a step of the supervisor with its effect. -/
theorem run_cases (hs : Sane b.supervisor) (h : step b (.run a) = some b') :
    b.mayTake a = true
      ∧ (b.supervisor.step a = some none ∧ b' = b.after a b.supervisor.endForwarding.stop []
        ∨ ∃ s' events, b.supervisor.step a = some (some (s', events))
          ∧ Effect b.supervisor a s' events ∧ b' = b.after a s' events) := by
  simp only [step, Option.ite_none_right_eq_some] at h
  obtain ⟨hmay, h⟩ := h
  refine ⟨hmay, ?_⟩
  split at h
  · cases h
  · rename_i hstep
    exact .inl ⟨hstep, (Option.some.inj h).symm⟩
  · rename_i s' events hstep
    refine .inr ⟨s', events, hstep, effect_of_step hs (fun exitcode ha => ?_) hstep,
      (Option.some.inj h).symm⟩
    rw [ha] at hmay
    exact (mayTake_die hmay).2

/-- Only forwarding raises. -/
theorem forwarding_of_raises (h : b.supervisor.step a = some none) :
    a = .forward ∧ b.supervisor.forwarding = true := by
  cases a with
  | forward =>
      simp only [Supervisor.step, Option.ite_none_right_eq_some] at h
      exact ⟨rfl, h.1⟩
  | boot | takeClosed | pollEmpty | unblock | loadProgress | engineStep | die | forwardClosed
  | forwardEnd =>
      simp [Supervisor.step] at h
  | forwardError exitcode cause =>
      simp only [Supervisor.step, Option.ite_none_right_eq_some] at h
      obtain ⟨-, h⟩ := h
      split at h <;> simp at h
  | take | watch =>
      simp only [Supervisor.step] at h
      split at h <;> simp at h

/-- A supervisor that does not forward sets no event. -/
theorem not_inevitable_of_not_forwarding (hs : Sane b.supervisor)
    (hf : b.supervisor.forwarding = false) (hset : ¬ AllSet b) :
    ¬ (machine boundInstance).Inevitable own AllSet b := by
  refine Machine.not_inevitable
    (P := fun b => Sane b.supervisor ∧ b.supervisor.forwarding = false ∧ ¬ AllSet b)
    (fun _ h => h.2.2) (fun b a b' ⟨hs, hf, hset⟩ hown hstep => ?_) ⟨hs, hf, hset⟩
  cases a with
  | startTask task => cases hown
  | cancelTask t => cases hown
  | shutdown => cases hown
  | run a =>
      obtain ⟨-, ⟨hraises, -⟩ | ⟨s', events, -, heffect, rfl⟩⟩ := run_cases hs hstep
      · rw [(forwarding_of_raises hraises).2] at hf
        cases hf
      · have hf' : s'.forwarding = false := by
          cases h : s'.forwarding with
          | false => rfl
          | true => rw [heffect.forwarding h] at hf; cases hf
        refine ⟨heffect.sane, hf', fun hall => hset ?_⟩
        rcases heffect.pending hf' with ⟨hno, -⟩ | ⟨-, hsame⟩
        · rw [hf] at hno
          cases hno
        · intro t set hget
          exact hall t set (by rw [← hsame] at hget; exact hget)

/-- One step of the supervisor of a dead runner: the pending events are set, or a message less is on its
way. -/
theorem own_step (hs : Sane b.supervisor) (hf : b.supervisor.forwarding = true)
    (hexited : b.supervisor.exited = true) {act : Action} (hown : own b act)
    (hstep : step b act = some b') : AllSet b' ∨ (Sane b'.supervisor
      ∧ b'.supervisor.forwarding = true ∧ b'.supervisor.exited = true)
      ∧ b'.supervisor.messages.length < b.supervisor.messages.length := by
  cases act with
  | startTask task => cases hown
  | cancelTask t => cases hown
  | shutdown => cases hown
  | run a =>
      obtain ⟨-, ⟨hraises, rfl⟩ | ⟨s', events, hrun, heffect, rfl⟩⟩ := run_cases hs hstep
      · refine .inl fun t set hget => ?_
        rcases stop_pending b.supervisor.endForwarding with ⟨hno, -⟩ | ⟨-, hsame⟩
        · cases hno
        · exact released_endForwarding b.supervisor t set (by rw [← hsame]; exact hget)
      · have hreleases : s'.forwarding = false → AllSet (b.after a s' events) := fun hf' => by
          rcases heffect.pending hf' with ⟨-, hreleased⟩ | ⟨hno, -⟩
          · exact hreleased
          · rw [hf] at hno
            cases hno
        cases a with
        | forward =>
            cases hf' : s'.forwarding with
            | false => exact .inl (hreleases hf')
            | true =>
                simp only [Supervisor.step, if_pos hf] at hrun
                split at hrun
                · rename_i body messages hmessages
                  have hkept := forwardEvent_kept (Option.some.inj hrun)
                  refine .inr ⟨⟨heffect.sane, hf', ?_⟩, ?_⟩
                  · show s'.exited = true
                    rw [Supervisor.exited, hkept.1]
                    exact hexited
                  · show s'.messages.length < _
                    rw [hkept.2, hmessages]
                    exact Nat.lt_succ_self _
                · cases hrun
        | forwardError exitcode cause =>
            simp only [Supervisor.step, if_pos hf] at hrun
            split at hrun
            · exact .inl (hreleases (by
                rw [← (Prod.mk.inj (Option.some.inj (Option.some.inj hrun))).1]; rfl))
            · cases hrun
        | forwardClosed exitcode cause | forwardEnd =>
            simp only [Supervisor.step, Option.ite_none_right_eq_some] at hrun
            exact .inl (hreleases (by
              rw [← (Prod.mk.inj (Option.some.inj (Option.some.inj hrun.2))).1]; rfl))
        | watch cause =>
            simp only [Supervisor.step] at hrun
            split at hrun
            · rename_i exitcode hphase
              rw [Option.ite_none_left_eq_some] at hrun
              have heq := Option.some.inj (Option.some.inj hrun.2)
              have hne : exitcode ≠ 0 := fun hzero => hown (by rw [hphase, hzero])
              rcases checkRunner_cases b.supervisor exitcode cause with ⟨hzero, -⟩ |
                ⟨status, -, hcheck, -⟩
              · exact absurd hzero hne
              · refine .inl (hreleases ?_)
                rw [hcheck] at heq
                rw [← (Prod.mk.inj heq).1]
                rfl
            · cases hrun
        | boot | take | takeClosed | pollEmpty | unblock | loadProgress | engineStep | die => cases hown

/-- A supervisor that still forwards is not kept from releasing whoever waits for a dead runner. -/
theorem inevitable_of_forwarding (hs : Sane b.supervisor) (hf : b.supervisor.forwarding = true)
    (hexited : b.supervisor.exited = true) :
    (machine boundInstance).Inevitable own AllSet b := by
  refine Machine.inevitable_of_rank
    (P := fun b => Sane b.supervisor ∧ b.supervisor.forwarding = true
      ∧ b.supervisor.exited = true)
    (fun b => b.supervisor.messages.length) (fun b ⟨hs, hf, hexited⟩ => ?_)
    (fun b act b' ⟨hs, hf, hexited⟩ hown hstep => own_step hs hf hexited hown hstep)
    ⟨hs, hf, hexited⟩
  have hcan : ∀ a, own b (.run a) → b.mayTake a = true → (b.supervisor.step a).isSome →
      ∃ act b', own b act ∧ step b act = some b' := by
    intro a hown hmay hsome
    obtain ⟨out, hout⟩ := Option.isSome_iff_exists.mp hsome
    cases out with
    | none | some out => exact ⟨.run a, _, hown, by rw [step, if_pos hmay, hout]⟩
  cases hmessages : b.supervisor.messages with
  | cons message messages =>
      cases message with
      | event body =>
          exact hcan .forward trivial rfl (by rw [Supervisor.step, if_pos hf, hmessages]; rfl)
      | terminationError error =>
          exact hcan (.forwardError 1 "") trivial rfl
            (by rw [Supervisor.step, if_pos hf, hmessages]; rfl)
  | nil =>
      cases hclosed : b.supervisor.closed with
      | true =>
          refine hcan .forwardEnd trivial rfl ?_
          rw [Supervisor.step, if_pos ⟨hf, hclosed, hexited, hmessages⟩]
          rfl
      | false =>
          -- nobody closed the channel, so the runner did not leave `main`: the watch finds it dead
          obtain ⟨exitcode, hphase⟩ : ∃ exitcode, b.supervisor.runner.phase = .exited exitcode := by
            unfold Supervisor.exited at hexited
            split at hexited
            · rename_i exitcode hphase
              exact ⟨exitcode, hphase⟩
            · cases hexited
          have hbegun : ¬ b.supervisor.stopped = true := fun hstopped => by
            rw [hs.stopped hstopped] at hf
            cases hf
          refine hcan (.watch "") (fun hzero => ?_) rfl ?_
          · rw [hs.closed hf hzero] at hclosed
            cases hclosed
          · simp only [Supervisor.step, hphase, if_neg hbegun]
            rfl

theorem inevitable_iff (hs : Sane b.supervisor) (hdead : b.supervisor.exited = true
      ∨ b.supervisor.forwarding = false) :
    (machine boundInstance).Inevitable own AllSet b
      ↔ (b.supervisor.forwarding = false → AllSet b) := by
  cases hf : b.supervisor.forwarding with
  | true =>
      refine iff_of_true (inevitable_of_forwarding hs hf ?_) nofun
      rcases hdead with hexited | hno
      · exact hexited
      · rw [hf] at hno
        cases hno
  | false =>
      constructor
      · intro hin _
        by_contra hset
        exact not_inevitable_of_not_forwarding hs hf hset hin
      · exact fun h => .now (h rfl)

/-! ## Runs -/

/-- What every run keeps. -/
structure Inner (b : Books) : Prop where
  sane : Sane b.supervisor
  failed : b.failed = true → b.supervisor.stopped = true

theorem Inner.not_failed (h : Inner b) (hf : b.supervisor.forwarding = true) : b.failed = false := by
  cases hfailed : b.failed with
  | false => rfl
  | true =>
      rw [h.sane.stopped (h.failed hfailed)] at hf
      cases hf

theorem kept_iff (h : Inner b) : Kept (machine boundInstance) b
    ↔ (∀ t, (b.supervisor.inProgress.get? t).isSome
        ↔ t ∈ b.handed ∧ t ∉ b.supervisor.completed ∧ t ∉ b.dropped)
      ∧ (b.supervisor.forwarding = false → AllSet b)
      ∧ b.answered = if b.failed then b.supervisor.generating else [] := by
  constructor
  · intro hkept
    refine ⟨hkept.inProgress, fun hf => ?_, hkept.answered⟩
    exact (inevitable_iff h.sane (.inr hf)).mp (hkept.released (.inr hf)) hf
  · intro ⟨hprogress, hset, hanswered⟩
    exact ⟨hprogress, fun hdead => (inevitable_iff h.sane hdead).mpr hset, hanswered⟩

/-- A task is skipped, or its event is pending and it is handed over unless the channel is closed. -/
theorem startTask_cases (s : Supervisor) (task : Task) :
    (s.startTask task = (s, false)
        ∧ ((s.pending.get? task.taskId).isSome = true ∨ task.taskId ∈ s.completed))
      ∨ ((s.pending.get? task.taskId).isSome = false ∧ task.taskId ∉ s.completed)
        ∧ (s.closed = true ∧ s.startTask task = ({ s with
              pending := s.pending.set task.taskId false
              inProgress := s.inProgress.erase task.taskId }, false)
          ∨ s.closed = false ∧ s.startTask task = ({ s with
              pending := s.pending.set task.taskId false
              inProgress := s.inProgress.set task.taskId task
              tasks := s.tasks ++ [task] }, true)) := by
  unfold Supervisor.startTask
  cases hpending : (s.pending.get? task.taskId).isSome with
  | true => exact .inl ⟨rfl, .inl rfl⟩
  | false =>
      by_cases hcompleted : task.taskId ∈ s.completed
      · exact .inl ⟨by simp [hcompleted], .inr hcompleted⟩
      · refine .inr ⟨⟨rfl, hcompleted⟩, ?_⟩
        cases hclosed : s.closed with
        | true => exact .inl ⟨rfl, by simp [hcompleted]⟩
        | false => exact .inr ⟨rfl, by simp [hcompleted]⟩

theorem step_startTask (b : Books) (task : Task) : step b (.startTask task) = some { b with
    supervisor := (b.supervisor.startTask task).1
    handed := if (b.supervisor.startTask task).2 then task.taskId :: b.handed else b.handed } := rfl

theorem inner_step (h : Inner b) {act : Action} (hs : step b act = some b') : Inner b' := by
  cases act with
  | startTask task =>
      rw [step_startTask] at hs
      obtain rfl := Option.some.inj hs
      rcases startTask_cases b.supervisor task with ⟨heq, -⟩ | ⟨-, ⟨-, heq⟩ | ⟨-, heq⟩⟩ <;> rw [heq]
      · exact h
      · exact ⟨⟨h.sane.stopped, h.sane.closed⟩, h.failed⟩
      · exact ⟨⟨h.sane.stopped, h.sane.closed⟩, h.failed⟩
  | cancelTask t =>
      obtain rfl := Option.some.inj hs
      exact ⟨⟨h.sane.stopped, h.sane.closed⟩, h.failed⟩
  | shutdown =>
      obtain rfl := Option.some.inj hs
      exact ⟨sane_stop _, fun _ => rfl⟩
  | run a =>
      obtain ⟨-, ⟨hraises, rfl⟩ | ⟨s', events, -, heffect, rfl⟩⟩ := run_cases h.sane hs
      · exact ⟨sane_stop _, fun _ => rfl⟩
      · refine ⟨heffect.sane, fun hfailed => ?_⟩
        rcases Bool.or_eq_true_iff.mp hfailed with hfailed | hfailed
        · exact heffect.stopped (h.failed hfailed)
        · obtain ⟨hchecks, hfailed⟩ := Bool.and_eq_true_iff.mp hfailed
          rcases (heffect.checked hchecks).sent with ⟨hno, -⟩ | ⟨-, -, hstopped⟩
          · rw [hno] at hfailed
            cases hfailed
          · exact hstopped

/-- **The guard of `start_task`.** -/
theorem kept_startTask_iff (h : Inner b) (hkept : Kept (machine boundInstance) b) {task : Task}
    (hs : step b (.startTask task) = some b') :
    Kept (machine boundInstance) b' ↔ Orderly b (.startTask task) := by
  have hinner := inner_step h hs
  obtain ⟨hprogress, hset, hanswered⟩ := (kept_iff h).mp hkept
  rw [kept_iff hinner]
  rw [step_startTask] at hs
  obtain rfl := Option.some.inj hs
  rcases startTask_cases b.supervisor task with ⟨heq, hskip⟩ | ⟨⟨hnew, hopen⟩, hcases⟩
  · rw [heq]
    exact iff_of_true ⟨hprogress, hset, hanswered⟩ (hskip.imp_right .inl)
  · have horderly : Orderly b (.startTask task) ↔ b.supervisor.forwarding = true
        ∧ (b.supervisor.closed = true → b.supervisor.inProgress.get? task.taskId = none)
        ∧ (b.supervisor.closed = false → task.taskId ∉ b.dropped) := by
      simp [Orderly, hnew, hopen]
    rw [horderly]
    cases hf : b.supervisor.forwarding with
    | false =>
        refine iff_of_false (fun ⟨_, hall, _⟩ => ?_) fun h => by cases h.1
        rcases hcases with ⟨-, heq⟩ | ⟨-, heq⟩
        · rw [heq] at hall
          cases hall hf task.taskId false (Dict.get?_set_self _ _ _)
        · rw [heq] at hall
          cases hall hf task.taskId false (Dict.get?_set_self _ _ _)
    | true =>
        have hfailed := h.not_failed hf
        rcases hcases with ⟨hclosed, heq⟩ | ⟨hclosed, heq⟩
        · rw [heq, hclosed]
          constructor
          · intro ⟨hprogress', _, _⟩
            refine ⟨rfl, fun _ => ?_, nofun⟩
            have hout := hprogress' task.taskId
            simp only [Dict.get?_erase_self] at hout
            have hsame := hprogress task.taskId
            cases hget : b.supervisor.inProgress.get? task.taskId with
            | none => rfl
            | some old =>
                rw [hget] at hsame
                exact absurd (hout.mpr (hsame.mp rfl)) Bool.false_ne_true
          · intro ⟨_, hnone, _⟩
            refine ⟨fun t => ?_, fun hno => ?_, ?_⟩
            · show ((b.supervisor.inProgress.erase task.taskId).get? t).isSome = true
                ↔ t ∈ b.handed ∧ t ∉ b.supervisor.completed ∧ t ∉ b.dropped
              rw [← hprogress t, Dict.get?_erase]
              by_cases ht : t = task.taskId
              · rw [if_pos ht, ht, hnone rfl]
              · rw [if_neg ht]
            · rw [show b.supervisor.forwarding = false from hno] at hf
              cases hf
            · show b.answered = if b.failed then _ else []
              rw [hanswered, hfailed]
              rfl
        · rw [heq, hclosed]
          constructor
          · intro ⟨hprogress', _, _⟩
            refine ⟨rfl, nofun, fun _ => ?_⟩
            exact ((hprogress' task.taskId).mp (by rw [Dict.get?_set_self]; rfl)).2.2
          · intro ⟨_, _, hdropped⟩
            refine ⟨fun t => ?_, fun hno => ?_, ?_⟩
            · show ((b.supervisor.inProgress.set task.taskId task).get? t).isSome = true
                ↔ t ∈ task.taskId :: b.handed ∧ _
              rw [Dict.get?_set, List.mem_cons]
              by_cases ht : t = task.taskId
              · rw [if_pos ht, ht]
                exact iff_of_true rfl ⟨.inl rfl, hopen, hdropped rfl⟩
              · rw [if_neg ht, or_iff_right ht]
                exact hprogress t
            · rw [show b.supervisor.forwarding = false from hno] at hf
              cases hf
            · show b.answered = if b.failed then _ else []
              rw [hanswered, hfailed]
              rfl

/-- The part of the law about the errors, behind a step of the supervisor. -/
theorem answered_of_effect (h : Inner b) (heffect : Effect b.supervisor a s' events)
    (hanswered : b.answered = if b.failed then b.supervisor.generating else []) :
    (b.after a s' events).answered
      = if (b.after a s' events).failed then s'.generating else [] := by
  unfold after
  cases hchecks : checks a with
  | true =>
      obtain ⟨hbegun, hsent⟩ := heffect.checked hchecks
      have hfailed : b.failed = false := by
        cases hfailed : b.failed with
        | false => rfl
        | true =>
            rw [h.failed hfailed] at hbegun
            cases hbegun
      have hnone : b.answered = [] := by
        rw [hanswered, hfailed]
        rfl
      have hgenerating : s'.generating = b.supervisor.generating := by
        rcases heffect.books with ⟨hsame, -⟩ | ⟨-, -, rfl, -⟩
        · rw [Supervisor.generating, hsame, Supervisor.generating]
        · cases hchecks
      rcases hsent with ⟨hno, herrors⟩ | ⟨hyes, herrors, -⟩
      · simp [hno, herrors, hfailed, hnone]
      · simp [hyes, herrors, hnone, hgenerating]
  | false =>
      show b.answered = if b.failed || false then s'.generating else []
      rw [Bool.or_false]
      rcases heffect.books with ⟨hsame, -⟩ | ⟨t, hf, -, -, -⟩
      · rw [hanswered, Supervisor.generating, Supervisor.generating, hsame]
      · rw [hanswered, h.not_failed hf]
        rfl

/-- **The guard of the supervisor's own steps.** -/
theorem kept_run_iff (h : Inner b) (hkept : Kept (machine boundInstance) b)
    (hs : step b (.run a) = some b') :
    Kept (machine boundInstance) b' ↔ Orderly b (.run a) := by
  have hinner := inner_step h hs
  obtain ⟨hprogress, hset, hanswered⟩ := (kept_iff h).mp hkept
  rw [kept_iff hinner]
  obtain ⟨-, ⟨hraises, rfl⟩ | ⟨s', events, -, heffect, rfl⟩⟩ := run_cases h.sane hs
  · obtain ⟨rfl, hf⟩ := forwarding_of_raises hraises
    refine iff_of_true ⟨hprogress, fun _ t set hget => ?_, ?_⟩ fun t ht => by cases ht
    · rcases stop_pending b.supervisor.endForwarding with ⟨hno, -⟩ | ⟨-, hsame⟩
      · cases hno
      · exact released_endForwarding b.supervisor t set (by rw [← hsame]; exact hget)
    · show b.answered = if b.failed || false then _ else []
      rw [hanswered, h.not_failed hf]
      rfl
  · have hset' : s'.forwarding = false → AllSet (b.after a s' events) := fun hf' => by
      rcases heffect.pending hf' with ⟨-, hreleased⟩ | ⟨hf, hsame⟩
      · exact hreleased
      · intro t set hget
        exact hset hf t set (by rw [← hsame]; exact hget)
    rw [and_iff_left ⟨hset', answered_of_effect h heffect hanswered⟩]
    show (∀ t, (s'.inProgress.get? t).isSome = true
      ↔ t ∈ b.handed ∧ t ∉ s'.completed ∧ t ∉ dropsOf b.supervisor a ++ b.dropped) ↔ _
    rcases heffect.books with ⟨hsame, hcompleted⟩ | ⟨t₀, -, rfl, herased, hcompleted⟩
    · rw [hsame, hcompleted]
      constructor
      · intro hprogress' t ht
        cases hget : b.supervisor.inProgress.get? t with
        | none => rfl
        | some task =>
            have hout := (hprogress' t).mp (by rw [hget]; rfl)
            exact absurd (List.mem_append_left _ ht) hout.2.2
      · intro horderly t
        rw [hprogress t, List.mem_append, not_or]
        constructor
        · intro hin
          refine ⟨hin.1, hin.2.1, fun ht => ?_, hin.2.2⟩
          have hsome := (hprogress t).mpr hin
          rw [horderly t ht] at hsome
          cases hsome
        · exact fun hin => ⟨hin.1, hin.2.1, hin.2.2.2⟩
    · refine iff_of_true (fun t => ?_) fun t ht => by cases ht
      rw [herased, hcompleted, Dict.get?_erase, List.mem_cons, not_or]
      show _ ↔ t ∈ b.handed ∧ _ ∧ t ∉ b.dropped
      by_cases ht : t = t₀
      · rw [if_pos ht]
        exact iff_of_false Bool.false_ne_true fun hin => hin.2.1.1 ht
      · rw [if_neg ht, hprogress t]
        exact ⟨fun hin => ⟨hin.1, ⟨ht, hin.2.1⟩, hin.2.2⟩, fun hin => ⟨hin.1, hin.2.1.2, hin.2.2⟩⟩

theorem kept_step_iff (h : Inner b) (hkept : Kept (machine boundInstance) b) {act : Action}
    (hs : step b act = some b') : Kept (machine boundInstance) b' ↔ Orderly b act := by
  have hinner := inner_step h hs
  cases act with
  | startTask task => exact kept_startTask_iff h hkept hs
  | run a => exact kept_run_iff h hkept hs
  | cancelTask t =>
      obtain ⟨hprogress, hset, hanswered⟩ := (kept_iff h).mp hkept
      obtain rfl := Option.some.inj hs
      exact iff_of_true ((kept_iff hinner).mpr ⟨hprogress, hset, hanswered⟩) trivial
  | shutdown =>
      obtain ⟨hprogress, hset, hanswered⟩ := (kept_iff h).mp hkept
      obtain rfl := Option.some.inj hs
      refine iff_of_true ((kept_iff hinner).mpr ⟨hprogress, fun _ t set hget => ?_, hanswered⟩)
        trivial
      rcases stop_pending b.supervisor with ⟨-, hreleased⟩ | ⟨hf, hsame⟩
      · exact hreleased t set hget
      · exact hset hf t set (by rw [← hsame]; exact hget)

theorem inner_create (boundInstance : BoundInstance) : Inner (machine boundInstance).init :=
  ⟨⟨nofun, nofun⟩, nofun⟩

theorem kept_create (boundInstance : BoundInstance) :
    Kept (machine boundInstance) (machine boundInstance).init := by
  refine (kept_iff (inner_create boundInstance)).mpr ⟨fun t => ?_, nofun, rfl⟩
  exact iff_of_false Bool.false_ne_true fun hin => by cases hin.1

/-- **The books of a supervisor.** They are right in every state of a run exactly if each of its steps
is orderly. -/
theorem kept_throughout_iff (boundInstance : BoundInstance) {actions : List Action} {b : Books}
    (h : (machine boundInstance).run (machine boundInstance).init actions = some b) :
    (∀ k t, (machine boundInstance).run (machine boundInstance).init (actions.take k) = some t →
        Kept (machine boundInstance) t)
      ↔ ∀ k act t, actions[k]? = some act →
        (machine boundInstance).run (machine boundInstance).init (actions.take k) = some t →
          Orderly t act :=
  Machine.throughout_iff_of_invariant (fun _ _ _ hinner hs => inner_step hinner hs)
    (fun _ _ _ hinner hkept hs => kept_step_iff hinner hkept hs) (inner_create boundInstance)
    (kept_create boundInstance) h

/-- An instance with one runner. -/
def loneRunner : BoundInstance where
  inst := {
    instanceId := 1
    shardAssignments := {
      modelId := 1
      runnerToShard := Dict.empty.set 1
        { modelId := 1, deviceRank := 0, worldSize := 1, startLayer := 0, endLayer := 1 }
      nodeToRunner := Dict.empty.set 1 1
      runnersExist := by decide } }
  boundRunnerId := 1
  boundNodeId := 1
  shardExists := by decide

def taskOf (taskId : TaskId) (kind : TaskKind) : Task :=
  { taskId, taskStatus := .pending, instanceId := 1, kind }

/-- The model is loaded and warmed up, then a generation is started and cancelled. The runner drops it
and is ready again, and everything it said is forwarded. -/
def cancelledRun : List Action :=
  [.run .boot, .startTask (taskOf 1 .loadModel), .run .take, .run (.unblock none),
    .startTask (taskOf 2 .startWarmup), .run .take, .run (.unblock none),
    .startTask (taskOf 3 (.textGeneration 7 [] [])), .run .take, .cancelTask 3,
    .run (.engineStep 1 [(3, .cancelled)]), .run .pollEmpty]
    ++ List.replicate 15 (.run .forward)

theorem kept_throughout_iff_cancelledRun :
    (∀ k t, (machine loneRunner).run (machine loneRunner).init (cancelledRun.take k) = some t →
        Kept (machine loneRunner) t)
      ↔ ∀ k act t, cancelledRun[k]? = some act →
        (machine loneRunner).run (machine loneRunner).init (cancelledRun.take k) = some t →
          Orderly t act := by
  have hrun : (machine loneRunner).run (machine loneRunner).init cancelledRun = some _ := rfl
  exact kept_throughout_iff loneRunner hrun

/-- A cancelled task stays in progress, also when the runner is ready again and everything it said has
been forwarded. -/
theorem not_forall_kept : ¬ ∀ (boundInstance : BoundInstance) (actions : List Action) (b : Books),
    (machine boundInstance).run (machine boundInstance).init actions = some b →
      b.supervisor.messages = [] → b.supervisor.status = .ready none →
        Kept (machine boundInstance) b := by
  intro h
  have hrun : (machine loneRunner).run (machine loneRunner).init cancelledRun = some _ := rfl
  have hkept := h loneRunner cancelledRun _ hrun rfl rfl
  exact ((hkept.inProgress 3).mp (by decide)).2.2 (by decide)

end Books

end Exo
