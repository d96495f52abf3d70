import Exo.Agent.Resources
import Mathlib.Data.List.Infix

/-!
# When the limit of compute slots holds

The permits of one semaphore are accounted for in every run: they are free or held, and who holds one
gives it back once. So the limit holds as long as all slots that are held are permits of one
semaphore. A semaphore that is forgotten while its permits are held ends that.
-/

namespace Exo.Resources

open Lib (Machine)

variable {s s' : Manager} {a : Action} {i k : Nat} {t : Thread} {phase : Phase}

/-! ## What a step does -/

/-- Every step is one of these. `quiet` is a call that goes on without a permit before or after. -/
inductive Steps (s : Manager) (a : Action) : Manager → Prop where
  | called (call : Call) : Steps s a { s with threads := s.threads ++ [{ call }] }
  | quiet {i : Nat} {t : Thread} (phase : Phase) (configs : List Nat) (current : Option (Nat × Nat))
      (more : List Semaphore) (thread : s.threads[i]? = some t) (free : t.isHolding = false)
      (running : t.phase ≠ .ended) (free' : ∀ k since, phase ≠ .holding k since)
      (grown : s.configs <+: configs) (full : ∀ m ∈ more, m.value = m.slots) :
      Steps s a { configs, current, semaphores := s.semaphores ++ more,
                  threads := s.threads.set i { t with phase } }
  | acquired {i k : Nat} {t : Thread} {m : Semaphore} (action : a = .advance i)
      (thread : s.threads[i]? = some t) (waiting : t.phase = .waiting k)
      (semaphore : s.semaphores[k]? = some m) (positive : m.value ≠ 0) :
      Steps s a { s with
        semaphores := s.semaphores.set k { m with value := m.value - 1 }
        threads := s.threads.set i
          { t with phase := .holding k s.configs.length, acquired := some k } }
  | overfull {i k since : Nat} {t : Thread} {m : Semaphore} (thread : s.threads[i]? = some t)
      (holding : t.phase = .holding k since) (semaphore : s.semaphores[k]? = some m)
      (full : m.slots ≤ m.value) : Steps s a (s.setPhase i t .ended)
  | released {i k since : Nat} {t : Thread} {m : Semaphore} (thread : s.threads[i]? = some t)
      (holding : t.phase = .holding k since) (semaphore : s.semaphores[k]? = some m) :
      Steps s a { s with
        semaphores := s.semaphores.set k { m with value := m.value + 1 }
        threads := s.threads.set i { t with phase := .ended, released := t.released ++ [k] } }

/-- A call that only goes on. -/
theorem steps_setPhase (current : Option (Nat × Nat)) (ht : s.threads[i]? = some t)
    (hfree : t.isHolding = false) (hrunning : t.phase ≠ .ended)
    (hphase : ∀ k since, phase ≠ .holding k since) :
    Steps s a (Manager.setPhase { s with current } i t phase) := by
  have h := Steps.quiet (a := a) phase s.configs current [] ht hfree hrunning hphase
    List.prefix_rfl fun m hm => by cases hm
  rw [List.append_nil] at h
  exact h

theorem steps_take {slots : Nat} (ht : s.threads[i]? = some t) (hphase : t.phase = .got slots) :
    Steps s a (s.take i t slots) := by
  have hfree : t.isHolding = false := by rw [Thread.isHolding, hphase]
  have hrunning : t.phase ≠ .ended := by rw [hphase]; nofun
  have hrenew : Steps s a ((s.renew slots).setPhase i t (.waiting s.semaphores.length)) := by
    refine .quiet _ s.configs _ [⟨slots, slots⟩] ht hfree hrunning nofun List.prefix_rfl
      fun m hm => ?_
    rw [List.mem_singleton.mp hm]
  unfold Manager.take
  split
  · split
    · exact steps_setPhase s.current ht hfree hrunning nofun
    · exact hrenew
  · exact hrenew

theorem steps_advance (ht : s.threads[i]? = some t) (h : s.advance i t = some s') :
    Steps s (.advance i) s' := by
  unfold Manager.advance at h
  cases hphase : t.phase with
  | begun =>
      rw [hphase] at h
      obtain rfl := Option.some.inj h
      have hfree : t.isHolding = false := by rw [Thread.isHolding, hphase]
      have hrunning : t.phase ≠ .ended := by rw [hphase]; nofun
      unfold Manager.look
      split <;> exact steps_setPhase s.current ht hfree hrunning nofun
  | writing slots =>
      rw [hphase] at h
      obtain rfl := Option.some.inj h
      have hstep := Steps.quiet (a := .advance i) (.written slots) (s.configs ++ [slots]) s.current []
        ht (by rw [Thread.isHolding, hphase]) (by rw [hphase]; nofun) nofun
        (List.prefix_append _ _) fun m hm => by cases hm
      rw [List.append_nil] at hstep
      exact hstep
  | written slots =>
      rw [hphase] at h
      obtain rfl := Option.some.inj h
      refine steps_setPhase none ht (by rw [Thread.isHolding, hphase]) (by rw [hphase]; nofun) ?_
      cases t.call <;> nofun
  | got slots =>
      rw [hphase] at h
      obtain rfl := Option.some.inj h
      exact steps_take ht hphase
  | waiting k =>
      rw [hphase] at h
      simp only [Manager.acquire] at h
      split at h
      · cases h
      · rename_i m hm
        rw [Option.ite_none_left_eq_some] at h
        obtain rfl := Option.some.inj h.2
        exact .acquired rfl ht hphase hm h.1
  | holding k since =>
      rw [hphase] at h
      simp only [Manager.release] at h
      split at h
      · cases h
      · rename_i m hm
        split at h
        · obtain rfl := Option.some.inj h
          exact .overfull ht hphase hm ‹_›
        · obtain rfl := Option.some.inj h
          exact .released ht hphase hm
  | ended =>
      rw [hphase] at h
      cases h

/-- **What a step does.** -/
theorem steps_of_step (h : step s a = some s') : Steps s a s' := by
  cases a with
  | call call =>
      simp only [step, Option.ite_none_left_eq_some] at h
      obtain rfl := Option.some.inj h.2
      exact .called call
  | advance i =>
      obtain ⟨t, ht, h⟩ := Option.bind_eq_some_iff.mp h
      exact steps_advance ht h
  | raise i =>
      obtain ⟨t, ht, h⟩ := Option.bind_eq_some_iff.mp h
      unfold Manager.raise at h
      split at h
      · cases h
      · cases h
      · rename_i hholding hended
        obtain rfl := Option.some.inj h
        refine steps_setPhase s.current ht ?_ hended nofun
        unfold Thread.isHolding
        split
        · rename_i k since hphase
          exact absurd hphase (hholding k since)
        · rfl

/-! ## Permits -/

/-- What every run keeps. -/
structure Sound (s : Manager) : Prop where
  accounted : s.Accounted
  known : ∀ t ∈ s.threads, ∀ k since, t.phase = .holding k since → k < s.semaphores.length
  fresh : ∀ t ∈ s.threads, t.isHolding = false → t.phase ≠ .ended → t.acquired = none

theorem holds_iff : t.holds k = true ↔ ∃ since, t.phase = .holding k since := by
  unfold Thread.holds
  split
  · rename_i k' since hphase
    rw [decide_eq_true_iff]
    constructor
    · intro hk
      exact ⟨since, by rw [hphase, hk]⟩
    · intro h
      obtain ⟨since', hphase'⟩ := h
      rw [hphase] at hphase'
      exact (Phase.holding.inj hphase').1
  · rename_i hno
    refine iff_of_false Bool.false_ne_true fun h => ?_
    obtain ⟨since, hphase⟩ := h
    exact hno k since hphase

theorem isHolding_iff : t.isHolding = true ↔ ∃ k since, t.phase = .holding k since := by
  unfold Thread.isHolding
  split
  · rename_i k since hphase
    exact iff_of_true rfl ⟨k, since, hphase⟩
  · rename_i hno
    refine iff_of_false Bool.false_ne_true fun h => ?_
    obtain ⟨k, since, hphase⟩ := h
    exact hno k since hphase

theorem holds_eq_false (h : t.isHolding = false) (k : Nat) : t.holds k = false := by
  rw [Bool.eq_false_iff]
  intro hholds
  obtain ⟨since, hphase⟩ := holds_iff.1 hholds
  rw [isHolding_iff.2 ⟨k, since, hphase⟩] at h
  cases h

theorem not_holds {t' : Thread} (h : ∀ k since, t'.phase ≠ .holding k since) (k : Nat) :
    t'.holds k = false := by
  refine holds_eq_false (Bool.eq_false_iff.mpr fun hholding => ?_) k
  obtain ⟨k', since, hphase⟩ := isHolding_iff.1 hholding
  exact h k' since hphase

/-- A count over the calls, when one of them goes on. -/
theorem countP_set_thread (p : Thread → Bool) (ht : s.threads[i]? = some t) (t' : Thread) :
    (s.threads.set i t').countP p + (if p t then 1 else 0)
      = s.threads.countP p + if p t' then 1 else 0 := by
  obtain ⟨hi, rfl⟩ := List.getElem?_eq_some_iff.mp ht
  rw [List.countP_set hi]
  have hpos : p s.threads[i] = true → 0 < s.threads.countP p := fun hp =>
    List.countP_pos_iff.mpr ⟨_, List.getElem_mem hi, hp⟩
  by_cases hp : p s.threads[i] = true
  · have := hpos hp
    rw [if_pos hp]
    omega
  · rw [if_neg hp]
    omega

variable {since : Nat}

theorem held_pos (ht : s.threads[i]? = some t) (h : t.phase = .holding k since) :
    0 < s.held k :=
  List.countP_pos_iff.mpr ⟨t, List.mem_of_getElem? ht, holds_iff.2 ⟨since, h⟩⟩

/-- Nobody holds a permit of a semaphore that does not exist yet. -/
theorem Sound.held_eq_zero (h : Sound s) (hk : s.semaphores.length ≤ k) : s.held k = 0 := by
  refine List.countP_eq_zero.mpr fun t ht hholds => ?_
  obtain ⟨since, hphase⟩ := holds_iff.1 hholds
  have := h.known t ht k since hphase
  omega

theorem mem_set_cases {t' x : Thread} (h : x ∈ s.threads.set i t') :
    x ∈ s.threads ∨ x = t' := List.mem_or_eq_of_mem_set h

theorem getElem?_set_semaphore {j : Nat} {m m' x : Semaphore} (hm : s.semaphores[k]? = some m)
    (h : (s.semaphores.set k m')[j]? = some x) :
    (j = k ∧ x = m') ∨ (j ≠ k ∧ s.semaphores[j]? = some x) := by
  by_cases hj : j = k
  · rw [hj, List.getElem?_set_self (List.getElem?_eq_some_iff.mp hm).1] at h
    exact .inl ⟨hj, (Option.some.inj h).symm⟩
  · rw [List.getElem?_set_ne fun hk => hj hk.symm] at h
    exact .inr ⟨hj, h⟩

theorem sound_step (h : Sound s) (hs : step s a = some s') : Sound s' := by
  obtain ⟨⟨hreleased, hholding, hbalanced⟩, hknown, hfresh⟩ := h
  have hsound : Sound s := ⟨⟨hreleased, hholding, hbalanced⟩, hknown, hfresh⟩
  cases steps_of_step hs with
  | called call =>
      have hnew : ∀ x ∈ s.threads ++ [({ call } : Thread)], x ∈ s.threads ∨ x = { call } := fun x hx => by
        rcases List.mem_append.mp hx with hx | hx
        · exact .inl hx
        · exact .inr (List.mem_singleton.mp hx)
      refine ⟨⟨fun x hx => ?_, fun x hx k since hphase => ?_, fun k m hm => ?_⟩,
        fun x hx k since hphase => ?_, fun x hx _ _ => ?_⟩
      · rcases hnew x hx with hx | rfl
        · exact hreleased x hx
        · rfl
      · rcases hnew x hx with hx | rfl
        · exact hholding x hx k since hphase
        · cases hphase
      · show m.value + (s.threads ++ [({ call } : Thread)]).countP (Thread.holds k) = m.slots
        rw [List.countP_append]
        exact hbalanced k m hm
      · rcases hnew x hx with hx | rfl
        · exact hknown x hx k since hphase
        · cases hphase
      · rcases hnew x hx with hx | rfl
        · exact hfresh x hx ‹_› ‹_›
        · rfl
  | @quiet i t phase configs current more ht hfree hrunning hphase' hgrown hfull =>
      have hmem := List.mem_of_getElem? ht
      have hnone := hfresh t hmem hfree hrunning
      have hheld : ∀ k, (s.threads.set i { t with phase }).countP (Thread.holds k) = s.held k := by
        intro k
        have hcount := countP_set_thread (Thread.holds k) ht { t with phase }
        rw [holds_eq_false hfree, not_holds hphase'] at hcount
        exact hcount
      refine ⟨⟨fun x hx => ?_, fun x hx k since hphase => ?_, fun k m hm => ?_⟩,
        fun x hx k since hphase => ?_, fun x hx _ _ => ?_⟩
      · rcases mem_set_cases hx with hx | rfl
        · exact hreleased x hx
        · show t.released = if phase = .ended then t.acquired.toList else []
          rw [hreleased t hmem, if_neg hrunning, hnone]
          split <;> rfl
      · rcases mem_set_cases hx with hx | rfl
        · exact hholding x hx k since hphase
        · exact absurd hphase (hphase' k since)
      · show m.value + (s.threads.set i { t with phase }).countP (Thread.holds k) = m.slots
        rw [hheld]
        rcases Nat.lt_or_ge k s.semaphores.length with hk | hk
        · have hold : (s.semaphores ++ more)[k]? = s.semaphores[k]? := List.getElem?_append_left hk
          exact hbalanced k m (by rw [← hold]; exact hm)
        · have hnew : (s.semaphores ++ more)[k]? = more[k - s.semaphores.length]? :=
            List.getElem?_append_right hk
          have hm' : more[k - s.semaphores.length]? = some m := by rw [← hnew]; exact hm
          rw [hsound.held_eq_zero hk, hfull m (List.mem_of_getElem? hm'), Nat.add_zero]
      · show k < (s.semaphores ++ more).length
        rw [List.length_append]
        rcases mem_set_cases hx with hx | rfl
        · have := hknown x hx k since hphase
          omega
        · exact absurd hphase (hphase' k since)
      · rcases mem_set_cases hx with hx | rfl
        · exact hfresh x hx ‹_› ‹_›
        · exact hnone
  | @acquired i k t m haction ht hwaiting hm hpositive =>
      have hmem := List.mem_of_getElem? ht
      have hfree : t.isHolding = false := by rw [Thread.isHolding, hwaiting]
      have hrunning : t.phase ≠ .ended := by rw [hwaiting]; nofun
      have hheld : ∀ j, (s.threads.set i { t with
            phase := .holding k s.configs.length, acquired := some k }).countP (Thread.holds j)
          = s.held j + if j = k then 1 else 0 := by
        intro j
        have hcount := countP_set_thread (Thread.holds j) ht
          { t with phase := .holding k s.configs.length, acquired := some k }
        rw [holds_eq_false hfree] at hcount
        simp only [Thread.holds, decide_eq_true_eq, eq_comm (a := k)] at hcount
        exact hcount
      refine ⟨⟨fun x hx => ?_, fun x hx j since hphase => ?_, fun j x hx => ?_⟩,
        fun x hx j since hphase => ?_, fun x hx hx' _ => ?_⟩
      · rcases mem_set_cases hx with hx | rfl
        · exact hreleased x hx
        · show t.released = []
          rw [hreleased t hmem, if_neg hrunning]
      · rcases mem_set_cases hx with hx | rfl
        · exact hholding x hx j since hphase
        · obtain ⟨rfl, -⟩ := Phase.holding.inj hphase
          rfl
      · show x.value + (s.threads.set i _).countP (Thread.holds j) = x.slots
        rw [hheld]
        rcases getElem?_set_semaphore hm hx with ⟨rfl, rfl⟩ | ⟨hj, hx⟩
        · have := hbalanced j m hm
          rw [if_pos rfl]
          show m.value - 1 + (s.held j + 1) = m.slots
          omega
        · rw [if_neg hj]
          exact hbalanced j x hx
      · show j < (s.semaphores.set k _).length
        rw [List.length_set]
        rcases mem_set_cases hx with hx | rfl
        · exact hknown x hx j since hphase
        · obtain ⟨rfl, -⟩ := Phase.holding.inj hphase
          exact (List.getElem?_eq_some_iff.mp hm).1
      · rcases mem_set_cases hx with hx | rfl
        · exact hfresh x hx hx' ‹_›
        · cases hx'
  | @overfull i k since t m ht hphase hm hfull =>
      -- a permit that is held is not free
      have hpos := held_pos ht hphase
      have := hbalanced k m hm
      omega
  | @released i k since t m ht hphase hm =>
      have hmem := List.mem_of_getElem? ht
      have hacquired := hholding t hmem k since hphase
      have hnone : t.released = [] := by
        rw [hreleased t hmem, hphase]
        rfl
      have hheld : ∀ j, (s.threads.set i { t with
            phase := .ended, released := t.released ++ [k] }).countP (Thread.holds j)
          + (if j = k then 1 else 0) = s.held j := by
        intro j
        have hcount := countP_set_thread (Thread.holds j) ht
          { t with phase := .ended, released := t.released ++ [k] }
        simp only [Thread.holds, hphase, decide_eq_true_eq, eq_comm (a := k)] at hcount
        exact hcount
      refine ⟨⟨fun x hx => ?_, fun x hx j since' hphase' => ?_, fun j x hx => ?_⟩,
        fun x hx j since' hphase' => ?_, fun x hx hx' hx'' => ?_⟩
      · rcases mem_set_cases hx with hx | rfl
        · exact hreleased x hx
        · show t.released ++ [k] = t.acquired.toList
          rw [hnone, hacquired]
          rfl
      · rcases mem_set_cases hx with hx | rfl
        · exact hholding x hx j since' hphase'
        · cases hphase'
      · show x.value + (s.threads.set i _).countP (Thread.holds j) = x.slots
        have hcount := hheld j
        rcases getElem?_set_semaphore hm hx with ⟨rfl, rfl⟩ | ⟨hj, hx⟩
        · have := hbalanced j m hm
          rw [if_pos rfl] at hcount
          show m.value + 1 + _ = m.slots
          omega
        · have := hbalanced j x hx
          rw [if_neg hj] at hcount
          omega
      · show j < (s.semaphores.set k _).length
        rw [List.length_set]
        rcases mem_set_cases hx with hx | rfl
        · exact hknown x hx j since' hphase'
        · cases hphase'
      · rcases mem_set_cases hx with hx | rfl
        · exact hfresh x hx hx' hx''
        · exact absurd rfl hx''

theorem sound_init : Sound {} where
  accounted := {
    released := fun t ht => by cases ht
    holding := fun t ht => by cases ht
    balanced := fun k m hm => by cases hm }
  known := fun t ht => by cases ht
  fresh := fun t ht => by cases ht

/-! ## One semaphore at a time -/

/-- What a run keeps in which permits of two semaphores are never held together. -/
structure Single (s : Manager) : Prop where
  sound : Sound s
  /-- All holders hold permits of one semaphore. -/
  same : ∀ t ∈ s.threads, ∀ t' ∈ s.threads, ∀ k since k' since',
    t.phase = .holding k since → t'.phase = .holding k' since' → k = k'
  /-- Since a holder entered there was a count that is not below the slots of its semaphore. -/
  window : ∀ t ∈ s.threads, ∀ k since, t.phase = .holding k since →
    ∀ m, s.semaphores[k]? = some m → ∃ slots ∈ s.configs.drop (since - 1), m.slots ≤ slots

/-- The holders are holders of the semaphore that one of them holds. -/
theorem Single.holders_eq (h : Single s) (ht : t ∈ s.threads)
    (hphase : t.phase = .holding k since) : s.holders = s.held k := by
  refine List.countP_congr fun x hx => ?_
  rw [isHolding_iff, holds_iff]
  constructor
  · intro hholding
    obtain ⟨k', since', hphase'⟩ := hholding
    obtain rfl := h.same t ht x hx k since k' since' hphase hphase'
    exact ⟨since', hphase'⟩
  · intro hholds
    obtain ⟨since', hphase'⟩ := hholds
    exact ⟨k, since', hphase'⟩

theorem Single.within (h : Single s) : s.Within := by
  intro t ht k since hphase _
  have hk := h.sound.known t ht k since hphase
  obtain ⟨slots, hslots, hle⟩ := h.window t ht k since hphase _ (List.getElem?_eq_getElem hk)
  have hbalanced := h.sound.accounted.balanced k _ (List.getElem?_eq_getElem hk)
  refine ⟨slots, hslots, ?_⟩
  rw [h.holders_eq ht hphase]
  omega

/-- A step after which every holder is one from before keeps the rest. -/
theorem Single.of_old (h : Single s) (hsound : Sound s') (hgrown : s.configs <+: s'.configs)
    (hold : ∀ t ∈ s'.threads, ∀ k since, t.phase = .holding k since → t ∈ s.threads)
    (hslots : ∀ k m', k < s.semaphores.length → s'.semaphores[k]? = some m' →
      ∃ m, s.semaphores[k]? = some m ∧ m'.slots = m.slots) : Single s' where
  sound := hsound
  same := fun t ht t' ht' k since k' since' hphase hphase' =>
    h.same t (hold t ht k since hphase) t' (hold t' ht' k' since' hphase') k since k' since'
      hphase hphase'
  window := fun t ht k since hphase m' hm' => by
    have ht := hold t ht k since hphase
    obtain ⟨m, hm, heq⟩ := hslots k m' (h.sound.known t ht k since hphase) hm'
    obtain ⟨slots, hmem, hle⟩ := h.window t ht k since hphase m hm
    exact ⟨slots, (List.IsPrefix.drop hgrown _).subset hmem, by omega⟩

/-- A thread that goes on without a permit is none of the holders. -/
theorem holder_of_mem_set {x t' : Thread}
    (hfree : ∀ k since, t'.phase ≠ .holding k since) (hx : x ∈ s.threads.set i t')
    (hphase : x.phase = .holding k since) : x ∈ s.threads := by
  rcases mem_set_cases hx with hx | rfl
  · exact hx
  · exact absurd hphase (hfree k since)

theorem single_step (h : Single s) (hok : s.Orderly a) (hs : step s a = some s') : Single s' := by
  have hsound := sound_step h.sound hs
  cases steps_of_step hs with
  | called call =>
      refine h.of_old hsound List.prefix_rfl (fun x hx k since hphase => ?_)
        fun k m _ hm => ⟨m, hm, rfl⟩
      rcases List.mem_append.mp hx with hx | hx
      · exact hx
      · rw [List.mem_singleton.mp hx] at hphase
        cases hphase
  | @quiet i t phase configs current more ht hfree hrunning hphase' hgrown hfull =>
      refine h.of_old hsound hgrown (fun x hx k since hphase => holder_of_mem_set hphase' hx hphase)
        fun k m hk hm => ?_
      have hold : (s.semaphores ++ more)[k]? = s.semaphores[k]? := List.getElem?_append_left hk
      exact ⟨m, by rw [← hold]; exact hm, rfl⟩
  | @acquired i k t m haction ht hwaiting hm hpositive =>
      subst haction
      have hawaited : s.awaited i = some k := by
        rw [Manager.awaited, ht, Option.bind_some, hwaiting]
      obtain ⟨hsame, hslots⟩ := hok k hawaited
      obtain ⟨slots, hconfigured, hle⟩ := hslots m hm
      -- the count that stands in the file when the new holder enters
      have hlast : slots ∈ s.configs.drop (s.configs.length - 1) := by
        obtain ⟨before, hbefore⟩ := List.getLast?_eq_some_iff.mp hconfigured
        rw [hbefore, List.length_append, List.length_singleton, Nat.add_sub_cancel, List.drop_left]
        exact List.mem_singleton_self slots
      refine ⟨hsound, fun x hx y hy j since j' since' hphase hphase' => ?_,
        fun x hx j since hphase x' hx' => ?_⟩
      · have hall : ∀ z ∈ s.threads.set i { t with
            phase := .holding k s.configs.length, acquired := some k },
            ∀ j since, z.phase = .holding j since → j = k := fun z hz j since hphase => by
          rcases mem_set_cases hz with hz | rfl
          · have hholds := hsame z hz (isHolding_iff.2 ⟨j, since, hphase⟩)
            obtain ⟨since', hphase'⟩ := holds_iff.1 hholds
            exact (Phase.holding.inj (hphase.symm.trans hphase')).1
          · exact (Phase.holding.inj hphase).1.symm
        rw [hall x hx j since hphase, hall y hy j' since' hphase']
      · have heq : ∃ m', s.semaphores[j]? = some m' ∧ x'.slots = m'.slots := by
          rcases getElem?_set_semaphore hm hx' with ⟨rfl, rfl⟩ | ⟨-, hx'⟩
          · exact ⟨m, hm, rfl⟩
          · exact ⟨x', hx', rfl⟩
        obtain ⟨m', hm', heq⟩ := heq
        rcases mem_set_cases hx with hx | rfl
        · obtain ⟨slots', hmem, hle'⟩ := h.window x hx j since hphase m' hm'
          exact ⟨slots', hmem, by omega⟩
        · obtain ⟨rfl, rfl⟩ := Phase.holding.inj hphase
          obtain rfl := Option.some.inj (hm.symm.trans hm')
          exact ⟨slots, hlast, by omega⟩
  | @overfull i k since t m ht hphase hm hfull =>
      have hpos := held_pos ht hphase
      have := h.sound.accounted.balanced k m hm
      omega
  | @released i k since t m ht hphase hm =>
      refine h.of_old hsound List.prefix_rfl
        (fun x hx j since' hphase' => holder_of_mem_set (fun _ _ h => by cases h) hx hphase')
        fun j x _ hx => ?_
      rcases getElem?_set_semaphore hm hx with ⟨rfl, rfl⟩ | ⟨-, hx⟩
      · exact ⟨m, hm, rfl⟩
      · exact ⟨x, hx, rfl⟩

theorem single_init : Single {} where
  sound := sound_init
  same := fun t ht => by cases ht
  window := fun t ht => by cases ht

theorem single_of_reachableWhen (h : machine.ReachableWhen Manager.Orderly s) : Single s :=
  h.invariant (P := Single) single_init fun _ _ _ h hok hs => single_step h hok hs

/--
**The limit of compute slots.** In a run in which a permit is acquired only while no permit of another
semaphore is held, and of a semaphore that has not more slots than are configured, the holders are
never more than some count configured since the oldest of them entered; and every call has released
what it acquired once, when it ended.
-/
theorem limited_of_orderly (h : machine.ReachableWhen Manager.Orderly s) :
    s.Within ∧ s.Accounted :=
  ⟨(single_of_reachableWhen h).within, (single_of_reachableWhen h).sound.accounted⟩

/-- Two slots are allocated, and two calls hold them. -/
def twoSlots : List Action :=
  [.call (.allocate (some 2)), .advance 0, .advance 0, .advance 0,
    .call .computeSlot, .advance 1, .advance 1, .advance 1,
    .call .computeSlot, .advance 2, .advance 2, .advance 2]

theorem limited_of_orderly_twoSlots : ∃ s, machine.ReachableWhen Manager.Orderly s
    ∧ s.holders = 2 ∧ s.Within ∧ s.Accounted := by
  have hrun : (machine.runWhen Manager.Orderly machine.init twoSlots).map Manager.holders = some 2 :=
    by decide
  obtain ⟨s, hs, htwo⟩ := Option.map_eq_some_iff.mp hrun
  have hreach := Machine.reachableWhen_of_run hs
  exact ⟨s, hreach, htwo, limited_of_orderly hreach⟩

/-- A call holds the one slot there is. The same count is allocated again, and a second call gets a
slot. -/
def allocatedAgain : List Action :=
  [.call .computeSlot, .advance 0, .advance 0, .advance 0, .advance 0, .advance 0,
    .call (.allocate (some 1)), .advance 1, .advance 1, .advance 1,
    .call .computeSlot, .advance 2, .advance 2, .advance 2]

/-- Two calls hold one slot each, and one is configured. -/
def crowded : Manager where
  configs := [1, 1]
  current := some (1, 1)
  semaphores := [⟨1, 0⟩, ⟨1, 0⟩]
  threads := [⟨.computeSlot, .holding 0 1, some 0, []⟩, ⟨.allocate (some 1), .ended, none, []⟩,
    ⟨.computeSlot, .holding 1 2, some 1, []⟩]

theorem not_forall_within : ¬ ∀ s, machine.Reachable s → s.Within ∧ s.Accounted := by
  intro h
  have hrun : machine.run machine.init allocatedAgain = some crowded := by decide
  have hwithin := (h crowded (Machine.reachable_of_run hrun)).1
  have holdest : ∀ t ∈ crowded.threads, ∀ k since, t.phase = .holding k since → 1 ≤ since := by
    intro t ht k since hphase
    simp only [crowded, List.mem_cons, List.not_mem_nil, or_false] at ht
    rcases ht with rfl | rfl | rfl <;> cases hphase <;> decide
  obtain ⟨slots, hmem, hle⟩ := hwithin _ List.mem_cons_self 0 1 rfl holdest
  have hone : ∀ slots ∈ crowded.configs.drop (1 - 1), ¬ crowded.holders ≤ slots := by decide
  exact hone slots hmem hle

end Exo.Resources
