import Exo.Worker.DecodeSlots

/-!
# Whether the slots are exact

The two maps of active tasks always have the same keys, and the generator below decodes all of them. It
decodes nothing else as long as no stop sequence ends a task that it goes on with.
-/

namespace Exo

open Lib (Dict Machine Text)
open StopSequences (Stop TokenText trimmed)

variable {stop : TaskId → Stop}

/-! ## The loop of the generator -/

namespace BatchGenerator

variable {e e' : BatchGenerator} {r : TokenResponse} {others : Others}

/-- A token touches its own sequence only. -/
theorem get?_token_ne (h : e.token r others = some e') {uid : Nat} (hne : uid ≠ r.uid) :
    e'.gen.activeTasks.get? uid = e.gen.activeTasks.get? uid := by
  obtain ⟨task, -, h⟩ := Option.bind_eq_some_iff.mp h
  obtain ⟨e₁, he₁, h⟩ := Option.bind_eq_some_iff.mp h
  have hchecked : e₁.gen.activeTasks.get? uid = e.gen.activeTasks.get? uid := by
    unfold onGenerationToken at he₁
    dsimp only at he₁
    split at he₁
    · obtain ⟨a, -, rfl⟩ := Option.map_eq_some_iff.mp he₁
      exact Dict.get?_set_ne _ _ hne
    · rw [← Option.some.inj he₁]
      exact Dict.get?_set_ne _ _ hne
  split at h
  · rw [← Option.some.inj h, ← hchecked]
    exact Dict.get?_erase_ne _ hne
  · rw [← Option.some.inj h, hchecked]

/-- Its own sequence stays unless it is finished. -/
theorem mem_keys_token (h : e.token r others = some e') :
    r.uid ∈ e'.gen.activeTasks.keys ↔ r.finished = false := by
  obtain ⟨task, -, h⟩ := Option.bind_eq_some_iff.mp h
  obtain ⟨e₁, he₁, h⟩ := Option.bind_eq_some_iff.mp h
  have hchecked : r.uid ∈ e₁.gen.activeTasks.keys := by
    unfold onGenerationToken at he₁
    dsimp only at he₁
    split at he₁
    · obtain ⟨a, -, rfl⟩ := Option.map_eq_some_iff.mp he₁
      exact Dict.mem_keys_set.2 (.inl rfl)
    · rw [← Option.some.inj he₁]
      exact Dict.mem_keys_set.2 (.inl rfl)
  split at h
  · next hfinished =>
    rw [← Option.some.inj h]
    refine iff_of_false (fun hmem => (Dict.mem_keys_erase.1 hmem).2 rfl) ?_
    rw [hfinished]
    exact fun h => nomatch h
  · next hfinished =>
    rw [← Option.some.inj h]
    exact iff_of_true hchecked (Bool.eq_false_of_not_eq_true hfinished)

/-- The finished sequences leave the active tasks. -/
theorem mem_keys_outputs (results : List TokenResponse) (active : Dict Nat TaskId) (uid : Nat) :
    uid ∈ (outputs results active).1.keys
      ↔ uid ∈ active.keys ∧ ∀ r ∈ results, r.uid = uid → r.finished = false := by
  induction results generalizing active with
  | nil => simp [outputs]
  | cons r results ih =>
      rw [outputs, List.forall_mem_cons]
      split
      · next hnone =>
        -- the sequence is not active
        rw [ih]
        refine and_congr_right fun hmem => (and_iff_right fun huid => ?_).symm
        rw [Dict.mem_keys, ← huid, hnone] at hmem
        cases hmem
      · next task hsome =>
        split
        · next hfinished =>
          show uid ∈ (outputs results (active.erase r.uid)).1.keys ↔ _
          rw [ih, Dict.mem_keys_erase, and_assoc]
          refine and_congr_right fun _ => and_congr_left fun _ => ?_
          rw [hfinished]
          exact ⟨fun hne huid => absurd huid.symm hne, fun h huid => Bool.noConfusion (h huid.symm)⟩
        · next hfinished =>
          show uid ∈ (outputs results active).1.keys ↔ _
          rw [ih]
          refine and_congr_right fun _ => (and_iff_right fun _ => ?_).symm
          exact Bool.eq_false_of_not_eq_true hfinished

end BatchGenerator

namespace Decoding

variable {d d' : Decoding} {r : DecodeResponse} {responses : List DecodeResponse}
  {results : List TokenResponse} {uid : Nat}

/-- The response ends a task, for the generator below or for a stop sequence. -/
def Ends (stop : TaskId → Stop) (d : Decoding) (r : DecodeResponse) : Prop :=
  ∃ task, d.engine.gen.activeTasks.get? r.uid = some task
    ∧ (trimmed (stop task.taskId).sequences (d.searched r) r.out).finishReason.isSome

/-- What one response, or a list of responses, does. -/
structure Responds (d d' : Decoding) (ended : Nat → Prop) (results : List TokenResponse) : Prop where
  activeTasks : d'.engine.activeTasks = d.engine.activeTasks
  inserted : d'.engine.gen.inserted = d.engine.gen.inserted
  decoded : d'.decoded = d.decoded
  gen : ∀ uid, uid ∈ d'.engine.gen.activeTasks.keys
    ↔ uid ∈ d.engine.gen.activeTasks.keys ∧ ¬ ended uid
  results : ∀ uid, (∃ r ∈ results, r.uid = uid ∧ r.finished = true) ↔ ended uid

theorem responds_respond {now : List TokenResponse} (h : d.respond stop r = some (d', now)) :
    Responds d d' (fun uid => r.uid = uid ∧ d.Ends stop r) now
      ∧ ∀ uid, uid ≠ r.uid →
        d'.engine.gen.activeTasks.get? uid = d.engine.gen.activeTasks.get? uid
        ∧ d'.potentialStopSequenceText.get? uid = d.potentialStopSequenceText.get? uid := by
  rw [respond] at h
  split at h
  · next hnone =>
    injection h with h
    injection h with hd hnow
    subst hd hnow
    have hnot : ¬ d.Ends stop r := fun ⟨task, htask, _⟩ => by
      rw [hnone] at htask
      exact nomatch htask
    refine ⟨⟨rfl, rfl, rfl, fun uid => ?_, fun uid => ?_⟩, fun _ _ => ⟨rfl, rfl⟩⟩
    · exact (and_iff_left fun hend => hnot hend.2).symm
    · exact iff_of_false (fun ⟨_, hmem, _⟩ => absurd hmem List.not_mem_nil) fun hend => hnot hend.2
  · next task htask =>
    obtain ⟨e, he, heq⟩ := Option.map_eq_some_iff.mp h
    injection heq with hd hnow
    subst hd hnow
    have hends : d.Ends stop r
        ↔ (trimmed (stop task.taskId).sequences (d.searched r) r.out).finishReason.isSome = true :=
      ⟨fun ⟨task', htask', hend⟩ => by
        rw [htask] at htask'
        exact Option.some.inj htask' ▸ hend, fun hend => ⟨task, htask, hend⟩⟩
    have htokens := BatchGenerator.tokens_token he
    refine ⟨⟨htokens.activeTasks, htokens.inserted, rfl, fun uid => ?_, fun uid => ?_⟩, fun uid hne => ⟨?_, ?_⟩⟩
    · by_cases huid : uid = r.uid
      · subst huid
        have hactive : r.uid ∈ d.engine.gen.activeTasks.keys := Dict.mem_keys.2 (by rw [htask]; rfl)
        rw [hends]
        refine (BatchGenerator.mem_keys_token he).trans ?_
        rw [and_iff_right hactive, and_iff_right rfl, Bool.not_eq_true]
      · have hget := BatchGenerator.get?_token_ne he huid
        rw [Dict.mem_keys, Dict.mem_keys, hget]
        exact (and_iff_left fun hend => huid hend.1.symm).symm
    · rw [hends]
      constructor
      · intro ⟨result, hmem, huid, hfinished⟩
        rw [List.mem_singleton.mp hmem] at huid hfinished
        exact ⟨huid, hfinished⟩
      · exact fun ⟨huid, hfinished⟩ => ⟨_, List.mem_singleton.mpr rfl, huid, hfinished⟩
    · exact BatchGenerator.get?_token_ne he hne
    · show Dict.get? (if _ then _ else _) uid = _
      split
      · exact Dict.get?_erase_ne _ hne
      · exact Dict.get?_set_ne _ _ hne

/-- The responses to different sequences do not touch each other. -/
theorem responds_respondAll (hnodup : (responses.map (·.uid)).Nodup)
    (h : d.respondAll stop responses = some (d', results)) :
    Responds d d' (fun uid => ∃ r ∈ responses, r.uid = uid ∧ d.Ends stop r) results := by
  induction responses generalizing d d' results with
  | nil =>
      injection h with h
      injection h with hd hresults
      subst hd hresults
      refine ⟨rfl, rfl, rfl, fun uid => ?_, fun uid => ?_⟩
      · exact (and_iff_left fun ⟨_, hmem, _⟩ => absurd hmem List.not_mem_nil).symm
      · exact iff_of_false (fun ⟨_, hmem, _⟩ => absurd hmem List.not_mem_nil)
          fun ⟨_, hmem, _⟩ => absurd hmem List.not_mem_nil
  | cons r responses ih =>
      obtain ⟨⟨d₁, now⟩, hnow, h⟩ := Option.bind_eq_some_iff.mp h
      obtain ⟨⟨d₂, later⟩, hlater, h⟩ := Option.bind_eq_some_iff.mp h
      injection h with h
      injection h with hd hresults
      subst hd hresults
      rw [List.map_cons, List.nodup_cons] at hnodup
      obtain ⟨hfirst, hother⟩ := responds_respond hnow
      have hrest := ih hnodup.2 hlater
      -- the responses behind it find their tasks as they were
      have hends : ∀ r' ∈ responses, d₁.Ends stop r' ↔ d.Ends stop r' := fun r' hr' => by
        have hne : r'.uid ≠ r.uid := fun heq => hnodup.1 (heq ▸ List.mem_map_of_mem hr')
        rw [Ends, Ends, searched, searched, (hother r'.uid hne).1, (hother r'.uid hne).2]
      have hended : ∀ uid, (r.uid = uid ∧ d.Ends stop r)
          ∨ (∃ r' ∈ responses, r'.uid = uid ∧ d₁.Ends stop r')
          ↔ ∃ r' ∈ r :: responses, r'.uid = uid ∧ d.Ends stop r' := fun uid => by
        simp only [List.mem_cons, or_and_right, exists_or, exists_eq_left]
        refine or_congr_right (exists_congr fun r' => and_congr_right fun hr' => ?_)
        rw [hends r' hr']
      refine ⟨hrest.activeTasks.trans hfirst.activeTasks, hrest.inserted.trans hfirst.inserted,
        hrest.decoded.trans hfirst.decoded, fun uid => ?_, fun uid => ?_⟩
      · rw [hrest.gen, hfirst.gen, and_assoc, ← not_or, hended]
      · rw [← hended, ← hfirst.results, ← hrest.results]
        constructor
        · intro ⟨result, hmem, h⟩
          exact (List.mem_append.mp hmem).imp (⟨result, ·, h⟩) (⟨result, ·, h⟩)
        · rintro (⟨result, hmem, h⟩ | ⟨result, hmem, h⟩)
          · exact ⟨result, List.mem_append_left _ hmem, h⟩
          · exact ⟨result, List.mem_append_right _ hmem, h⟩

/-! ## Cancellations -/

theorem mem_uidsToCancel :
    uid ∈ d.uidsToCancel ↔ ∃ t, d.engine.activeTasks.get? uid = some t ∧ d.engine.shouldCancel t = true := by
  rw [uidsToCancel, List.mem_map]
  constructor
  · rintro ⟨⟨uid', t⟩, hmem, rfl⟩
    rw [List.mem_filter] at hmem
    exact ⟨t, Dict.mem_entries.1 hmem.1, hmem.2⟩
  · exact fun ⟨t, hget, hcancel⟩ =>
      ⟨(uid, t), List.mem_filter.mpr ⟨Dict.mem_entries.2 hget, hcancel⟩, rfl⟩

/-- What leaves the slots in a step: what ended below, what ended above, and what is cancelled. -/
structure Leaves (d d' : Decoding) (below ended cancelled : Nat → Prop) : Prop where
  inserted : d'.engine.gen.inserted = d.engine.gen.inserted
  sublist : d'.decoded.Sublist d.decoded
  decoded : ∀ uid, uid ∈ d'.decoded ↔ uid ∈ d.decoded ∧ ¬ below uid ∧ ¬ cancelled uid
  gen : ∀ uid, uid ∈ d'.engine.gen.activeTasks.keys
    ↔ uid ∈ d.engine.gen.activeTasks.keys ∧ ¬ ended uid ∧ ¬ cancelled uid
  engine : ∀ uid, uid ∈ d'.engine.activeTasks.keys
    ↔ uid ∈ d.engine.activeTasks.keys ∧ ¬ ended uid ∧ ¬ cancelled uid
  below_ended : ∀ uid ∈ d.engine.gen.activeTasks.keys, below uid → ended uid
  apart : ∀ uid, ended uid → ¬ cancelled uid

theorem uidsToCancel_eq_nil (h : d.engine.cancelledTasks = []) : d.uidsToCancel = [] := by
  refine List.eq_nil_iff_forall_not_mem.mpr fun uid hmem => ?_
  obtain ⟨t, -, hcancel⟩ := mem_uidsToCancel.1 hmem
  rw [Agreements.shouldCancel, h] at hcancel
  cases hcancel

theorem mem_keys_engine_applyCancellations : uid ∈ d.applyCancellations.engine.activeTasks.keys
    ↔ uid ∈ d.engine.activeTasks.keys ∧ uid ∉ d.uidsToCancel := by
  show uid ∈ (BatchGenerator.applyCancellations d.engine).1.activeTasks.keys ↔ _
  rw [BatchGenerator.applyCancellations]
  split
  · next h =>
    rw [uidsToCancel_eq_nil h]
    exact (and_iff_left List.not_mem_nil).symm
  · show uid ∈ (d.engine.activeTasks.filter fun _ t => !d.engine.shouldCancel t).keys ↔ _
    rw [mem_uidsToCancel, Dict.mem_keys, Dict.mem_keys, Dict.get?_filter]
    cases hget : d.engine.activeTasks.get? uid with
    | none => simp
    | some t => cases hcancel : d.engine.shouldCancel t <;> simp [Option.filter, hcancel]

theorem mem_keys_gen_applyCancellations : uid ∈ d.applyCancellations.engine.gen.activeTasks.keys
    ↔ uid ∈ d.engine.gen.activeTasks.keys ∧ uid ∉ d.uidsToCancel := by
  show uid ∈ (BatchGenerator.applyCancellations d.engine).1.gen.activeTasks.keys ↔ _
  rw [BatchGenerator.applyCancellations]
  split
  · next h =>
    rw [uidsToCancel_eq_nil h]
    exact (and_iff_left List.not_mem_nil).symm
  · show uid ∈ (d.uidsToCancel.foldl Dict.erase d.engine.gen.activeTasks).keys ↔ _
    rw [Dict.mem_keys, Dict.mem_keys, Dict.get?_foldl_erase]
    split
    · next h => exact iff_of_false Bool.false_ne_true fun hnot => hnot.2 h
    · next h => exact (and_iff_left h).symm

theorem leaves_applyCancellations (d : Decoding) :
    Leaves d d.applyCancellations (fun _ => False) (fun _ => False) (· ∈ d.uidsToCancel) := by
  refine ⟨?_, List.filter_sublist, fun uid => ?_, fun uid => ?_, fun uid => ?_, fun _ _ h => h,
    fun _ h => h.elim⟩
  · exact (BatchGenerator.applyCancellations_spec d.engine).inserted
  · show uid ∈ d.decoded.filter _ ↔ _
    rw [List.mem_filter, decide_eq_true_iff, and_iff_right (not_false : ¬ False)]
  · rw [mem_keys_gen_applyCancellations, and_iff_right (not_false : ¬ False)]
  · rw [mem_keys_engine_applyCancellations, and_iff_right (not_false : ¬ False)]

/-! ## The rest of a step -/

theorem isSome_trimmed {stops : List Text} {text : Text} {out : TokenText} :
    (trimmed stops text out).finishReason.isSome
      ↔ out.finishReason.isSome ∨ ∃ s ∈ stops, s <:+: text := by
  rw [trimmed]
  split
  · next hnone =>
    rw [List.findSome?_eq_none_iff] at hnone
    refine (or_iff_left ?_).symm
    intro ⟨s, hs, hinfix⟩
    exact Lib.cut_eq_none_iff.1 (hnone s hs) hinfix
  · next hsome =>
    obtain ⟨s, hs, hcut⟩ := List.exists_of_findSome?_eq_some hsome
    refine iff_of_true rfl (.inr ⟨s, hs, Classical.not_not.mp fun hnot => ?_⟩)
    rw [Lib.cut_eq_none_iff.2 hnot] at hcut
    exact nomatch hcut

/-- The generator below finishes the sequence. -/
def EndsNext (responses : List DecodeResponse) (uid : Nat) : Prop :=
  ∃ r ∈ responses, r.uid = uid ∧ r.out.finishReason.isSome = true

/-- A task ends. -/
def EndsAbove (stop : TaskId → Stop) (d : Decoding) (responses : List DecodeResponse) (uid : Nat) :
    Prop :=
  ∃ r ∈ responses, r.uid = uid ∧ d.Ends stop r

theorem leaves_generate (hnodup : (responses.map (·.uid)).Nodup)
    (h : d.generate stop responses = some d') :
    ∃ cancelled, Leaves d d' (EndsNext responses) (EndsAbove stop d responses) cancelled := by
  obtain ⟨⟨d₁, results⟩, hresponds, rfl⟩ := Option.map_eq_some_iff.mp h
  have hfirst := responds_respondAll hnodup hresponds
  let d₂ : Decoding := { d₁ with engine := { d₁.engine with
    activeTasks := (BatchGenerator.outputs results d₁.engine.activeTasks).1 } }
  have hlast := leaves_applyCancellations d₂
  have hengine : ∀ uid, uid ∈ d₂.engine.activeTasks.keys
      ↔ uid ∈ d.engine.activeTasks.keys ∧ ¬ EndsAbove stop d responses uid := fun uid => by
    show uid ∈ (BatchGenerator.outputs results d₁.engine.activeTasks).1.keys ↔ _
    rw [BatchGenerator.mem_keys_outputs, hfirst.activeTasks]
    refine and_congr_right fun _ => ?_
    rw [show EndsAbove stop d responses uid ↔ _ from (hfirst.results uid).symm]
    simp
  refine ⟨(· ∈ d₂.uidsToCancel), ?_⟩
  refine ⟨hlast.inserted.trans hfirst.inserted, ?_, fun uid => ?_, fun uid => ?_, fun uid => ?_,
    fun uid hactive => ?_, fun uid hended hcancelled => ?_⟩
  · refine hlast.sublist.trans ?_
    show d₁.decoded.Sublist d.decoded
    rw [hfirst.decoded]
    exact List.filter_sublist
  · rw [hlast.decoded, and_iff_right (not_false : ¬ False), ← and_assoc]
    refine and_congr_left fun _ => ?_
    show uid ∈ d₁.decoded ↔ _
    rw [hfirst.decoded]
    show uid ∈ d.decoded.filter _ ↔ _
    simp [EndsNext]
  · show uid ∈ d₂.applyCancellations.engine.gen.activeTasks.keys ↔ _
    rw [mem_keys_gen_applyCancellations, ← and_assoc]
    exact and_congr_left fun _ => hfirst.gen uid
  · show uid ∈ d₂.applyCancellations.engine.activeTasks.keys ↔ _
    rw [mem_keys_engine_applyCancellations, ← and_assoc]
    exact and_congr_left fun _ => hengine uid
  · intro ⟨r, hr, huid, hfinish⟩
    obtain ⟨task, htask⟩ := Option.isSome_iff_exists.mp (Dict.mem_keys.1 hactive)
    exact ⟨r, hr, huid, task, huid ▸ htask, isSome_trimmed.2 (.inl hfinish)⟩
  · obtain ⟨t, hget, -⟩ := mem_uidsToCancel.1 hcancelled
    exact ((hengine uid).mp (Dict.mem_keys.2 (by rw [hget]; rfl))).2 hended

/-! ## What holds in every run -/

/-- The maps have the same keys, all of them are decoded, and there are not too many. -/
structure Sound (maxConcurrentRequests : Nat) (d : Decoding) : Prop where
  gen : ∀ uid, uid ∈ d.engine.gen.activeTasks.keys ↔ uid ∈ d.engine.activeTasks.keys
  decoded : ∀ uid ∈ d.engine.activeTasks.keys, uid ∈ d.decoded
  nodup : d.decoded.Nodup
  fresh : ∀ uid ∈ d.decoded, uid < d.engine.gen.inserted
  bounded : d.engine.activeTasks.keys.length ≤ maxConcurrentRequests

/-- Nothing else is decoded. -/
def NoLeak (d : Decoding) : Prop := ∀ uid ∈ d.decoded, uid ∈ d.engine.activeTasks.keys

variable {maxConcurrentRequests : Nat}

theorem exact_iff (h : Sound maxConcurrentRequests d) : Exact maxConcurrentRequests d ↔ d.NoLeak := by
  refine ⟨fun hexact uid hmem => (hexact.engine uid).mp hmem, fun hleak => ?_⟩
  have hengine : ∀ uid, uid ∈ d.decoded ↔ uid ∈ d.engine.activeTasks.keys :=
    fun uid => ⟨hleak uid, h.decoded uid⟩
  refine ⟨fun uid => (hengine uid).trans (h.gen uid).symm, hengine, ?_, fun hnil => ?_⟩
  · exact (List.subperm_of_subset h.nodup hleak).length_le.trans h.bounded
  · have hdecoded : d.decoded = [] := List.eq_nil_iff_forall_not_mem.mpr fun uid hmem => by
      have hkey := hleak uid hmem
      rw [hnil] at hkey
      exact absurd hkey List.not_mem_nil
    have hgen : d.engine.gen.activeTasks.keys = [] :=
      List.eq_nil_iff_forall_not_mem.mpr fun uid hmem => by
        have hkey := (h.gen uid).mp hmem
        rw [hnil] at hkey
        exact absurd hkey List.not_mem_nil
    have hentries : d.engine.gen.activeTasks.entries = [] := List.map_eq_nil_iff.mp hgen
    simp [hasWork, hdecoded, hentries]

/-- Nothing happens to the slots. -/
structure Still (d d' : Decoding) : Prop where
  gen : d'.engine.gen = d.engine.gen
  engine : d'.engine.activeTasks = d.engine.activeTasks
  decoded : d'.decoded = d.decoded

/-- A task gets a slot. -/
structure Inserts (maxConcurrentRequests : Nat) (d d' : Decoding) : Prop where
  inserted : d'.engine.gen.inserted = d.engine.gen.inserted + 1
  gen : ∀ uid, uid ∈ d'.engine.gen.activeTasks.keys
    ↔ uid = d.engine.gen.inserted ∨ uid ∈ d.engine.gen.activeTasks.keys
  engine : ∀ uid, uid ∈ d'.engine.activeTasks.keys
    ↔ uid = d.engine.gen.inserted ∨ uid ∈ d.engine.activeTasks.keys
  decoded : d'.decoded = d.decoded ++ [d.engine.gen.inserted]
  room : d.engine.activeTasks.keys.length < maxConcurrentRequests

theorem Sound.still (h : Sound maxConcurrentRequests d) (hs : Still d d') :
    Sound maxConcurrentRequests d' := by
  obtain ⟨hgen, hengine, hdecoded⟩ := hs
  refine ⟨?_, ?_, ?_, ?_, ?_⟩
  · rw [hgen, hengine]
    exact h.gen
  · rw [hengine, hdecoded]
    exact h.decoded
  · rw [hdecoded]
    exact h.nodup
  · rw [hgen, hdecoded]
    exact h.fresh
  · rw [hengine]
    exact h.bounded

theorem Sound.inserts (h : Sound maxConcurrentRequests d) (hi : Inserts maxConcurrentRequests d d') :
    Sound maxConcurrentRequests d' := by
  have hnew : d.engine.gen.inserted ∉ d.decoded := fun hmem => Nat.lt_irrefl _ (h.fresh _ hmem)
  refine ⟨fun uid => ?_, fun uid hmem => ?_, ?_, fun uid hmem => ?_, ?_⟩
  · rw [hi.gen, hi.engine, h.gen]
  · rw [hi.decoded, List.mem_append, List.mem_singleton]
    exact ((hi.engine uid).mp hmem).symm.imp_left (h.decoded uid)
  · rw [hi.decoded, List.nodup_append]
    refine ⟨h.nodup, List.nodup_singleton _, fun a ha b hb hab => ?_⟩
    rw [List.mem_singleton] at hb
    exact hnew (hb ▸ hab ▸ ha)
  · rw [hi.decoded, List.mem_append, List.mem_singleton] at hmem
    rw [hi.inserted]
    obtain hold | rfl := hmem
    · exact Nat.lt_succ_of_lt (h.fresh uid hold)
    · exact Nat.lt_succ_self _
  · have hsub : ∀ uid ∈ d'.engine.activeTasks.keys,
        uid ∈ d.engine.gen.inserted :: d.engine.activeTasks.keys := fun uid hmem =>
      List.mem_cons.mpr ((hi.engine uid).mp hmem)
    exact (List.subperm_of_subset d'.engine.activeTasks.nodup hsub).length_le.trans hi.room

variable {below ended cancelled : Nat → Prop}

theorem Sound.leaves (h : Sound maxConcurrentRequests d)
    (hl : Leaves d d' below ended cancelled) : Sound maxConcurrentRequests d' := by
  refine ⟨fun uid => ?_, fun uid hmem => ?_, hl.sublist.nodup h.nodup, fun uid hmem => ?_, ?_⟩
  · rw [hl.gen, hl.engine, h.gen]
  · -- what ends below has ended above
    obtain ⟨hactive, hended, hcancelled⟩ := (hl.engine uid).mp hmem
    refine (hl.decoded uid).mpr ⟨h.decoded uid hactive, fun hbelow => ?_, hcancelled⟩
    exact hended (hl.below_ended uid ((h.gen uid).mpr hactive) hbelow)
  · rw [hl.inserted]
    exact h.fresh uid ((hl.decoded uid).mp hmem).1
  · have hsub : ∀ uid ∈ d'.engine.activeTasks.keys, uid ∈ d.engine.activeTasks.keys :=
      fun uid hmem => ((hl.engine uid).mp hmem).1
    exact (List.subperm_of_subset d'.engine.activeTasks.nodup hsub).length_le.trans h.bounded

/-- Nothing is left behind exactly if everything that ends above ends below. -/
theorem noLeak_leaves (h : d.NoLeak)
    (hl : Leaves d d' below ended cancelled) :
    d'.NoLeak ↔ ∀ uid ∈ d.decoded, ended uid → below uid := by
  constructor
  · intro hleak uid hmem hended
    refine Classical.byContradiction fun hbelow => ?_
    have hdecoded := (hl.decoded uid).mpr ⟨hmem, hbelow, hl.apart uid hended⟩
    exact ((hl.engine uid).mp (hleak uid hdecoded)).2.1 hended
  · intro hends uid hmem
    obtain ⟨hdecoded, hbelow, hcancelled⟩ := (hl.decoded uid).mp hmem
    exact (hl.engine uid).mpr
      ⟨h uid hdecoded, fun hended => hbelow (hends uid hdecoded hended), hcancelled⟩

/-! ## Every step -/

theorem Leaves.returned (h : Leaves d d' below ended cancelled) :
    Leaves d { d' with submitting := false } below ended cancelled :=
  ⟨h.inserted, h.sublist, h.decoded, h.gen, h.engine, h.below_ended, h.apart⟩

theorem still_agree {e : BatchGenerator} {p : Rank Agreements} {others : Others}
    (h : d.engine.agree p others = some e) : e.gen = d.engine.gen ∧ e.activeTasks = d.engine.activeTasks := by
  obtain ⟨a, -, rfl⟩ := Option.map_eq_some_iff.mp h
  exact ⟨rfl, rfl⟩

theorem inserts_activate (e : BatchGenerator) (task : TaskId) :
    (e.activate task).gen.inserted = e.gen.inserted + 1
      ∧ (∀ uid, uid ∈ (e.activate task).gen.activeTasks.keys
        ↔ uid = e.gen.inserted ∨ uid ∈ e.gen.activeTasks.keys)
      ∧ ∀ uid, uid ∈ (e.activate task).activeTasks.keys
        ↔ uid = e.gen.inserted ∨ uid ∈ e.activeTasks.keys :=
  ⟨rfl, fun _ => Dict.mem_keys_set, fun _ => Dict.mem_keys_set⟩

variable {a : DecodeAction}

variable {cfg : DecodeConfig}

/-- **What a step does to the slots.** -/
theorem step_cases (h : Decoding.step cfg d a = some d') :
    (Still d d' ∧ (∀ responses, a ≠ .generate responses))
    ∨ (Inserts cfg.maxConcurrentRequests d d' ∧ ∀ responses, a ≠ .generate responses)
    ∨ (∃ cancelled, Leaves d d' (fun _ => False) (fun _ => False) cancelled
        ∧ ∀ responses, a ≠ .generate responses)
    ∨ ∃ responses cancelled, a = .generate responses ∧ (responses.map (·.uid)).Nodup
        ∧ (∀ r ∈ responses, r.uid ∈ d.decoded)
        ∧ Leaves d d' (EndsNext responses) (EndsAbove cfg.stop d responses) cancelled := by
  cases a with
  | submit taskId =>
      rw [step] at h
      split at h
      · exact nomatch h
      · injection h with h
        subst h
        exact .inl ⟨⟨rfl, rfl, rfl⟩, fun _ h => nomatch h⟩
  | cancel taskIds =>
      injection h with h
      subst h
      exact .inl ⟨⟨rfl, rfl, rfl⟩, fun _ h => nomatch h⟩
  | agreeOnTasks others =>
      rw [step] at h
      split at h
      · exact nomatch h
      · split at h
        · obtain ⟨e, he, rfl⟩ := Option.map_eq_some_iff.mp h
          obtain ⟨hgen, hengine⟩ := still_agree he
          exact .inl ⟨⟨hgen, hengine, rfl⟩, fun _ h => nomatch h⟩
        · injection h with h
          subst h
          exact .inl ⟨⟨rfl, rfl, rfl⟩, fun _ h => nomatch h⟩
  | start progress =>
      rw [step] at h
      split at h
      · exact nomatch h
      · next task queue _ =>
        split at h
        · next hstarts =>
          rw [Bool.and_eq_true, starts, Bool.and_eq_true, decide_eq_true_eq] at hstarts
          obtain ⟨⟨a, prefilled⟩, -, rfl⟩ := Option.map_eq_some_iff.mp h
          cases prefilled with
          | false => exact .inl ⟨⟨rfl, rfl, rfl⟩, fun _ h => nomatch h⟩
          | true =>
              -- the number of the sequence is the next one
              obtain ⟨hinserted, hgen, hengine⟩ := inserts_activate { d.engine with toAgreements := a } task
              refine .inr (.inl ⟨⟨hinserted, hgen, hengine, rfl, ?_⟩, fun _ h => nomatch h⟩)
              rw [Dict.keys, List.length_map]
              exact of_decide_eq_true hstarts.2.2
        · exact nomatch h
  | generate responses =>
      rw [step] at h
      split at h
      · next hguard =>
        simp only [Bool.and_eq_true, decide_eq_true_eq, List.all_eq_true] at hguard
        obtain ⟨⟨-, hnodup⟩, hdecoded⟩ := hguard
        obtain ⟨d₁, hd₁, rfl⟩ := Option.map_eq_some_iff.mp h
        obtain ⟨cancelled, hleaves⟩ := leaves_generate hnodup hd₁
        exact .inr (.inr (.inr ⟨responses, cancelled, rfl, hnodup, hdecoded, hleaves.returned⟩))
      · exact nomatch h
  | noWork =>
      rw [step] at h
      split at h
      · injection h with h
        subst h
        exact .inr (.inr (.inl ⟨_, (leaves_applyCancellations d).returned, fun _ h => nomatch h⟩))
      · exact nomatch h

theorem sound_step (h : Sound cfg.maxConcurrentRequests d)
    (hs : Decoding.step cfg d a = some d') : Sound cfg.maxConcurrentRequests d' := by
  obtain ⟨hstill, -⟩ | ⟨hinserts, -⟩ | ⟨cancelled, hleaves, -⟩ | ⟨_, cancelled, -, -, -, hleaves⟩ :=
    step_cases hs
  · exact h.still hstill
  · exact h.inserts hinserts
  · exact h.leaves hleaves
  · exact h.leaves hleaves

theorem endsBelow_of_ne (ha : ∀ responses, a ≠ .generate responses) :
    EndsBelow stop d a := by
  cases a with
  | generate responses => exact absurd rfl (ha responses)
  | _ => trivial

/-- The tasks that end are finished below, when no stop sequence ends one of them alone. -/
theorem endsBelow_iff (hnodup : (responses.map (·.uid)).Nodup) (hdecoded : ∀ r ∈ responses, r.uid ∈ d.decoded) :
    (∀ uid ∈ d.decoded, EndsAbove stop d responses uid → EndsNext responses uid)
      ↔ EndsBelow stop d (.generate responses) := by
  constructor
  · intro h r hr hnone task htask s hs hinfix
    obtain ⟨r', hr', huid, hfinish⟩ := h r.uid (hdecoded r hr)
      ⟨r, hr, rfl, task, htask, isSome_trimmed.2 (.inr ⟨s, hs, hinfix⟩)⟩
    -- there is one response for the sequence
    rw [List.inj_on_of_nodup_map hnodup hr' hr huid, hnone] at hfinish
    exact nomatch hfinish
  · intro h uid hmem ⟨r, hr, huid, task, htask, hend⟩
    refine ⟨r, hr, huid, ?_⟩
    cases hfinish : r.out.finishReason with
    | some reason => rfl
    | none =>
        obtain hsome | ⟨s, hs, hinfix⟩ := isSome_trimmed.1 hend
        · rw [hfinish] at hsome
          exact nomatch hsome
        · exact absurd hinfix (h r hr hfinish task htask s hs)

theorem noLeak_step (hleak : d.NoLeak)
    (hs : Decoding.step cfg d a = some d') :
    d'.NoLeak ↔ EndsBelow cfg.stop d a := by
  obtain ⟨hstill, ha⟩ | ⟨hinserts, ha⟩ | ⟨cancelled, hleaves, ha⟩
    | ⟨responses, cancelled, rfl, hnodup, hdecoded, hleaves⟩ := step_cases hs
  · refine iff_of_true ?_ (endsBelow_of_ne ha)
    rw [NoLeak, hstill.decoded, hstill.engine]
    exact hleak
  · refine iff_of_true (fun uid hmem => ?_) (endsBelow_of_ne ha)
    rw [hinserts.decoded, List.mem_append, List.mem_singleton] at hmem
    exact (hinserts.engine uid).mpr (hmem.symm.imp_right (hleak uid))
  · refine iff_of_true ?_ (endsBelow_of_ne ha)
    exact (noLeak_leaves hleak hleaves).mpr fun _ _ hended => hended.elim
  · exact (noLeak_leaves hleak hleaves).trans (endsBelow_iff hnodup hdecoded)

end Decoding

/-! ## Every run -/

namespace DecodeConfig

theorem sound_init (cfg : DecodeConfig) : Decoding.Sound cfg.maxConcurrentRequests cfg.machine.init :=
  ⟨fun _ => Iff.rfl, fun _ h => absurd h List.not_mem_nil, List.nodup_nil,
    fun _ h => absurd h List.not_mem_nil, Nat.zero_le _⟩

/-- A run has exact slots throughout exactly if no stop sequence ends a task that the generator below
goes on with. -/
theorem exact_throughout_iff (cfg : DecodeConfig) (actions : List DecodeAction) (d : Decoding)
    (h : cfg.machine.run cfg.machine.init actions = some d) :
    (∀ k d, cfg.machine.run cfg.machine.init (actions.take k) = some d →
        d.Exact cfg.maxConcurrentRequests)
      ↔ ∀ k a d, actions[k]? = some a → cfg.machine.run cfg.machine.init (actions.take k) = some d →
        d.EndsBelow cfg.stop a := by
  have hsound := cfg.sound_init
  refine Machine.throughout_iff_of_invariant (B := Decoding.Sound cfg.maxConcurrentRequests)
    (fun s a s' hs hstep => Decoding.sound_step hs hstep) (fun s a s' hs hexact hstep => ?_) hsound
    ((Decoding.exact_iff hsound).mpr fun _ h => absurd h List.not_mem_nil) h
  rw [Decoding.exact_iff (Decoding.sound_step hs hstep)]
  exact Decoding.noLeak_step ((Decoding.exact_iff hs).mp hexact) hstep

/-! ## Two small runs -/

/-- Requests that end with a sentence. -/
def sentence : DecodeConfig where
  stop _ := .one (Text.of ".")

/-- A request that ends with its first token. -/
def oneToken (text : Text) (finishReason : Option FinishReason) : List DecodeAction :=
  [.submit 1, .agreeOnTasks [], .start [], .generate [⟨0, ⟨text, 7, finishReason⟩, 1, []⟩]]

theorem exact_throughout_iff_endToken : ∃ d,
    sentence.machine.run sentence.machine.init (oneToken [] (some .stop)) = some d
      ∧ ((∀ k d, sentence.machine.run sentence.machine.init ((oneToken [] (some .stop)).take k) = some d →
          d.Exact sentence.maxConcurrentRequests)
        ↔ ∀ k a d, (oneToken [] (some .stop))[k]? = some a →
          sentence.machine.run sentence.machine.init ((oneToken [] (some .stop)).take k) = some d →
          d.EndsBelow sentence.stop a) := by
  have hrun : (sentence.machine.run sentence.machine.init (oneToken [] (some .stop))).isSome = true := by
    decide +kernel
  obtain ⟨d, hd⟩ := Option.isSome_iff_exists.mp hrun
  exact ⟨d, hd, exact_throughout_iff sentence _ d hd⟩

/-- The first token is a period: the task has ended, and the generator below goes on. -/
theorem not_forall_exact : ¬ ∀ (cfg : DecodeConfig) (d : Decoding), cfg.machine.Reachable d →
    d.Exact cfg.maxConcurrentRequests := by
  intro h
  have hrun : (sentence.machine.run sentence.machine.init (oneToken (Text.of ".") none)).map
      (fun d => (d.decoded, d.engine.activeTasks.keys)) = some ([0], []) := by
    decide +kernel
  obtain ⟨d, hd, hslots⟩ := Option.map_eq_some_iff.mp hrun
  injection hslots with hdecoded hkeys
  have hexact := h sentence d (Machine.reachable_of_run hd)
  have hkey := (hexact.engine 0).mp (by rw [hdecoded]; exact List.mem_cons_self)
  rw [hkeys] at hkey
  exact absurd hkey List.not_mem_nil

end DecodeConfig

end Exo
