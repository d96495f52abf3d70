import Exo.Worker.StopSequences

/-!
# When the text is cut at a stop sequence

What is looked back at is enough: an occurrence that is not found yet ends in the new token. So what
is emitted is what would be emitted with all of the text at hand, and that is the text in front of an
occurrence as long as the occurrence begins in the token it is found with.
-/

namespace Exo.StopSequences

open Lib

variable {stops : List Text} {stop said accumulated text : Text} {out : TokenText}
  {outs : List TokenText}

/-! ## Looking back -/

/-- All stop sequences that can be found later can be found in what is kept. -/
structure Keeps (stops : List Text) (said accumulated : Text) : Prop where
  suffix : accumulated <:+ said
  enough : accumulated = said ∨
    ∀ stop ∈ stops, ¬ stop <:+: said ∧ stop.length ≤ accumulated.length

theorem Keeps.nil : Keeps stops [] [] := ⟨List.suffix_refl _, .inl rfl⟩

theorem length_le_maxStopLen (h : stop ∈ stops) : stop.length ≤ maxStopLen stops :=
  List.le_max?_getD_of_mem (List.mem_map_of_mem h)

theorem findSome?_cut_eq_none_iff : stops.findSome? (cut · text) = none ↔
    ∀ stop ∈ stops, ¬ stop <:+: text := by
  rw [List.findSome?_eq_none_iff]
  exact forall₂_congr fun stop _ => cut_eq_none_iff

/-- Where no stop sequence is found, what is kept is enough for the next token. -/
theorem Keeps.next (h : Keeps stops said accumulated)
    (hnone : ∀ stop ∈ stops, ¬ stop <:+: said ++ text) :
    Keeps stops (said ++ text) (lookBack (maxStopLen stops) (accumulated ++ text)) := by
  obtain ⟨front, rfl⟩ := h.suffix
  rw [lookBack]
  split
  · rename_i hlong
    refine ⟨(List.drop_suffix _ _).trans ⟨front, by simp⟩, .inr fun stop hstop => ⟨hnone stop hstop, ?_⟩⟩
    have hle := length_le_maxStopLen hstop
    rw [List.length_drop]
    omega
  · refine ⟨⟨front, by simp⟩, ?_⟩
    rcases h.enough with heq | henough
    · exact .inl (by rw [← heq])
    · refine .inr fun stop hstop => ⟨hnone stop hstop, ?_⟩
      have hle := (henough stop hstop).2
      rw [List.length_append]
      omega

/-- In front of what is kept no occurrence begins. -/
theorem cut_said (h : Keeps stops said accumulated) {front : Text} (hfront : said = front ++ accumulated)
    (hstop : stop ∈ stops) (text : Text) :
    cut stop (said ++ text) = (cut stop (accumulated ++ text)).map fun p => (front ++ p.1, p.2) := by
  rcases h.enough with heq | henough
  · have hnil : front = [] := by
      rw [heq] at hfront
      exact List.self_eq_append_left.mp hfront
    subst hnil
    rw [heq]
    simp
  · obtain ⟨hnone, hlen⟩ := henough stop hstop
    rw [hfront, List.append_assoc]
    refine cut_append_of_free fun u hu _ hp => hnone ?_
    rw [← List.append_assoc] at hp
    have hin : stop <+: u ++ accumulated :=
      List.prefix_of_prefix_length_le hp (List.prefix_append _ _) (by
        rw [List.length_append]
        omega)
    rw [hfront]
    obtain ⟨before, rfl⟩ := hu
    exact hin.isInfix.trans ⟨before, [], by simp⟩

theorem findSome?_said (h : Keeps stops said accumulated) {front : Text}
    (hfront : said = front ++ accumulated) (text : Text) :
    stops.findSome? (cut · (said ++ text)) =
      (stops.findSome? (cut · (accumulated ++ text))).map fun p => (front ++ p.1, p.2) := by
  have hall : ∀ stop ∈ stops, cut stop (said ++ text)
      = (cut stop (accumulated ++ text)).map fun p => (front ++ p.1, p.2) :=
    fun stop hstop => cut_said h hfront hstop text
  clear h
  induction stops with
  | nil => rfl
  | cons stop stops ih =>
      rw [List.findSome?_cons, List.findSome?_cons, hall stop List.mem_cons_self]
      cases cut stop (accumulated ++ text) with
      | none => exact ih fun stop' hstop' => hall stop' (List.mem_cons_of_mem _ hstop')
      | some p => rfl

/-- What is emitted with a token does not depend on how much is kept. -/
theorem trimmed_said (h : Keeps stops said accumulated) (out : TokenText) :
    trimmed stops (accumulated ++ out.text) out = trimmed stops (said ++ out.text) out := by
  obtain ⟨front, rfl⟩ := h.suffix
  rw [trimmed, trimmed, findSome?_said h rfl]
  cases stops.findSome? (cut · (accumulated ++ out.text)) with
  | none => rfl
  | some p =>
      have hdrop : (front ++ p.1).drop (front ++ accumulated).length
          = p.1.drop accumulated.length := by
        rw [List.length_append, ← List.drop_drop, List.drop_left]
      simp only [Option.map_some, List.length_append, Nat.add_sub_cancel] at hdrop ⊢
      rw [hdrop]

/-! ## With all of the text at hand -/

/-- What is emitted if nothing is forgotten. -/
def streamed (stops : List Text) : Text → List TokenText → List TokenText
  | _, [] => []
  | said, out :: outs =>
    let emitted := trimmed stops (said ++ out.text) out
    if emitted.finishReason.isSome then [emitted]
    else emitted :: streamed stops (said ++ out.text) outs

theorem trimmed_none (h : stops.findSome? (cut · text) = none) : trimmed stops text out = out := by
  rw [trimmed, h]

variable {before behind : Text}

theorem trimmed_some
    (h : stops.findSome? (cut · (said ++ out.text)) = some (before, behind)) :
    trimmed stops (said ++ out.text) out
      = { out with text := before.drop said.length, finishReason := some .stop } := by
  rw [trimmed, h]
  simp only [List.length_append, Nat.add_sub_cancel]

/-- **Looking back is enough.** -/
theorem output_eq_streamed (h : Keeps stops said accumulated) (outs : List TokenText) :
    (mlxGenerator stops).output accumulated outs = streamed stops said outs := by
  induction outs generalizing said accumulated with
  | nil => rfl
  | cons out outs ih =>
      have hstep : (mlxGenerator stops).step accumulated out =
          ([trimmed stops (said ++ out.text) out],
            if (trimmed stops (said ++ out.text) out).finishReason.isSome then none
            else some (lookBack (maxStopLen stops) (accumulated ++ out.text))) := by
        rw [← trimmed_said h out]
        rfl
      rw [streamed]
      by_cases hfinish : (trimmed stops (said ++ out.text) out).finishReason.isSome
      · rw [if_pos hfinish] at hstep
        rw [Generator.output_leave hstep]
        simp only [if_pos hfinish]
      · rw [if_neg hfinish] at hstep
        rw [Generator.output_cons hstep]
        simp only [if_neg hfinish, List.singleton_append]
        cases hfound : stops.findSome? (cut · (said ++ out.text)) with
        | none => rw [ih (h.next (findSome?_cut_eq_none_iff.mp hfound))]
        | some p =>
            rw [trimmed_some (show _ = some (p.1, p.2) from hfound)] at hfinish
            exact absurd rfl hfinish

/-- Nothing of what was said is cut off. -/
def Clean (stops : List Text) (said : Text) : Prop := cutAny stops said = said

theorem clean_nil (stops : List Text) : Clean stops [] := rfl

theorem clean_of_none (h : stops.findSome? (cut · text) = none) : Clean stops text :=
  cutAny_of_not_infix (findSome?_cut_eq_none_iff.mp h)

/-- The first stop sequence that is found, and where. -/
theorem exists_of_found
    (h : stops.findSome? (cut · text) = some (before, behind)) :
    ∃ stop ∈ stops, cut stop text = some (before, behind) :=
  List.exists_of_findSome?_eq_some h

/-- What is said and what is emitted with a token that a stop sequence is found with. -/
theorem said_append_drop_iff (more : Text)
    (h : stops.findSome? (cut · (said ++ text)) = some (before, behind)) :
    said ++ before.drop said.length = cutAny stops (said ++ text ++ more) ↔
      said.length ≤ before.length ∧ before = cutAny stops (said ++ text ++ more) := by
  obtain ⟨stop, hstop, hcut⟩ := exists_of_found h
  have hle := length_cutAny_le hstop (cut_append hcut more)
  have hprefix : before <+: said ++ text := prefix_of_cut hcut
  by_cases hin : said.length ≤ before.length
  · have hsaid : said <+: before :=
      List.prefix_of_prefix_length_le (List.prefix_append said text) hprefix hin
    have heq : said ++ before.drop said.length = before := by
      obtain ⟨tail, rfl⟩ := hsaid
      rw [List.drop_left]
    rw [heq]
    exact (and_iff_right hin).symm
  · rw [List.drop_of_length_le (by omega), List.append_nil]
    refine iff_of_false (fun heq => ?_) fun hboth => hin hboth.1
    rw [← heq] at hle
    exact hin hle

theorem textOf_cons : textOf (out :: outs) = out.text ++ textOf outs := rfl

theorem generated_cons (out : TokenText) (outs : List TokenText) :
    ∃ more, generated (out :: outs) = out :: more := by
  rw [generated]
  split
  · exact ⟨[], rfl⟩
  · exact ⟨_, rfl⟩

/-- **From what was said on,** the text is cut at the earliest occurrence exactly if every stop
sequence is found in time. -/
theorem textOf_streamed_iff (outs : List TokenText) (hclean : Clean stops said) :
    said ++ textOf (streamed stops said outs) = cutAny stops (said ++ textOf (generated outs)) ↔
      StopsInTime stops (said ++ textOf (generated outs)) said (generated outs) := by
  induction outs generalizing said with
  | nil =>
      rw [streamed, generated, StopsInTime]
      exact iff_of_true (by simpa [textOf] using hclean.symm) trivial
  | cons out outs ih =>
      cases hfound : stops.findSome? (cut · (said ++ out.text)) with
      | none =>
          have hnext := clean_of_none hfound
          rw [streamed, generated, trimmed_none hfound]
          by_cases hfinish : out.finishReason.isSome
          · simp only [if_pos hfinish, StopsInTime, hfound]
            exact iff_of_true (by simpa [textOf] using hnext.symm) trivial
          · simp only [if_neg hfinish, StopsInTime, hfound, textOf_cons, ← List.append_assoc]
            exact ih hnext
      | some p =>
          obtain ⟨before, behind⟩ := p
          obtain ⟨more, hmore⟩ := generated_cons out outs
          rw [streamed, hmore, trimmed_some hfound, StopsInTime]
          simp only [hfound, Option.isSome_some, if_true, textOf_cons, ← List.append_assoc]
          have hiff := said_append_drop_iff (textOf more) hfound
          simpa [textOf] using hiff

theorem streamed_ne_nil : streamed stops said (out :: outs) ≠ [] := by
  rw [streamed]
  split <;> exact List.cons_ne_nil _ _

/-- **Where a stop sequence occurs** generation stops for it, and where none does, for the reason
that the engine has. -/
theorem finish_streamed (last : TokenText) (h : last ∈ (streamed stops said outs).getLast?) :
    last.finishReason = if ∃ stop ∈ stops, stop <:+: said ++ textOf (generated outs) then some .stop
      else (generated outs).getLast?.bind (·.finishReason) := by
  induction outs generalizing said with
  | nil => cases h
  | cons out outs ih =>
      cases hfound : stops.findSome? (cut · (said ++ out.text)) with
      | none =>
          have hnone := findSome?_cut_eq_none_iff.mp hfound
          rw [streamed, trimmed_none hfound] at h
          rw [generated]
          by_cases hfinish : out.finishReason.isSome
          · simp only [if_pos hfinish] at h ⊢
            obtain rfl := Option.some.inj h
            rw [if_neg (by simpa [textOf] using hnone)]
            rfl
          · simp only [if_neg hfinish, textOf_cons, ← List.append_assoc] at h ⊢
            cases outs with
            | nil =>
                obtain rfl := Option.some.inj h
                rw [if_neg (by simpa [textOf, generated] using hnone)]
                rfl
            | cons out' outs =>
                obtain ⟨more, hmore⟩ := generated_cons out' outs
                rw [List.getLast?_cons_of_ne_nil (by simp [hmore])]
                rw [List.getLast?_cons_of_ne_nil streamed_ne_nil] at h
                exact ih h
      | some p =>
          obtain ⟨before, behind⟩ := p
          obtain ⟨stop, hstop, hcut⟩ := exists_of_found hfound
          rw [streamed, trimmed_some hfound] at h
          simp only [Option.isSome_some, if_true] at h
          obtain rfl := Option.some.inj h
          have hin : stop <:+: said ++ out.text := by
            by_contra hnot
            rw [cut_eq_none_iff.2 hnot] at hcut
            cases hcut
          obtain ⟨more, hmore⟩ := generated_cons out outs
          have hwhole : stop <:+: said ++ textOf (generated (out :: outs)) := by
            rw [hmore, textOf_cons, ← List.append_assoc]
            exact hin.trans (List.prefix_append _ _).isInfix
          rw [if_pos ⟨stop, hstop, hwhole⟩]
          rfl

/-! ## Many tasks at once -/

section Batch

variable {uid : Nat} {activeTasks : Dict Nat EngineTask}

/-- What a task emits from its state on, if it is active. -/
def pending (task : Option EngineTask) (outs : List TokenText) : List TokenText :=
  match task with
  | none => []
  | some task => (mlxGenerator task.stop.sequences).output task.potentialStopSequenceText outs

theorem ofTask_append (as bs : List (Nat × TokenText)) :
    ofTask uid (as ++ bs) = ofTask uid as ++ ofTask uid bs := List.filterMap_append

variable (activeTasks) in
/-- A response to another task changes nothing here. -/
theorem respond_other (response : Nat × TokenText) (h : response.1 ≠ uid) :
    (ExoBatchGenerator.respond activeTasks response).1.get? uid = activeTasks.get? uid ∧
      ofTask uid (ExoBatchGenerator.respond activeTasks response).2 = [] := by
  rw [ExoBatchGenerator.respond]
  cases activeTasks.get? response.1 with
  | none => exact ⟨rfl, rfl⟩
  | some task =>
      simp only
      split
      · exact ⟨Dict.get?_erase_ne _ (Ne.symm h), by simp [ofTask, h]⟩
      · exact ⟨Dict.get?_set_ne _ _ (Ne.symm h), by simp [ofTask, h]⟩

/-- A response to the task is one step of the other generator. -/
theorem respond_self (out : TokenText) (outs : List TokenText) :
    ofTask uid (ExoBatchGenerator.respond activeTasks (uid, out)).2 ++
        pending ((ExoBatchGenerator.respond activeTasks (uid, out)).1.get? uid) outs
      = pending (activeTasks.get? uid) (out :: outs) := by
  rw [ExoBatchGenerator.respond]
  cases hactive : activeTasks.get? uid with
  | none =>
      simp only [hactive, pending]
      rfl
  | some task =>
      simp only
      by_cases hfinish : (trimmed task.stop.sequences
          (task.potentialStopSequenceText ++ out.text) out).finishReason.isSome
      · rw [if_pos hfinish]
        have hstep : (mlxGenerator task.stop.sequences).step task.potentialStopSequenceText out
            = ([trimmed task.stop.sequences (task.potentialStopSequenceText ++ out.text) out],
              none) := by
          simp only [mlxGenerator, if_pos hfinish]
        simp only [pending, Dict.get?_erase_self, Generator.output_leave hstep]
        simp [ofTask]
      · rw [if_neg hfinish]
        have hstep : (mlxGenerator task.stop.sequences).step task.potentialStopSequenceText out
            = ([trimmed task.stop.sequences (task.potentialStopSequenceText ++ out.text) out],
              some (lookBack (maxStopLen task.stop.sequences)
                (task.potentialStopSequenceText ++ out.text))) := by
          simp only [mlxGenerator, if_neg hfinish]
        simp only [pending, Dict.get?_set_self, Generator.output_cons hstep]
        simp [ofTask]

theorem respondAll_spec (responses : List (Nat × TokenText)) (outs : List TokenText) :
    ofTask uid (ExoBatchGenerator.respondAll activeTasks responses).2 ++
        pending ((ExoBatchGenerator.respondAll activeTasks responses).1.get? uid) outs
      = pending (activeTasks.get? uid) (ofTask uid responses ++ outs) := by
  induction responses generalizing activeTasks with
  | nil => rfl
  | cons response responses ih =>
      obtain ⟨uid', out⟩ := response
      rw [ExoBatchGenerator.respondAll, ofTask_append, List.append_assoc, ih]
      by_cases h : uid' = uid
      · subst h
        rw [respond_self]
        simp [ofTask]
      · obtain ⟨hget, hnone⟩ := respond_other activeTasks (uid', out) h
        rw [hget, hnone]
        simp [ofTask, h]

/-- **The batch generator** does for each task what the other one does for its only one. -/
theorem performAll_spec {s : ExoBatchGenerator} (h : uid < s.nextUid) (calls : List Call) :
    ofTask uid (s.performAll calls).2
      = pending (s.activeTasks.get? uid) (responsesTo uid calls) := by
  induction calls generalizing s with
  | nil =>
      rw [responsesTo]
      cases hactive : s.activeTasks.get? uid <;> rfl
  | cons call calls ih =>
      rw [ExoBatchGenerator.performAll, ofTask_append]
      cases call with
      | submit stop =>
          have hnext : uid < (s.perform (.submit stop)).1.nextUid := Nat.lt_succ_of_lt h
          rw [ih hnext, responsesTo]
          have hget : (s.perform (.submit stop)).1.activeTasks.get? uid
              = s.activeTasks.get? uid := Dict.get?_set_ne _ _ (by omega)
          rw [hget]
          rfl
      | step responses =>
          rw [ih (s := (s.perform (.step responses)).1) h, responsesTo]
          exact respondAll_spec responses (responsesTo uid calls)
      | cancel uids =>
          rw [ih (s := (s.perform (.cancel uids)).1) h, responsesTo]
          have hget : (s.perform (.cancel uids)).1.activeTasks.get? uid
              = if uid ∈ uids then none else s.activeTasks.get? uid :=
            Dict.get?_foldl_erase uids s.activeTasks uid
          rw [hget]
          by_cases hmem : uid ∈ uids
          · rw [if_pos hmem, if_pos hmem]
            cases hactive : s.activeTasks.get? uid <;> rfl
          · rw [if_neg hmem, if_neg hmem]
            rfl

theorem batchEmitted_eq (before : List Call) (stop : Stop) (after : List Call) :
    batchEmitted before stop after = mlxGenerate stop (responsesTo (uidBehind before) after) := by
  rw [batchEmitted, ExoBatchGenerator.performAll, ofTask_append, performAll_spec (by exact Nat.lt_succ_self _)]
  have hget : ((ExoBatchGenerator.performAll {} before).1.perform (.submit stop)).1.activeTasks.get?
      (uidBehind before) = some { stop } := Dict.get?_set_self _ _ _
  rw [hget]
  rfl

end Batch

/-! ## Both generators -/

theorem cutAtStop_mlxGenerate_iff (stop : Stop) (outs : List TokenText) :
    CutAtStop stop.sequences (generated outs) (mlxGenerate stop outs) ↔
      StopsInTime stop.sequences (textOf (generated outs)) [] (generated outs) := by
  have hout : mlxGenerate stop outs = streamed stop.sequences [] outs :=
    output_eq_streamed .nil outs
  have htext := textOf_streamed_iff outs (clean_nil stop.sequences)
  rw [hout]
  exact ⟨fun h => htext.mp h.text, fun h => ⟨htext.mpr h, fun last hlast => finish_streamed last hlast⟩⟩

/-- **The text is cut at the earliest stop sequence** exactly if the first one found is that one, in
the token that it begins in; and both generators emit the same. -/
theorem cutAtStop_iff (stop : Stop) (before after : List Call) (outs : List TokenText) :
    (CutAtStop stop.sequences (generated (responsesTo (uidBehind before) after))
        (batchEmitted before stop after) ↔
      StopsInTime stop.sequences (textOf (generated (responsesTo (uidBehind before) after))) []
        (generated (responsesTo (uidBehind before) after))) ∧
    (CutAtStop stop.sequences (generated outs) (mlxGenerate stop outs) ↔
      StopsInTime stop.sequences (textOf (generated outs)) [] (generated outs)) ∧
    batchEmitted before stop after = mlxGenerate stop (responsesTo (uidBehind before) after) := by
  refine ⟨?_, cutAtStop_mlxGenerate_iff stop outs, batchEmitted_eq before stop after⟩
  rw [batchEmitted_eq]
  exact cutAtStop_mlxGenerate_iff stop _

/-- A stop sequence over two tokens: the first of them is with the client when it is found. -/
theorem not_forall_cutAtStop :
    ¬ ∀ (stop : Stop) (outs : List TokenText),
      CutAtStop stop.sequences (generated outs) (mlxGenerate stop outs) := by
  intro h
  have hcut := (h (.one (Text.of "ab")) [⟨Text.of "a", 0, none⟩, ⟨Text.of "b", 1, none⟩]).text
  exact absurd hcut (by decide)

end Exo.StopSequences
