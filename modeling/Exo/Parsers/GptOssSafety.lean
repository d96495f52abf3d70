import Exo.Parsers.GptOss

/-!
# When a stream of gpt-oss ends once

A call is the end of a stream, and so is the token that finishes, so no call may be complete; and
the token that finishes is yielded twice if it adds something. The one way out is that the parser
gives up behind a call, before anything else is yielded.
-/

namespace Exo.Parsers

open Lib

namespace Harmony

variable {σ : Type} {harmony : Harmony σ} {s : GptOssState σ} {stream : σ}
  {reading : HarmonyReading} {response : GenerationResponse}
  {rest : List (Option GenerationResponse)}

/-- What is yielded from a state on. -/
def yields (harmony : Harmony σ) (s : GptOssState σ)
    (responses : List (Option GenerationResponse)) : List Parsed :=
  ((gptOssGenerator harmony).output s responses).filterMap id

@[simp] theorem yields_nil : harmony.yields s [] = [] := rfl

theorem yields_failed (h : harmony.process s.stream response.token = none) :
    harmony.yields s (some response :: rest) = [] := by
  have hnext : harmony.next s (some response) = ([], none) := by simp only [next, h]
  rw [yields, Generator.output_leave hnext]
  rfl

/-- What is yielded for a token that is read. -/
def now (s : GptOssState σ) (reading : HarmonyReading) (response : GenerationResponse) :
    List Parsed :=
  if reading.currentRecipient.isSome then
    if response.finishReason.isSome then
      [.generation { response with text := (s.after reading s.stream).toolArgParts }]
    else []
  else
    (if reading.delta = [] then []
      else [.generation { response with text := reading.delta, isThinking := reading.isThinking }]) ++
      if response.finishReason.isSome then [.generation response] else []

/-- What a token does that is read, in one piece. -/
theorem next_read (h : harmony.process s.stream response.token = some (stream, reading)) :
    harmony.next s (some response) =
      (((s.called reading).map (fun call => Parsed.toolCall ⟨[call], response.usage, none⟩) ++
          now s reading response).map some,
        some (if reading.currentRecipient.isSome ∧ response.finishReason.isSome then
          { s.after reading stream with toolArgParts := [] } else s.after reading stream)) := by
  rw [next]
  simp only [h]
  unfold GptOssState.called GptOssState.after now
  cases htool : s.currentToolName with
  | none =>
      have hstays : s.leaves reading = false := by rw [GptOssState.leaves, htool, Option.isSome_none,
        Bool.false_and]
      simp only [hstays, Bool.false_eq_true, if_false]
      cases hrecipient : reading.currentRecipient with
      | none => by_cases hdelta : reading.delta = [] <;> cases hfinish : response.finishReason.isSome <;>
          simp [hdelta]
      | some recipient => cases hfinish : response.finishReason.isSome <;>
          simp [GptOssState.after, hstays, hrecipient]
  | some name =>
      by_cases heq : reading.currentRecipient = some name
      · have hstays : s.leaves reading = false := by simp [GptOssState.leaves, htool, heq]
        simp only [hstays, Bool.false_eq_true, if_false]
        cases hfinish : response.finishReason.isSome <;>
          simp [GptOssState.after, hstays, heq]
      · have hleaves : s.leaves reading = true := by simp [GptOssState.leaves, htool, heq]
        simp only [hleaves, if_true]
        cases hrecipient : reading.currentRecipient with
        | none => by_cases hdelta : reading.delta = [] <;>
            cases hfinish : response.finishReason.isSome <;> simp [hdelta]
        | some recipient => 
            rw [hrecipient] at heq
            cases hfinish : response.finishReason.isSome <;>
              simp [GptOssState.after, hleaves, hrecipient, heq]

theorem yields_read (h : harmony.process s.stream response.token = some (stream, reading))
    (hfinished : Finished (some response :: rest)) :
    harmony.yields s (some response :: rest) =
      (s.called reading).map (fun call => .toolCall ⟨[call], response.usage, none⟩) ++
        now s reading response ++ harmony.yields (s.after reading stream) rest := by
  rw [yields, Generator.output_cons (next_read h), List.filterMap_append, List.filterMap_map]
  have hid : ∀ l : List Parsed, l.filterMap (id ∘ some) = l := fun l => List.filterMap_some
  rw [hid]
  congr 1
  rcases hfinished with ⟨-, rfl⟩ | ⟨hgoes, -⟩
  · rfl
  · rw [if_neg (by simp [hgoes])]
    rfl

/-! ## Where nothing is added -/

theorem called_eq_nil_iff : s.called reading = [] ↔ s.leaves reading = false := by
  unfold GptOssState.called
  split <;> simp_all

theorem parts_of_stays (h : s.leaves reading = false) :
    (s.after reading stream).toolArgParts =
      s.toolArgParts ++ if reading.currentRecipient.isSome then reading.delta else [] := by
  simp [GptOssState.after, h]

/-- Nothing is yielded for a token, and there was nothing to say. -/
theorem now_eq_nil_iff : now s reading response = [] ↔
    response.finishReason = none ∧ (reading.currentRecipient.isSome ∨ reading.delta = []) := by
  unfold now
  cases hfinish : response.finishReason <;> cases hrecipient : reading.currentRecipient <;>
    by_cases hdelta : reading.delta = [] <;> simp [hdelta]

theorem expected_read (h : harmony.process s.stream response.token = some (stream, reading)) :
    harmony.expected s (some response :: rest) =
      (reading.said response ++ (harmony.expected (s.after reading stream) rest).1,
        s.called reading ++ (harmony.expected (s.after reading stream) rest).2) := by
  rw [expected]
  simp only [h]

variable (harmony) in
theorem quiet_iff (h : Finished rest) :
    harmony.yields s rest = [] ∧ harmony.expected s rest = ([], []) ↔
      s.toolArgParts = [] ∧ harmony.Quiet s rest := by
  induction rest generalizing s with
  | nil => exact absurd h id
  | cons x rest ih =>
      cases x with
      | none => exact ih h
      | some response =>
          cases hprocess : harmony.process s.stream response.token with
          | none =>
              rw [yields_failed hprocess, expected, Quiet]
              simp [hprocess]
          | some read =>
              obtain ⟨stream, reading⟩ := read
              rw [yields_read hprocess h, expected_read hprocess, Quiet]
              simp only [hprocess, Prod.mk.injEq, List.append_eq_nil_iff, List.map_eq_nil_iff,
                called_eq_nil_iff, now_eq_nil_iff]
              rcases h with ⟨hfinish, rfl⟩ | ⟨hgoes, hrest⟩
              · exact iff_of_false (fun hy => hfinish hy.1.1.2.1) fun hq => hfinish hq.2.2.2.1
              · have hlater := ih (s := s.after reading stream) hrest
                rw [Prod.ext_iff] at hlater
                constructor
                · rintro ⟨⟨⟨hstays, -, hnow⟩, hyields⟩, ⟨-, htext⟩, -, hcalls⟩
                  obtain ⟨hparts, hquiet⟩ := hlater.mp ⟨hyields, htext, hcalls⟩
                  rw [parts_of_stays hstays, List.append_eq_nil_iff] at hparts
                  refine ⟨hparts.1, hstays, ?_, hgoes, hquiet⟩
                  rcases hnow with hsome | hdelta
                  · simpa [hsome] using hparts.2
                  · exact hdelta
                · rintro ⟨hparts, hstays, hdelta, -, hquiet⟩
                  obtain ⟨hyields, htext, hcalls⟩ := hlater.mpr
                    ⟨by rw [parts_of_stays hstays, hparts, hdelta]; simp, hquiet⟩
                  refine ⟨⟨⟨hstays, hgoes, .inr hdelta⟩, hyields⟩, ⟨?_, htext⟩, hstays, hcalls⟩
                  simp [HarmonyReading.said, hgoes, hdelta]

/-! ## Token by token -/

theorem fits_after (h : s.Fits) : (s.after reading stream).Fits := by
  intro hnone
  have hrecipient : reading.currentRecipient = none := hnone
  rw [GptOssState.after, hrecipient]
  by_cases hleaves : s.leaves reading
  · simp [hleaves]
  · have htool : s.currentToolName = none := by
      by_contra htool
      obtain ⟨name, hname⟩ := Option.ne_none_iff_exists'.mp htool
      exact hleaves (by simp [GptOssState.leaves, hname, hrecipient])
    simp [hleaves, h htool]

/-- A call that is complete has to be the end. -/
theorem ends_leaves_iff (h : Finished (some response :: rest))
    (hprocess : harmony.process s.stream response.token = some (stream, reading))
    (hleaves : s.leaves reading = true) :
    Ends (harmony.yields s (some response :: rest))
        (harmony.expected s (some response :: rest)).1
        (harmony.expected s (some response :: rest)).2 ↔
      reading.delta = [] ∧ response.finishReason = none ∧
        harmony.Quiet (s.after reading stream) rest := by
  have hcalled : s.called reading = [⟨toolName (s.currentToolName.getD []), s.toolArgParts.strip⟩] :=
    if_pos hleaves
  have hparts : (s.after reading stream).toolArgParts =
      if reading.currentRecipient.isSome then reading.delta else [] := by
    simp [GptOssState.after, hleaves]
  rw [yields_read hprocess h, expected_read hprocess, hcalled, List.map_singleton,
    List.append_assoc, List.singleton_append, Ends.answer_iff, List.append_eq_nil_iff,
    List.append_eq_nil_iff, List.self_eq_append_right, now_eq_nil_iff]
  rcases h with ⟨hfinish, rfl⟩ | ⟨hgoes, hrest⟩
  · exact iff_of_false (fun hy => hfinish hy.1.1.1) fun hq => hfinish hq.2.1
  · have hquiet := quiet_iff harmony (s := s.after reading stream) hrest
    rw [Prod.ext_iff, hparts] at hquiet
    constructor
    · rintro ⟨⟨⟨-, hnow⟩, hyields⟩, ⟨-, htext⟩, hcalls⟩
      obtain ⟨hdelta, hq⟩ := hquiet.mp ⟨hyields, htext, hcalls⟩
      refine ⟨?_, hgoes, hq⟩
      rcases hnow with hsome | hnil
      · simpa [hsome] using hdelta
      · exact hnil
    · rintro ⟨hdelta, -, hq⟩
      obtain ⟨hyields, htext, hcalls⟩ := hquiet.mpr ⟨by simp [hdelta], hq⟩
      exact ⟨⟨⟨hgoes, .inr hdelta⟩, hyields⟩,
        ⟨by simp [HarmonyReading.said, hgoes, hdelta], htext⟩, hcalls⟩

theorem ends_finish_iff (hfits : s.Fits) (hfinish : response.finishReason ≠ none)
    (hprocess : harmony.process s.stream response.token = some (stream, reading))
    (hstays : s.leaves reading = false) :
    Ends (harmony.yields s [some response]) (harmony.expected s [some response]).1
        (harmony.expected s [some response]).2 ↔
      Parsed.MayFinish response.finishReason ∧
        (reading.currentRecipient.isSome ∨ reading.delta = []) := by
  have hsome := Option.isSome_iff_ne_none.mpr hfinish
  rw [yields_read hprocess (.inl ⟨hfinish, rfl⟩), expected_read hprocess,
    called_eq_nil_iff.2 hstays, yields_nil, expected, List.map_nil, List.nil_append,
    List.append_nil, parts_of_stays hstays, now, HarmonyReading.said]
  cases hrecipient : reading.currentRecipient with
  | some recipient =>
      have hparts : (s.after reading s.stream).toolArgParts = s.toolArgParts ++ reading.delta := by
        rw [parts_of_stays hstays, hrecipient]
        rfl
      simp only [Option.isSome_some, if_true, if_pos hsome]
      rw [Ends.finish_iff (by exact hsome)]
      simp [hparts]
  | none =>
      have htool : s.currentToolName = none := by
        by_contra htool
        obtain ⟨name, hname⟩ := Option.ne_none_iff_exists'.mp htool
        simp [GptOssState.leaves, hname, hrecipient] at hstays
      simp only [Option.isSome_none, Bool.false_eq_true, if_false, if_pos hsome, hfits htool,
        false_or]
      by_cases hdelta : reading.delta = []
      · rw [if_pos hdelta, List.nil_append, Ends.finish_iff hsome]
        simp [hdelta]
      · rw [if_neg hdelta, List.singleton_append, Ends.cons_terminal (by exact hsome)]
        simp [hdelta]

theorem ends_goes_iff (hgoes : response.finishReason = none) (hrest : Finished rest)
    (hprocess : harmony.process s.stream response.token = some (stream, reading))
    (hstays : s.leaves reading = false) :
    Ends (harmony.yields s (some response :: rest))
        (harmony.expected s (some response :: rest)).1
        (harmony.expected s (some response :: rest)).2 ↔
      Ends (harmony.yields (s.after reading stream) rest)
        (harmony.expected (s.after reading stream) rest).1
        (harmony.expected (s.after reading stream) rest).2 := by
  rw [yields_read hprocess (.inr ⟨hgoes, hrest⟩), expected_read hprocess,
    called_eq_nil_iff.2 hstays, List.map_nil, List.nil_append, now, HarmonyReading.said]
  have hgoes' : response.finishReason.isSome = false := by simp [hgoes]
  simp only [hgoes', Bool.false_eq_true, if_false, List.append_nil]
  by_cases hrecipient : reading.currentRecipient.isSome
  · simp only [if_pos hrecipient, List.nil_append]
  · simp only [if_neg hrecipient]
    by_cases hdelta : reading.delta = []
    · rw [if_pos hdelta, hdelta]
      rfl
    · rw [if_neg hdelta]
      exact Ends.cons_token hgoes

variable (harmony) in
/-- **From a state on** what is yielded ends once and loses nothing exactly if the parser and the
tokens do what they should. -/
theorem ends_iff (hfits : s.Fits) (h : Finished rest) :
    Ends (harmony.yields s rest) (harmony.expected s rest).1 (harmony.expected s rest).2 ↔
      harmony.Undisturbed s rest := by
  induction rest generalizing s with
  | nil => exact absurd h id
  | cons x rest ih =>
      cases x with
      | none => exact ih hfits h
      | some response =>
          cases hprocess : harmony.process s.stream response.token with
          | none =>
              rw [yields_failed hprocess, Undisturbed]
              simp only [hprocess]
              exact iff_of_false Ends.not_nil id
          | some read =>
              obtain ⟨stream, reading⟩ := read
              rw [Undisturbed]
              simp only [hprocess]
              by_cases hleaves : s.leaves reading
              · rw [if_pos hleaves, ends_leaves_iff h hprocess hleaves]
              · have hstays : s.leaves reading = false := by simpa using hleaves
                rw [if_neg hleaves]
                rcases h with ⟨hfinish, rfl⟩ | ⟨hgoes, hrest⟩
                · rw [if_pos (Option.isSome_iff_ne_none.mpr hfinish),
                    ends_finish_iff hfits hfinish hprocess hstays]
                · rw [if_neg (by simp [hgoes]), ends_goes_iff hgoes hrest hprocess hstays]
                  exact ih (fits_after hfits) hrest

end Harmony

/-! ## Both parsers -/

/-- Of a model with tool calls the client gets one end, the last item, and all that was said and
called before. -/
def ToolCallsDelivered (parser : ToolParser) (o : FinishedOutput) : Prop :=
  Delivered (chunksOf (parseToolCalls o.responses parser))
    (parser.expected false [] o.responses).1 (parser.expected false [] o.responses).2

/-- Of gpt-oss the client gets the same. -/
def GptOssDelivered {σ : Type} (harmony : Harmony σ) (o : FinishedOutput) : Prop :=
  Delivered (chunksOf (parseGptOss harmony o.responses))
    (harmony.expected { stream := harmony.init } o.responses).1
    (harmony.expected { stream := harmony.init } o.responses).2

/-- **A stream ends once, and whole,** exactly if its tokens and the parsers of calls and of Harmony
do what they should. -/
theorem delivered_iff {σ : Type} (parser : ToolParser) (harmony : Harmony σ) (o : FinishedOutput) :
    (ToolCallsDelivered parser o ↔ parser.Answered {} o.responses) ∧
      (GptOssDelivered harmony o ↔ harmony.Undisturbed { stream := harmony.init } o.responses) := by
  have hcalls := ToolParser.ends_iff parser (ToolParser.fits_collected []) o.finished
  have hharmony := Harmony.ends_iff harmony (s := { stream := harmony.init })
    (fun _ => rfl) o.finished
  exact ⟨(delivered_chunksOf_iff _ _ _).trans hcalls, (delivered_chunksOf_iff _ _ _).trans hharmony⟩

/-- A parser of calls without arguments. -/
def callParser : ToolParser where
  startParsing := Text.of "<call>"
  endParsing := Text.of "</call>"
  parse text := if text = Text.of "<call>f</call>" then some [⟨Text.of "f", []⟩] else none

def callToken (text : String) (finishReason : Option FinishReason) : GenerationResponse :=
  { text := Text.of text, token := 0, finishReason, usage := none }

/-- One call, and another one that is cut off. -/
def cutOff : FinishedOutput where
  responses := [some (callToken "<call>" none), some (callToken "f" none), some (callToken "</call>" none),
    some (callToken "<call>" (some .length))]
  finished := .inr ⟨rfl, .inr ⟨rfl, .inr ⟨rfl, .inl ⟨nofun, rfl⟩⟩⟩⟩

/-- The call that was parsed is lost with the one that was cut off. -/
theorem not_forall_delivered :
    ¬ ∀ (parser : ToolParser) (harmony : Harmony Unit) (o : FinishedOutput),
      ToolCallsDelivered parser o ∧ GptOssDelivered harmony o := by
  intro h
  have hdelivered := (h callParser ⟨(), fun _ _ => none⟩ cutOff).1.toolCalls
  exact absurd hdelivered (by decide)

end Exo.Parsers
