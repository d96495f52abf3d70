import Exo.Parsers.ToolCalls

/-!
# When a stream with tool calls ends once

What is yielded for a token is known from where the token stands. So is what there is to say and to
call, and the two agree token by token as long as nothing is lost; a text that is lost cannot be
made up for, since no token says more than there is.
-/

namespace Exo.Parsers

open Lib

variable {parser : ToolParser} {s : ToolCallState} {response : GenerationResponse}
  {rest : List (Option GenerationResponse)} {text : Text} {toolCalls : List ToolCallItem}

namespace ToolParser

/-- What is yielded from a state on. -/
def yields (parser : ToolParser) (s : ToolCallState) (responses : List (Option GenerationResponse)) :
    List Parsed :=
  ((toolCallGenerator parser).output s responses).filterMap id

@[simp] theorem yields_nil : parser.yields s [] = [] := rfl

theorem yields_outside (h : parser.role s.inToolCall s.toolCallText response = .outside) :
    parser.yields s (some response :: rest) =
      if s.accumulatedToolCalls ≠ [] ∧ (response.stats.isSome ∨ response.finishReason.isSome) then
        .toolCall ⟨s.accumulatedToolCalls, response.usage, response.stats⟩ ::
          parser.yields { s with accumulatedToolCalls := [] } rest
      else .generation response :: parser.yields s rest := by
  have hnext := next_outside h
  unfold yields
  split
  · rename_i hflush
    rw [if_pos hflush] at hnext
    rw [Generator.output_cons hnext]
    rfl
  · rename_i hflush
    rw [if_neg hflush] at hnext
    rw [Generator.output_cons hnext]
    rfl

theorem yields_within (h : parser.role s.inToolCall s.toolCallText response = .within text) :
    parser.yields s (some response :: rest) =
      (if response.finishReason.isSome then [.generation (response.failure text)] else []) ++
        parser.yields { s with inToolCall := true, toolCallText := text } rest := by
  rw [yields, Generator.output_cons (next_within h), List.filterMap_append]
  congr 1
  split <;> rfl

theorem yields_failed (h : parser.role s.inToolCall s.toolCallText response = .failed text) :
    parser.yields s (some response :: rest) = [.generation (response.failure text)] := by
  rw [yields, Generator.output_leave (next_failed h)]
  rfl

theorem yields_parsed
    (h : parser.role s.inToolCall s.toolCallText response = .parsed text toolCalls) :
    parser.yields s (some response :: rest) =
      if s.accumulatedToolCalls ++ toolCalls ≠ [] ∧
          (response.finishReason.isSome ∨ response.stats.isSome) then
        .toolCall ⟨s.accumulatedToolCalls ++ toolCalls, response.usage, response.stats⟩ ::
          parser.yields {} rest
      else parser.yields { accumulatedToolCalls := s.accumulatedToolCalls ++ toolCalls } rest := by
  have hnext := next_parsed h
  unfold yields
  split
  · rename_i hflush
    rw [if_pos hflush] at hnext
    rw [Generator.output_cons hnext]
    rfl
  · rename_i hflush
    rw [if_neg hflush] at hnext
    rw [Generator.output_cons hnext]
    rfl

/-! ## What may be said -/

theorem eq_of_outside (hfits : s.Fits)
    (h : parser.role s.inToolCall s.toolCallText response = .outside) :
    s = { accumulatedToolCalls := s.accumulatedToolCalls } := by
  obtain ⟨inToolCall, toolCallText, accumulatedToolCalls⟩ := s
  rcases role_cases parser ⟨inToolCall, toolCallText, accumulatedToolCalls⟩ response with
    ⟨ho, -⟩ | ⟨-, ⟨-, hr⟩ | ⟨-, ⟨-, hr⟩ | ⟨cs, -, hr⟩⟩⟩
  · obtain rfl : inToolCall = false := (Bool.or_eq_false_iff.mp ho).1
    obtain rfl : toolCallText = [] := hfits rfl
    rfl
  all_goals
    rw [h] at hr
    cases hr

theorem fits_collected (toolCalls : List ToolCallItem) :
    ToolCallState.Fits { accumulatedToolCalls := toolCalls } := fun _ => rfl

theorem fits_within (s : ToolCallState) (text : Text) :
    ToolCallState.Fits { s with inToolCall := true, toolCallText := text } := nofun

variable (parser) in
/-- No more is said than there is to say. -/
theorem text_length_le (hfits : s.Fits) (h : FinishLast rest) :
    ((parser.yields s rest).flatMap Parsed.text).length
      ≤ (parser.expected s.inToolCall s.toolCallText rest).1.length := by
  induction rest generalizing s with
  | nil => exact Nat.zero_le _
  | cons x rest ih =>
      cases x with
      | none => exact ih hfits h
      | some response =>
          have hnext : ∀ toolCalls, ((parser.yields { accumulatedToolCalls := toolCalls } rest).flatMap
              Parsed.text).length ≤ (parser.expected false [] rest).1.length :=
            fun toolCalls => ih (fits_collected toolCalls) h.2
          rw [expected]
          cases hrole : parser.role s.inToolCall s.toolCallText response with
          | outside =>
              rw [yields_outside hrole, eq_of_outside hfits hrole]
              split
              · have hle := hnext []
                simp only [List.flatMap_cons, Parsed.text, List.nil_append, List.length_append]
                omega
              · have hle := hnext s.accumulatedToolCalls
                simp only [List.flatMap_cons, Parsed.text, List.length_append]
                omega
          | within text =>
              have hle := ih (fits_within s text) h.2
              rw [yields_within hrole]
              split
              · rename_i hfinish
                obtain rfl := h.1 (Option.isSome_iff_ne_none.mp hfinish)
                simp [expected, Parsed.text, GenerationResponse.failure]
              · simpa using hle
          | failed text =>
              rw [yields_failed hrole]
              simp [Parsed.text, GenerationResponse.failure]
          | parsed text toolCalls =>
              rw [yields_parsed hrole]
              split
              · have hle := hnext []
                simp only [List.flatMap_cons, Parsed.text, List.nil_append, List.length_append]
                omega
              · have hle := hnext (s.accumulatedToolCalls ++ toolCalls)
                simp only [List.length_append]
                omega

/-! ## Where nothing is said -/

theorem role_of_mute (h : parser.Mute rest) (hresponse : response.text = []) :
    parser.role false [] response = .parsed [] [] := by
  have hstrip : Text.strip [] = [] := rfl
  simp [role, hresponse, h.start, h.stop, hstrip, h.parse]

theorem Mute.tail (h : parser.Mute (some response :: rest)) :
    response.text = [] ∧ parser.Mute rest := by
  obtain ⟨htext, hrest⟩ := List.append_eq_nil_iff.mp h.text
  exact ⟨htext, h.start, h.stop, h.parse, hrest⟩

theorem yields_of_mute (h : parser.Mute rest) :
    parser.yields {} rest = [] ∧ parser.expected false [] rest = ([], []) := by
  induction rest with
  | nil => exact ⟨rfl, rfl⟩
  | cons x rest ih =>
      cases x with
      | none => exact ih ⟨h.start, h.stop, h.parse, h.text⟩
      | some response =>
          obtain ⟨htext, hmute⟩ := h.tail
          obtain ⟨hyields, hexpected⟩ := ih hmute
          have hrole := role_of_mute h htext
          rw [yields_parsed hrole, expected, hrole, if_neg (by simp)]
          exact ⟨hyields, by simp [hexpected, unanswered]⟩

theorem of_within (h : parser.role s.inToolCall s.toolCallText response = .within text) :
    text = s.toolCallText ++ response.text ∧
      parser.endParsing.isSuffixOf response.text = false := by
  rcases role_cases parser s response with ⟨-, hr⟩ | ⟨-, ⟨he, hr⟩ | ⟨-, ⟨-, hr⟩ | ⟨cs, -, hr⟩⟩⟩ <;>
    rw [h] at hr <;> cases hr
  exact ⟨rfl, he⟩

theorem of_parsed
    (h : parser.role s.inToolCall s.toolCallText response = .parsed text toolCalls) :
    text = s.toolCallText ++ response.text ∧ parser.endParsing <:+ response.text ∧
      parser.parse text.strip = some toolCalls ∧
      (s.inToolCall = false → parser.startParsing <+: response.text) := by
  rcases role_cases parser s response with ⟨-, hr⟩ | ⟨ho, ⟨-, hr⟩ | ⟨he, ⟨-, hr⟩ | ⟨cs, hp, hr⟩⟩⟩ <;>
    rw [h] at hr <;> cases hr
  refine ⟨rfl, List.isSuffixOf_iff_suffix.mp he, hp, fun hout => ?_⟩
  rw [hout, Bool.false_or] at ho
  exact List.isPrefixOf_iff_prefix.mp ho

/-- Nothing is yielded and nothing was to be only where every token is an empty block. -/
theorem mute_of_yields (hkept : s.accumulatedToolCalls = []) (h : Finished rest)
    (hyields : parser.yields s rest = [])
    (hexpected : parser.expected s.inToolCall s.toolCallText rest = ([], [])) :
    s.toolCallText = [] ∧ parser.endParsing = [] ∧ (s.inToolCall = false → parser.Mute rest) := by
  induction rest generalizing s with
  | nil => exact absurd h id
  | cons x rest ih =>
      cases x with
      | none =>
          obtain ⟨htext, hend, hmute⟩ := ih hkept h hyields hexpected
          exact ⟨htext, hend, fun hout => ⟨(hmute hout).start, hend, (hmute hout).parse,
            (hmute hout).text⟩⟩
      | some response =>
          rw [expected] at hexpected
          cases hrole : parser.role s.inToolCall s.toolCallText response with
          | outside =>
              rw [yields_outside hrole] at hyields
              split at hyields <;> cases hyields
          | failed text =>
              rw [yields_failed hrole] at hyields
              cases hyields
          | within text =>
              rw [yields_within hrole] at hyields
              obtain ⟨hnow, hlater⟩ := List.append_eq_nil_iff.mp hyields
              rcases h with ⟨hfinish, -⟩ | ⟨-, hrest⟩
              · rw [if_pos (Option.isSome_iff_ne_none.mpr hfinish)] at hnow
                cases hnow
              · simp only [hrole] at hexpected
                -- a block that is open and without text would end with this token
                obtain ⟨htext, hend, -⟩ := ih (s := { s with
                  inToolCall := true
                  toolCallText := text }) hkept hrest hlater hexpected
                obtain ⟨rfl, hopen⟩ := of_within hrole
                have hnil := (List.append_eq_nil_iff.mp htext).2
                rw [hend, hnil] at hopen
                cases hopen
          | parsed text toolCalls =>
              simp only [hrole, Prod.mk.injEq, List.append_eq_nil_iff] at hexpected
              obtain ⟨⟨hunanswered, htext'⟩, rfl, hcalls'⟩ := hexpected
              obtain ⟨rfl, hend, hparse, hstart⟩ := of_parsed hrole
              rw [unanswered, if_pos rfl] at hunanswered
              obtain ⟨hs, hresponse⟩ := List.append_eq_nil_iff.mp hunanswered
              rw [hresponse, List.suffix_nil] at hend
              rw [hunanswered] at hparse
              refine ⟨hs, hend, fun hout => ?_⟩
              have hstart := hstart hout
              rw [hresponse, List.prefix_nil] at hstart
              refine ⟨hstart, hend, hparse, ?_⟩
              rw [textOf_some, hresponse, List.nil_append]
              rcases h with ⟨-, rfl⟩ | ⟨-, hrest⟩
              · rfl
              · rw [yields_parsed hrole, hkept, List.append_nil, if_neg (by simp)] at hyields
                exact ((ih rfl hrest hyields (Prod.ext htext' hcalls')).2.2 rfl).text

/-- **Nothing is yielded and nothing was to be** exactly if every token is an empty block. -/
theorem mute_iff (h : Finished rest) : parser.Mute rest ↔
    parser.yields {} rest = [] ∧ parser.expected false [] rest = ([], []) :=
  ⟨yields_of_mute, fun ⟨hyields, hexpected⟩ => (mute_of_yields rfl h hyields hexpected).2.2 rfl⟩

/-! ## Token by token -/

theorem finishLast_of_finished (h : Finished rest) : FinishLast rest := by
  induction rest with
  | nil => exact trivial
  | cons x rest ih =>
      cases x with
      | none => exact ih h
      | some response =>
          rcases h with ⟨-, rfl⟩ | ⟨hgoes, hrest⟩
          · exact ⟨fun _ => rfl, trivial⟩
          · exact ⟨fun hfinish => absurd hgoes hfinish, ih hrest⟩

/-- Behind calls that are answered for in the middle nothing may come. -/
theorem ends_flushed_iff (h : Finished rest) {usage : Option Chat.Usage}
    {stats : Option Chat.GenerationStats} (lost : Text) :
    Ends (.toolCall ⟨toolCalls, usage, stats⟩ :: parser.yields {} rest)
        (lost ++ (parser.expected false [] rest).1)
        (toolCalls ++ (parser.expected false [] rest).2) ↔
      lost = [] ∧ parser.Mute rest := by
  rw [Ends.answer_iff, mute_iff h, Prod.ext_iff, List.append_eq_nil_iff, List.self_eq_append_right]
  exact ⟨fun ⟨hy, ⟨hl, ht⟩, hc⟩ => ⟨hl, hy, ht, hc⟩, fun ⟨hl, hy, ht, hc⟩ => ⟨hy, ⟨hl, ht⟩, hc⟩⟩

/-- A text that is lost is not made up for. -/
theorem ends_lost_iff (h : Finished rest) (lost : Text) (calls : List ToolCallItem) :
    Ends (parser.yields { accumulatedToolCalls := toolCalls } rest)
        (lost ++ (parser.expected false [] rest).1) calls ↔
      lost = [] ∧ Ends (parser.yields { accumulatedToolCalls := toolCalls } rest)
        (parser.expected false [] rest).1 calls := by
  constructor
  · intro he
    have hle := text_length_le parser (fits_collected toolCalls)
      (finishLast_of_finished h)
    rw [he.text, List.length_append] at hle
    have hlost : lost = [] := List.eq_nil_of_length_eq_zero (by simp only at hle; omega)
    subst hlost
    exact ⟨rfl, he⟩
  · rintro ⟨rfl, he⟩
    exact he

theorem ends_failure_iff {said : Text} :
    Ends [.generation (response.failure text)] said toolCalls ↔ text = said ∧ toolCalls = [] := by
  rw [Ends.finish_iff rfl]
  exact and_iff_right ⟨nofun, nofun⟩

theorem ends_outside_iff (h : Finished (some response :: rest))
    (hrole : parser.role false [] response = .outside) (kept : List ToolCallItem) :
    Ends (parser.yields { accumulatedToolCalls := kept } (some response :: rest))
        (response.text ++ (parser.expected false [] rest).1)
        (kept ++ (parser.expected false [] rest).2) ↔
      if kept = [] then
        if response.finishReason.isSome then Parsed.MayFinish response.finishReason
        else Ends (parser.yields {} rest) (parser.expected false [] rest).1
          (kept ++ (parser.expected false [] rest).2)
      else if response.finishReason.isSome then response.text = []
      else if response.stats.isSome then response.text = [] ∧ parser.Mute rest
      else Ends (parser.yields { accumulatedToolCalls := kept } rest)
        (parser.expected false [] rest).1 (kept ++ (parser.expected false [] rest).2) := by
  rw [yields_outside hrole]
  simp only
  rcases h with ⟨hfinish, rfl⟩ | ⟨hgoes, hrest⟩
  · have hsome := Option.isSome_iff_ne_none.mpr hfinish
    by_cases hkept : kept = []
    · subst hkept
      rw [if_neg (by simp), if_pos rfl, if_pos hsome, yields_nil, Ends.finish_iff hsome]
      simp [expected]
    · rw [if_pos ⟨hkept, .inr hsome⟩, if_neg hkept, if_pos hsome, yields_nil, Ends.answer_iff]
      simp [expected]
  · by_cases hkept : kept = []
    · subst hkept
      rw [if_neg (by simp), if_pos rfl, if_neg (by simp [hgoes]), Ends.cons_token hgoes]
    · rw [if_neg hkept, if_neg (c := response.finishReason.isSome = true) (by simp [hgoes])]
      by_cases hstats : response.stats.isSome
      · rw [if_pos ⟨hkept, .inl hstats⟩, if_pos hstats, ends_flushed_iff hrest]
      · rw [if_neg (by simp [hgoes, hstats]), if_neg hstats, Ends.cons_token hgoes]

theorem ends_within_iff (h : Finished (some response :: rest))
    (hrole : parser.role s.inToolCall s.toolCallText response = .within text) :
    Ends (parser.yields s (some response :: rest)) (parser.expected true text rest).1
        (s.accumulatedToolCalls ++ (parser.expected true text rest).2) ↔
      if response.finishReason.isSome then s.accumulatedToolCalls = []
      else Ends (parser.yields { s with inToolCall := true, toolCallText := text } rest)
        (parser.expected true text rest).1
        (s.accumulatedToolCalls ++ (parser.expected true text rest).2) := by
  rw [yields_within hrole]
  rcases h with ⟨hfinish, rfl⟩ | ⟨hgoes, hrest⟩
  · have hsome := Option.isSome_iff_ne_none.mpr hfinish
    rw [if_pos hsome, if_pos hsome, yields_nil, List.append_nil, ends_failure_iff]
    simp [expected]
  · rw [if_neg (by simp [hgoes]), if_neg (by simp [hgoes]), List.nil_append]

theorem ends_failed_iff
    (hrole : parser.role s.inToolCall s.toolCallText response = .failed text) :
    Ends (parser.yields s (some response :: rest)) (text ++ textOf rest)
        (s.accumulatedToolCalls ++ []) ↔
      s.accumulatedToolCalls = [] ∧ textOf rest = [] := by
  rw [yields_failed hrole, ends_failure_iff, List.append_nil, List.self_eq_append_right, and_comm]

theorem ends_parsed_iff (h : Finished (some response :: rest))
    (hrole : parser.role s.inToolCall s.toolCallText response = .parsed text toolCalls) :
    Ends (parser.yields s (some response :: rest))
        (unanswered text toolCalls ++ (parser.expected false [] rest).1)
        (s.accumulatedToolCalls ++ (toolCalls ++ (parser.expected false [] rest).2)) ↔
      unanswered text toolCalls = [] ∧
        if response.finishReason.isSome then s.accumulatedToolCalls ++ toolCalls ≠ []
        else if s.accumulatedToolCalls ++ toolCalls ≠ [] ∧ response.stats.isSome then
          parser.Mute rest
        else Ends (parser.yields
            { accumulatedToolCalls := s.accumulatedToolCalls ++ toolCalls } rest)
          (parser.expected false [] rest).1
          ((s.accumulatedToolCalls ++ toolCalls) ++ (parser.expected false [] rest).2) := by
  rw [yields_parsed hrole, ← List.append_assoc]
  generalize s.accumulatedToolCalls ++ toolCalls = kept
  rcases h with ⟨hfinish, rfl⟩ | ⟨hgoes, hrest⟩
  · have hsome := Option.isSome_iff_ne_none.mpr hfinish
    rw [if_pos hsome]
    by_cases hkept : kept = []
    · rw [if_neg (by simp [hkept])]
      exact iff_of_false Ends.not_nil fun h => h.2 hkept
    · rw [if_pos ⟨hkept, .inl hsome⟩, yields_nil, Ends.answer_iff]
      simp [expected, hkept]
  · rw [if_neg (c := response.finishReason.isSome = true) (by simp [hgoes])]
    by_cases hflush : kept ≠ [] ∧ response.stats.isSome
    · rw [if_pos ⟨hflush.1, .inr hflush.2⟩, if_pos hflush, ends_flushed_iff hrest]
    · rw [if_neg (by simpa [hgoes] using hflush), if_neg hflush, ends_lost_iff hrest]

variable (parser) in
/-- **From a state on** what is yielded ends once and loses nothing exactly if every token does what
it should. -/
theorem ends_iff (hfits : s.Fits) (h : Finished rest) :
    Ends (parser.yields s rest) (parser.expected s.inToolCall s.toolCallText rest).1
        (s.accumulatedToolCalls ++ (parser.expected s.inToolCall s.toolCallText rest).2) ↔
      parser.Answered s rest := by
  induction rest generalizing s with
  | nil => exact absurd h id
  | cons x rest ih =>
      cases x with
      | none => exact ih hfits h
      | some response =>
          have hnext : ∀ t : ToolCallState, t.Fits → response.finishReason.isSome = false →
              (Ends (parser.yields t rest) (parser.expected t.inToolCall t.toolCallText rest).1
                (t.accumulatedToolCalls ++ (parser.expected t.inToolCall t.toolCallText rest).2) ↔
              parser.Answered t rest) := by
            intro t ht hgoes
            rcases h with ⟨hfinish, -⟩ | ⟨-, hrest⟩
            · exact absurd (Option.isSome_iff_ne_none.mpr hfinish) (by simp [hgoes])
            · exact ih ht hrest
          rw [expected, Answered]
          cases hrole : parser.role s.inToolCall s.toolCallText response with
          | outside =>
              have hs := eq_of_outside hfits hrole
              generalize s.accumulatedToolCalls = kept at hs
              subst hs
              refine (ends_outside_iff h hrole kept).trans ?_
              by_cases hkept : kept = []
              · subst hkept
                rw [if_pos rfl, if_pos rfl]
                split
                · exact Iff.rfl
                · rename_i hgoes
                  exact hnext {} (fits_collected []) (by simpa using hgoes)
              · simp only [if_neg hkept]
                split
                · exact Iff.rfl
                · rename_i hgoes
                  split
                  · exact Iff.rfl
                  · exact hnext _ (fits_collected kept) (by simpa using hgoes)
          | within text =>
              refine (ends_within_iff h hrole).trans ?_
              split
              · exact Iff.rfl
              · rename_i hgoes
                exact hnext _ (fits_within s text) (by simpa using hgoes)
          | failed text => exact ends_failed_iff hrole
          | parsed text toolCalls =>
              refine (ends_parsed_iff h hrole).trans (and_congr_right fun _ => ?_)
              split
              · exact Iff.rfl
              · rename_i hgoes
                split
                · exact Iff.rfl
                · exact hnext _ (fits_collected _) (by simpa using hgoes)

end ToolParser

end Exo.Parsers
