import Exo.Lib.Markers
import Exo.Parsers.Responses

/-!
# Thinking tags in the output of a model

`parse_thinking_models` holds tokens back as long as their text is the beginning of a tag. A text
that is the tag it waits for is swallowed; a text that is no beginning of a tag is let go as a
whole, with a tag that may begin in the middle of it.

The token that finishes is always let go, and never counts as thought.
-/

namespace Exo.Parsers

open Lib

/-- The tags of a tokenizer that has thinking. -/
abbrev ThinkTags := Markers CodePoint

/-- The variables of `parse_thinking_models`. -/
structure ThinkingParser where
  isThinking : Bool
  accumulated : Text := []
  pendingBuffer : List GenerationResponse := []

namespace ThinkingParser

def drainPending (s : ThinkingParser) : List (Option GenerationResponse) :=
  s.pendingBuffer.map fun buffered => some { buffered with isThinking := s.isThinking }

/-- `tag and accumulated == tag[: len(accumulated)]` -/
def beginsTag (tag : Option Text) (accumulated : Text) : Bool :=
  tag.any fun tag => !tag.isEmpty && accumulated.isPrefixOf tag

def next (thinkStart thinkEnd : Option Text) (s : ThinkingParser) :
    Option GenerationResponse → List (Option GenerationResponse) × Option ThinkingParser
  | none => ([none], some s)
  | some response =>
    let accumulated := s.accumulated ++ response.text
    if response.finishReason.isSome then
      (s.drainPending ++ [some { response with isThinking := false }],
        some { s with accumulated := accumulated, pendingBuffer := [] })
    else if some accumulated = thinkStart ∧ s.isThinking = false then
      ([], some { isThinking := true })
    else if some accumulated = thinkEnd ∧ s.isThinking = true then
      ([], some { isThinking := false })
    else if beginsTag thinkStart accumulated || beginsTag thinkEnd accumulated then
      ([], some { s with
        accumulated := accumulated, pendingBuffer := s.pendingBuffer ++ [response] })
    else
      (s.drainPending ++ [some { response with isThinking := s.isThinking }],
        some { isThinking := s.isThinking })

end ThinkingParser

def thinkingGenerator (thinkStart thinkEnd : Option Text) :
    Generator ThinkingParser (Option GenerationResponse) (Option GenerationResponse) where
  step := ThinkingParser.next thinkStart thinkEnd

def parseThinkingModels (responses : List (Option GenerationResponse))
    (thinkStart thinkEnd : Option Text) (startsInThinking : Bool) :
    List (Option GenerationResponse) :=
  (thinkingGenerator thinkStart thinkEnd).output { isThinking := startsInThinking } responses

/-- The text of the tokens, each character with the flag of its token. -/
def labelledText (responses : List (Option GenerationResponse)) : List (CodePoint × Bool) :=
  responses.flatMap fun
    | none => []
    | some r => r.text.map (·, r.isThinking)

/-- What comes out is what went in without the tags, each character labelled with where it
stands. -/
def Faithful (tags : ThinkTags) (startsInThinking : Bool) (o : ModelOutput) : Prop :=
  labelledText (parseThinkingModels o.responses tags.start tags.stop startsInThinking)
    = tags.label startsInThinking (textOf o.responses)

instance (tags : ThinkTags) (startsInThinking : Bool) (o : ModelOutput) :
    Decidable (Faithful tags startsInThinking o) :=
  inferInstanceAs (Decidable (_ = _))

/-! ## What a token may do -/

namespace ThinkingParser

/-- The text is swallowed, or held back. -/
def Keeps (tags : ThinkTags) (isThinking : Bool) (accumulated : Text) : Prop :=
  some accumulated = tags.due isThinking ∨
    beginsTag tags.start accumulated = true ∨ beginsTag tags.stop accumulated = true

instance (tags : ThinkTags) (isThinking : Bool) (accumulated : Text) :
    Decidable (Keeps tags isThinking accumulated) :=
  inferInstanceAs (Decidable (_ ∨ _))

/-- No tag begins in a text that is let go, and the last one is no thought. -/
def MayTake (tags : ThinkTags) (s : ThinkingParser) (response : GenerationResponse)
    (rest : Text) : Prop :=
  let accumulated := s.accumulated ++ response.text
  if response.finishReason.isSome then
    tags.Clear s.isThinking accumulated [] ∧ (s.isThinking = false ∨ response.text = [])
  else Keeps tags s.isThinking accumulated ∨ tags.Clear s.isThinking accumulated rest

instance (tags : ThinkTags) (s : ThinkingParser) (response : GenerationResponse) (rest : Text) :
    Decidable (s.MayTake tags response rest) :=
  inferInstanceAs (Decidable (ite _ _ _))

end ThinkingParser

/-- Every token may be taken, and where none finishes no text is left behind. -/
def Tidy (tags : ThinkTags) : ThinkingParser → List (Option GenerationResponse) → Prop
  | s, [] => s.pendingBuffer.flatMap (·.text) = []
  | s, none :: responses => Tidy tags s responses
  | s, some r :: responses => s.MayTake tags r (textOf responses) ∧
      ∀ s' ∈ (s.next tags.start tags.stop (some r)).2, Tidy tags s' responses

instance decidableTidy (tags : ThinkTags) : (s : ThinkingParser) →
    (responses : List (Option GenerationResponse)) → Decidable (Tidy tags s responses)
  | _, [] => inferInstanceAs (Decidable (_ = _))
  | s, none :: responses => decidableTidy tags s responses
  | _, some _ :: responses =>
    have := fun s' => decidableTidy tags s' responses
    inferInstanceAs (Decidable (_ ∧ _))

/-! ## What a step does -/

namespace ThinkingParser

def held (s : ThinkingParser) : Text := s.pendingBuffer.flatMap (·.text)

/-- The text is that of the tokens that are held back. It begins a tag, but not the one that is
looked for. -/
structure Holds (tags : ThinkTags) (s : ThinkingParser) : Prop where
  accumulated : s.accumulated = s.held
  begins : s.held = [] ∨ ∃ inside, ∃ tag ∈ tags.due inside, s.held <+: tag
  not_due : some s.held ≠ tags.due s.isThinking

variable {tags : ThinkTags} {s : ThinkingParser} {r : GenerationResponse}

theorem holds_fresh (tags : ThinkTags) (isThinking : Bool) : Holds tags { isThinking } where
  accumulated := rfl
  begins := .inl rfl
  not_due h := Markers.due_ne_nil h.symm rfl

/-- What may happen to a token. -/
inductive Took (tags : ThinkTags) (s : ThinkingParser) (r : GenerationResponse) : Prop
  | finished (s' : ThinkingParser) (out : List (Option GenerationResponse))
      (finish : r.finishReason ≠ none)
      (eq : s.next tags.start tags.stop (some r) = (out, some s')) (empty : s'.held = [])
      (text : labelledText out = s.held.map (·, s.isThinking) ++ r.text.map (·, false))
  | swallowed (go_on : r.finishReason = none)
      (eq : s.next tags.start tags.stop (some r) = ([], some { isThinking := !s.isThinking }))
      (due : tags.due s.isThinking = some (s.held ++ r.text))
  | heldBack (s' : ThinkingParser) (go_on : r.finishReason = none)
      (eq : s.next tags.start tags.stop (some r) = ([], some s')) (holds : Holds tags s')
      (keeps : Keeps tags s.isThinking (s.held ++ r.text))
      (same : s'.isThinking = s.isThinking) (held : s'.held = s.held ++ r.text)
  | letGo (out : List (Option GenerationResponse)) (go_on : r.finishReason = none)
      (eq : s.next tags.start tags.stop (some r) = (out, some { isThinking := s.isThinking }))
      (lets : ¬ Keeps tags s.isThinking (s.held ++ r.text))
      (text : labelledText out = (s.held ++ r.text).map (·, s.isThinking))

theorem labelledText_append (rs rs' : List (Option GenerationResponse)) :
    labelledText (rs ++ rs') = labelledText rs ++ labelledText rs' := List.flatMap_append

theorem labelledText_drainPending (s : ThinkingParser) :
    labelledText s.drainPending = s.held.map (·, s.isThinking) := by
  rw [labelledText, drainPending, held, List.flatMap_map, List.map_flatMap]

theorem beginsTag_iff {tag : Option Text} {accumulated : Text} (hne : tag ≠ some []) :
    beginsTag tag accumulated = true ↔ ∃ t ∈ tag, accumulated <+: t := by
  cases tag with
  | none => simp [beginsTag]
  | some t =>
      have ht : t ≠ [] := fun h => hne (congrArg some h)
      simp [beginsTag, ht]

theorem took (h : Holds tags s) (r : GenerationResponse) : Took tags s r := by
  have hacc := h.accumulated
  by_cases hfin : r.finishReason = none
  · by_cases hdue : some (s.held ++ r.text) = tags.due s.isThinking
    · refine .swallowed hfin ?_ hdue.symm
      unfold next
      simp only [hfin, hacc, Option.isSome_none, Bool.false_eq_true, if_false]
      cases hb : s.isThinking with
      | false =>
          rw [hb] at hdue
          simp [show some (s.held ++ r.text) = tags.start from hdue]
      | true =>
          rw [hb] at hdue
          simp [show some (s.held ++ r.text) = tags.stop from hdue]
    · have hstart : ¬ (some (s.held ++ r.text) = tags.start ∧ s.isThinking = false) :=
        fun ⟨heq, hb⟩ => hdue (by rw [hb]; exact heq)
      have hstop : ¬ (some (s.held ++ r.text) = tags.stop ∧ s.isThinking = true) :=
        fun ⟨heq, hb⟩ => hdue (by rw [hb]; exact heq)
      by_cases hbegins : beginsTag tags.start (s.held ++ r.text) = true ∨
          beginsTag tags.stop (s.held ++ r.text) = true
      · have hheld : (s.pendingBuffer ++ [r]).flatMap (·.text) = s.held ++ r.text := by
          simp [held]
        refine .heldBack
          { s with accumulated := s.held ++ r.text, pendingBuffer := s.pendingBuffer ++ [r] }
          hfin ?_ ⟨hheld.symm, .inr ?_, ?_⟩ (.inr hbegins) rfl hheld
        · unfold next
          simp only [hfin, hacc, Option.isSome_none, Bool.false_eq_true, if_false, if_neg hstart,
            if_neg hstop, Bool.or_eq_true, if_pos hbegins]
        · rcases hbegins with hb | hb
          · obtain ⟨tag, htag, hp⟩ := (beginsTag_iff tags.start_ne_nil).mp hb
            exact ⟨false, tag, htag, hheld ▸ hp⟩
          · obtain ⟨tag, htag, hp⟩ := (beginsTag_iff tags.stop_ne_nil).mp hb
            exact ⟨true, tag, htag, hheld ▸ hp⟩
        · exact hheld ▸ hdue
      · refine .letGo (s.drainPending ++ [some { r with isThinking := s.isThinking }]) hfin ?_ ?_ ?_
        · unfold next
          simp only [hfin, hacc, Option.isSome_none, Bool.false_eq_true, if_false, if_neg hstart,
            if_neg hstop, Bool.or_eq_true, if_neg hbegins]
        · rintro (heq | hk)
          · exact hdue heq
          · exact hbegins hk
        · rw [labelledText_append, labelledText_drainPending, List.map_append]
          simp [labelledText]
  · refine .finished { s with accumulated := s.accumulated ++ r.text, pendingBuffer := [] }
      (s.drainPending ++ [some { r with isThinking := false }]) hfin ?_ rfl ?_
    · unfold next
      simp only [Option.isSome_iff_ne_none.mpr hfin, if_true]
    · rw [labelledText_append, labelledText_drainPending]
      simp [labelledText]

theorem Took.finishes (h : Took tags s r) (hfin : r.finishReason ≠ none) :
    ∃ s' out, s.next tags.start tags.stop (some r) = (out, some s') ∧ s'.held = [] ∧
      labelledText out = s.held.map (·, s.isThinking) ++ r.text.map (·, false) := by
  cases h with
  | finished s' out _ eq empty text => exact ⟨s', out, eq, empty, text⟩
  | swallowed go_on => exact absurd go_on hfin
  | heldBack s' go_on => exact absurd go_on hfin
  | letGo out go_on => exact absurd go_on hfin

theorem mayTake_finish (hs : Holds tags s) (hfin : r.finishReason ≠ none) (rest : Text) :
    s.MayTake tags r rest ↔
      tags.Clear s.isThinking (s.held ++ r.text) [] ∧ (s.isThinking = false ∨ r.text = []) := by
  simp only [MayTake, hs.accumulated, Option.isSome_iff_ne_none.mpr hfin, if_true]

theorem mayTake_go_on (hs : Holds tags s) (hfin : r.finishReason = none) (rest : Text) :
    s.MayTake tags r rest ↔ Keeps tags s.isThinking (s.held ++ r.text) ∨
      tags.Clear s.isThinking (s.held ++ r.text) rest := by
  simp only [MayTake, hs.accumulated, hfin, Option.isSome_none, Bool.false_eq_true, if_false]

end ThinkingParser

/-! ## Whole outputs -/

section Output

open ThinkingParser (Holds Took held took holds_fresh labelledText_append mayTake_finish
  mayTake_go_on)

variable {tags : ThinkTags} {s s' : ThinkingParser} {r : GenerationResponse}
  {responses : List (Option GenerationResponse)}

variable (tags) in
/-- The labelled text of what is still to come out. -/
def textFrom (s : ThinkingParser) (responses : List (Option GenerationResponse)) :
    List (CodePoint × Bool) :=
  labelledText ((thinkingGenerator tags.start tags.stop).output s responses)

variable (tags) in
/-- What is held back and what follows. -/
def wantedFrom (s : ThinkingParser) (responses : List (Option GenerationResponse)) :
    List (CodePoint × Bool) :=
  tags.label s.isThinking (s.held ++ textOf responses)

variable {out : List (Option GenerationResponse)}

theorem textFrom_some
    (h : s.next tags.start tags.stop (some r) = (out, some s')) :
    textFrom tags s (some r :: responses) = labelledText out ++ textFrom tags s' responses := by
  rw [textFrom, Generator.output_cons h, labelledText_append]
  rfl

theorem textFrom_finish (hs : Holds tags s) (hfin : r.finishReason ≠ none) :
    textFrom tags s [some r] = s.held.map (·, s.isThinking) ++ r.text.map (·, false) := by
  obtain ⟨s', out, hnext, -, hout⟩ := (took hs r).finishes hfin
  rw [textFrom_some hnext, hout]
  exact List.append_nil _

theorem wantedFrom_swallowed (h : tags.due s.isThinking = some (s.held ++ r.text)) :
    wantedFrom tags s (some r :: responses)
      = wantedFrom tags { isThinking := !s.isThinking } responses := by
  rw [wantedFrom, textOf_some, ← List.append_assoc, Markers.label_tag h]
  rfl

theorem wantedFrom_heldBack (hsame : s'.isThinking = s.isThinking)
    (hheld : s'.held = s.held ++ r.text) :
    wantedFrom tags s (some r :: responses) = wantedFrom tags s' responses := by
  rw [wantedFrom, wantedFrom, textOf_some, ← List.append_assoc, hsame, hheld]

theorem wantedFrom_letGo
    (h : tags.Clear s.isThinking (s.held ++ r.text) (textOf responses)) :
    wantedFrom tags s (some r :: responses) = (s.held ++ r.text).map (·, s.isThinking) ++
      wantedFrom tags { isThinking := s.isThinking } responses := by
  rw [wantedFrom, textOf_some, ← List.append_assoc, Markers.label_append_of_clear h]
  rfl

theorem wantedFrom_fresh (isThinking : Bool) :
    wantedFrom tags { isThinking } responses = tags.label isThinking (textOf responses) := rfl

theorem tidy_next
    (h : s.next tags.start tags.stop (some r) = (out, some s')) :
    Tidy tags s (some r :: responses) ↔
      s.MayTake tags r (textOf responses) ∧ Tidy tags s' responses := by
  simp [Tidy, h]

/-- **If every token may be taken, the text comes out as it should.** -/
theorem textFrom_of_tidy (hs : Holds tags s) (hlast : FinishLast responses)
    (h : Tidy tags s responses) : textFrom tags s responses = wantedFrom tags s responses := by
  induction responses generalizing s with
  | nil =>
      rw [wantedFrom, textOf_nil, List.append_nil, show s.held = [] from h]
      rfl
  | cons response responses ih =>
      cases response with
      | none => exact ih hs hlast h
      | some r =>
          cases took hs r with
          | finished s' out finish eq empty text =>
              obtain rfl := hlast.1 finish
              obtain ⟨hclear, hplain⟩ := (mayTake_finish hs finish _).mp ((tidy_next eq).mp h).1
              rw [textFrom_finish hs finish, wantedFrom, textOf_some, textOf_nil,
                ← List.append_assoc, Markers.label_append_of_clear hclear]
              rcases hplain with hplain | hplain <;> simp [hplain]
          | swallowed go_on eq due =>
              rw [textFrom_some eq, wantedFrom_swallowed due]
              exact ih (holds_fresh tags _) hlast.2 ((tidy_next eq).mp h).2
          | heldBack s' go_on eq holds keeps same held =>
              rw [textFrom_some eq, wantedFrom_heldBack same held]
              exact ih holds hlast.2 ((tidy_next eq).mp h).2
          | letGo out go_on eq lets text =>
              obtain ⟨hmay, hrest⟩ := (tidy_next eq).mp h
              have hclear := ((mayTake_go_on hs go_on _).mp hmay).resolve_left lets
              rw [textFrom_some eq, text, wantedFrom_letGo hclear,
                ih (holds_fresh tags _) hlast.2 hrest]

/-! ## What is overlooked is missed -/

variable (tags) in
/-- No more than this is held back. -/
def longest : Nat := max (tags.width true) (tags.width false)

theorem length_held_le (hs : Holds tags s) : s.held.length ≤ longest tags := by
  rcases hs.begins with h | ⟨inside, tag, htag, hp⟩
  · rw [h]
    exact Nat.zero_le _
  · have hle := hp.length_le
    have hwidth := Markers.width_eq htag
    cases inside <;> rw [longest] <;> omega

/-- What comes out lacks no more than the tags and what is still held back. -/
theorem length_wantedFrom_le (ha : tags.Apart) (hs : Holds tags s) (hlast : FinishLast responses) :
    (wantedFrom tags s responses).length ≤ (textFrom tags s responses).length + longest tags := by
  induction responses generalizing s with
  | nil =>
      have hle := Markers.length_label_le (m := tags) s.isThinking (s.held ++ textOf [])
      have hheld := length_held_le hs
      rw [textOf_nil, List.append_nil] at hle
      rw [wantedFrom, textOf_nil, List.append_nil]
      omega
  | cons response responses ih =>
      cases response with
      | none => exact ih hs hlast
      | some r =>
          cases took hs r with
          | finished s' out finish eq empty text =>
              obtain rfl := hlast.1 finish
              have hle := Markers.length_label_le (m := tags) s.isThinking
                (s.held ++ textOf [some r])
              rw [textFrom_finish hs finish, wantedFrom]
              simp only [textOf_some, textOf_nil, List.append_nil, List.length_append,
                List.length_map] at hle ⊢
              omega
          | swallowed go_on eq due =>
              rw [textFrom_some eq, wantedFrom_swallowed due]
              exact ih (holds_fresh tags _) hlast.2
          | heldBack s' go_on eq holds keeps same held =>
              rw [textFrom_some eq, wantedFrom_heldBack same held]
              exact ih holds hlast.2
          | letGo out go_on eq lets text =>
              have hnext := ih (holds_fresh tags s.isThinking) hlast.2
              have hle := ha.length_label_append_le s.isThinking (s.held ++ r.text)
                (textOf responses)
              rw [textFrom_some eq, text, wantedFrom, textOf_some, ← List.append_assoc,
                List.length_append, List.length_map]
              rw [wantedFrom_fresh] at hnext
              omega

/-- A tag that begins in a text that is let go is missed. -/
theorem clear_of_letGo (ha : tags.Apart) {isThinking : Bool} {passed rest : Text}
    {out : List (CodePoint × Bool)} (hout : (tags.label isThinking rest).length ≤
      out.length + longest tags)
    (h : passed.map (·, isThinking) ++ out = tags.label isThinking (passed ++ rest)) :
    tags.Clear isThinking passed rest := by
  by_contra hnot
  obtain ⟨before, tag, after, hdue, hlt, heq, hclear⟩ := Markers.exists_marker hnot
  obtain ⟨missed, rfl⟩ : before <+: passed := by
    rw [List.append_assoc] at heq
    exact List.prefix_of_prefix_length_le (heq ▸ List.prefix_append before (tag ++ after))
      (List.prefix_append passed rest) (Nat.le_of_lt hlt)
  have hmissed : missed ≠ [] := by
    rintro rfl
    simp at hlt
  rw [List.append_assoc, List.append_assoc, List.append_cancel_left_eq] at heq
  rw [List.append_assoc, heq, Markers.label_append_of_clear hclear, Markers.label_tag hdue,
    List.map_append, List.append_assoc, List.append_cancel_left_eq] at h
  -- the text goes on with the other tag, or else its label would be the other one
  have hother : ∃ tag' more, tags.due (!isThinking) = some tag' ∧ after = tag' ++ more := by
    obtain ⟨c, missed, rfl⟩ := List.exists_cons_of_ne_nil hmissed
    cases after with
    | nil => exact absurd h (List.cons_ne_nil _ _)
    | cons d after =>
        cases hfound : tags.found (!isThinking) (d :: after) with
        | some tag' =>
            obtain ⟨hdue', more, hmore⟩ := Markers.found_eq_some.1 hfound
            exact ⟨tag', more, hdue', hmore.symm⟩
        | none =>
            rw [Markers.label_cons hfound] at h
            have hhead := congrArg Prod.snd (List.cons.inj h).1
            cases isThinking <;> cases hhead
  obtain ⟨tag', more, hdue', rfl⟩ := hother
  rw [Markers.label_tag hdue', Bool.not_not] at h
  have hlength := congrArg List.length h
  have hkeeps := ha.length_label_missed hdue hdue' hmissed heq
  have hpos := List.length_pos_iff.mpr (Markers.due_ne_nil hdue)
  have hpos' := List.length_pos_iff.mpr (Markers.due_ne_nil hdue')
  have hmax : longest tags < tag.length + tag'.length := by
    rw [← Markers.width_eq hdue, ← Markers.width_eq hdue'] at *
    cases isThinking <;> simp only [longest, Bool.not_true, Bool.not_false] at * <;> omega
  rw [List.length_append, List.length_map] at hlength
  omega

/-- **Where the text comes out as it should, every token was one that may be taken**, if the tags
stand apart. -/
theorem tidy_of_textFrom (ha : tags.Apart) (hs : Holds tags s) (hlast : FinishLast responses)
    (h : textFrom tags s responses = wantedFrom tags s responses) : Tidy tags s responses := by
  induction responses generalizing s with
  | nil =>
      rcases hs.begins with hheld | ⟨inside, tag, htag, hp⟩
      · exact hheld
      · have hclear := ha.clear_of_prefix htag hp hs.not_due
        have hwanted := Markers.label_append_of_clear hclear
        rw [wantedFrom, textOf_nil, hwanted, Markers.label_nil, List.append_nil] at h
        exact List.map_eq_nil_iff.mp h.symm
  | cons response responses ih =>
      cases response with
      | none => exact ih hs hlast h
      | some r =>
          cases took hs r with
          | finished s' out finish eq empty text =>
              obtain rfl := hlast.1 finish
              rw [textFrom_finish hs finish, wantedFrom, textOf_some, textOf_nil,
                List.append_nil] at h
              have hclear : tags.Clear s.isThinking (s.held ++ r.text) [] := by
                refine Markers.clear_of_length (Nat.le_of_eq ?_)
                rw [← h]
                simp
              have hlabel := Markers.label_append_of_clear hclear
              rw [List.append_nil] at hlabel
              rw [hlabel, Markers.label_nil, List.append_nil, List.map_append,
                List.append_cancel_left_eq] at h
              refine (tidy_next eq).mpr ⟨(mayTake_finish hs finish _).mpr ⟨hclear, ?_⟩, empty⟩
              cases htext : r.text with
              | nil => exact .inr rfl
              | cons c t =>
                  rw [htext] at h
                  exact .inl (congrArg Prod.snd (List.cons.inj h).1).symm
          | swallowed go_on eq due =>
              rw [textFrom_some eq, wantedFrom_swallowed due] at h
              exact (tidy_next eq).mpr ⟨(mayTake_go_on hs go_on _).mpr (.inl (.inl due.symm)),
                ih (holds_fresh tags _) hlast.2 h⟩
          | heldBack s' go_on eq holds keeps same held =>
              rw [textFrom_some eq, wantedFrom_heldBack same held] at h
              exact (tidy_next eq).mpr ⟨(mayTake_go_on hs go_on _).mpr (.inl keeps),
                ih holds hlast.2 h⟩
          | letGo out go_on eq lets text =>
              rw [textFrom_some eq, text] at h
              have hle := length_wantedFrom_le ha (holds_fresh tags s.isThinking) hlast.2
              rw [wantedFrom_fresh] at hle
              rw [wantedFrom, textOf_some, ← List.append_assoc] at h
              have hclear := clear_of_letGo ha hle h
              rw [Markers.label_append_of_clear hclear, List.append_cancel_left_eq] at h
              exact (tidy_next eq).mpr ⟨(mayTake_go_on hs go_on _).mpr (.inr hclear),
                ih (holds_fresh tags _) hlast.2 h⟩

/-- **The thinking tags are taken out as they should be if every token may be taken**, and for
tags that stand apart only then. -/
theorem parseThinkingModels_faithful (tags : ThinkTags) (startsInThinking : Bool)
    (o : ModelOutput) :
    (Tidy tags { isThinking := startsInThinking } o.responses →
      Faithful tags startsInThinking o) ∧
    (tags.Apart → Faithful tags startsInThinking o →
      Tidy tags { isThinking := startsInThinking } o.responses) := by
  have hs := holds_fresh tags startsInThinking
  exact ⟨textFrom_of_tidy hs o.finishLast, fun ha => tidy_of_textFrom ha hs o.finishLast⟩

end Output

/-! ## Samples -/

/-- `<think>` and `</think>` -/
def thinkTags : ThinkTags where
  start := some [60, 116, 104, 105, 110, 107, 62]
  stop := some [60, 47, 116, 104, 105, 110, 107, 62]
  start_ne_nil := by decide
  stop_ne_nil := by decide

def tokenOf (text : Text) (finishReason : Option FinishReason := none) : GenerationResponse :=
  { text, token := 0, finishReason, usage := none }

/-- A tag that comes with other text in one token is text. -/
theorem not_forall_faithful : ¬ ∀ (tags : ThinkTags) (startsInThinking : Bool) (o : ModelOutput),
    Faithful tags startsInThinking o := by
  intro h
  let o : ModelOutput :=
    { responses := [some (tokenOf [60, 116, 104, 105, 110, 107, 62, 10])]
      finishLast := ⟨fun _ => rfl, trivial⟩ }
  exact absurd (h thinkTags false o) (by decide)

theorem thinkTags_apart : thinkTags.Apart := by
  intro b b'
  cases b <;> cases b' <;> intro tag htag tag' htag' <;> cases htag <;> cases htag' <;>
    exact ⟨by simp, by decide⟩

/-- Both tags as tokens of their own, the first of them in two pieces. -/
def sampleOutput : ModelOutput where
  responses := [some (tokenOf [60, 116, 104]), none, some (tokenOf [105, 110, 107, 62]),
    some (tokenOf [97]), some (tokenOf [60, 47, 116, 104, 105, 110, 107, 62]),
    some (tokenOf [98] (some .stop))]
  finishLast := by simp [FinishLast, tokenOf]

theorem parseThinkingModels_faithful_sample :
    Faithful thinkTags false sampleOutput ∧
      Tidy thinkTags { isThinking := false } sampleOutput.responses :=
  have h := parseThinkingModels_faithful thinkTags false sampleOutput
  have hfaithful := h.1 (by decide)
  ⟨hfaithful, h.2 thinkTags_apart hfaithful⟩

/-- Tags that overlap can be missed without a trace: here `ababa` and `b` in `xabababab`. -/
example : ∃ (tags : ThinkTags) (o : ModelOutput), Faithful tags false o ∧
    ¬ Tidy tags { isThinking := false } o.responses :=
  ⟨{ start := some [97, 98, 97, 98, 97], stop := some [98], start_ne_nil := by decide,
      stop_ne_nil := by decide },
    { responses := [some (tokenOf [120, 97, 98]), some (tokenOf [97, 98, 97, 98, 97]),
        some (tokenOf [98])]
      finishLast := by simp [FinishLast, tokenOf] }, by decide, by decide⟩

end Exo.Parsers
