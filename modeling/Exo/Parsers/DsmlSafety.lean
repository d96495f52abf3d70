import Exo.Parsers.Dsml

/-!
# No character is lost

What is yielded for an output is the text outside of its blocks with one answer for each block
exactly if every token is one that the parser takes as it should. An answer stands for the text that
was parsed, so that text which is lost cannot be made up for later.
-/

namespace Exo.Parsers

open Lib

variable {m : DsmlMarkers} {parseBody : Text → Option (List ToolCallItem)}

/-! ## The blocks of a text -/

theorem items_none {t : Text} (h : firstBlock m t = none) :
    items m parseBody t = t.map .char := by
  rw [items]
  split
  · rfl
  · rename_i h'
    rw [h] at h'
    cases h'

theorem items_some {t pre block rest : Text} (h : firstBlock m t = some (pre, block, rest)) :
    items m parseBody t
      = pre.map .char ++ .block block (parseBody block) :: items m parseBody rest := by
  rw [items]
  split
  · rename_i h'
    rw [h] at h'
    cases h'
  · rename_i h'
    rw [h] at h'
    cases h'
    rfl

@[simp] theorem items_nil : items m parseBody [] = [] := by
  refine items_none ?_
  rw [firstBlock, Option.bind_eq_none_iff]
  intro p hcut
  obtain ⟨heq, hp, -⟩ := cut_eq_some_iff.1 hcut
  rw [(List.append_eq_nil_iff.mp heq.symm).2, List.prefix_nil] at hp
  exact absurd hp m.start_ne_nil

theorem firstBlock_of_cut {t pre text : Text} (h : cut m.start t = some (pre, text)) :
    firstBlock m t = (cutBehind m.stop text).map fun q => (pre, q.1, q.2) := by
  rw [firstBlock, h, Option.bind_some]

theorem cut_self_of_start {text : Text} (h : m.start <+: text) (rest : Text) :
    cut m.start (text ++ rest) = some ([], text ++ rest) :=
  cut_of_isPrefix (h.trans (List.prefix_append text rest))

theorem items_block {text block rest : Text} (hstart : m.start <+: text)
    (h : cutBehind m.stop text = some (block, rest)) :
    items m parseBody text = .block block (parseBody block) :: items m parseBody rest := by
  have hfirst := firstBlock_of_cut (cut_of_isPrefix hstart)
  rw [h] at hfirst
  exact items_some hfirst

theorem items_open {text : Text} (hstart : m.start <+: text) (h : cut m.stop text = none) :
    items m parseBody text = text.map .char := by
  have hfirst := firstBlock_of_cut (cut_of_isPrefix hstart)
  rw [cutBehind, h] at hfirst
  exact items_none hfirst

/-- Text that no block begins in stays text. -/
theorem items_append_of_free {t rest : Text} (h : Free m.start t rest) :
    items m parseBody (t ++ rest) = t.map .char ++ items m parseBody rest := by
  have hcut := cut_append_of_free h
  cases hfirst : firstBlock m rest with
  | none =>
      rw [items_none hfirst, items_none, List.map_append]
      rw [firstBlock, hcut, Option.bind_map]
      rw [firstBlock, Option.bind_eq_none_iff] at hfirst
      rw [Option.bind_eq_none_iff]
      intro p hp
      have hnone := hfirst p hp
      rw [Option.map_eq_none_iff] at hnone
      exact Option.map_eq_none_iff.mpr hnone
  | some q =>
      obtain ⟨pre, block, after⟩ := q
      have hfirst' : firstBlock m (t ++ rest) = some (t ++ pre, block, after) := by
        obtain ⟨⟨before, behind⟩, hrest, hmap⟩ := Option.bind_eq_some_iff.mp hfirst
        obtain ⟨q, hq, heq⟩ := Option.map_eq_some_iff.mp hmap
        cases heq
        rw [hrest, Option.map_some] at hcut
        rw [firstBlock_of_cut hcut, hq]
        rfl
      rw [items_some hfirst, items_some hfirst', List.map_append, List.append_assoc]

theorem items_of_cut {t pre text : Text} (h : cut m.start t = some (pre, text)) (rest : Text) :
    items m parseBody (t ++ rest) = pre.map .char ++ items m parseBody (text ++ rest) := by
  obtain ⟨rfl, hstart, hfree⟩ := cut_eq_some_iff.1 h
  rw [List.append_assoc, items_append_of_free (hfree.append hstart rest)]

def Item.text : Item → Text
  | .char c => [c]
  | .block text _ => text

def flat (l : List Item) : Text := l.flatMap Item.text

@[simp] theorem flat_append (l l' : List Item) : flat (l ++ l') = flat l ++ flat l' :=
  List.flatMap_append

@[simp] theorem flat_cons (i : Item) (l : List Item) : flat (i :: l) = i.text ++ flat l := rfl

@[simp] theorem flat_block (text : Text) (calls : Option (List ToolCallItem)) :
    flat [.block text calls] = text := List.append_nil text

@[simp] theorem flat_map_char (t : Text) : flat (t.map .char) = t := by
  induction t with
  | nil => rfl
  | cons c t ih => exact congrArg (c :: ·) ih

/-- The text outside of the blocks and the blocks are the whole text. -/
theorem flat_items (t : Text) : flat (items m parseBody t) = t := by
  induction h : t.length using Nat.strongRecOn generalizing t with
  | _ n ih =>
      cases hfirst : firstBlock m t with
      | none => rw [items_none hfirst, flat_map_char]
      | some q =>
          obtain ⟨pre, block, rest⟩ := q
          have hlt := length_of_firstBlock hfirst
          rw [items_some hfirst, flat_append, flat_map_char, flat_cons, ih _ (h ▸ hlt) rest rfl]
          obtain ⟨⟨before, behind⟩, hcut, hmap⟩ := Option.bind_eq_some_iff.mp hfirst
          obtain ⟨⟨block', rest'⟩, hq, heq⟩ := Option.map_eq_some_iff.mp hmap
          cases heq
          obtain ⟨rfl, -, -⟩ := cut_eq_some_iff.1 hcut
          exact congrArg (before ++ ·) (append_of_cutBehind hq).symm

/-- Where the first block stands, and what it is, can be read off. -/
theorem chars_block_inj {pre pre' text text' : Text} {calls calls' : Option (List ToolCallItem)}
    {l l' : List Item}
    (h : pre.map .char ++ Item.block text calls :: l = pre'.map .char ++ .block text' calls' :: l') :
    pre = pre' ∧ text = text' ∧ l = l' := by
  induction pre generalizing pre' with
  | nil =>
      cases pre' with
      | nil =>
          obtain ⟨hblock, hl⟩ := List.cons.inj h
          cases hblock
          exact ⟨rfl, rfl, hl⟩
      | cons c pre' => exact absurd (List.cons.inj h).1 nofun
  | cons c pre ih =>
      cases pre' with
      | nil => exact absurd (List.cons.inj h).1 nofun
      | cons c' pre' =>
          obtain ⟨hc, hrest⟩ := List.cons.inj h
          cases hc
          obtain ⟨rfl, htext, hl⟩ := ih hrest
          exact ⟨rfl, htext, hl⟩

theorem chars_ne_block {t pre text : Text} {calls : Option (List ToolCallItem)} {l : List Item} :
    t.map .char ≠ pre.map .char ++ Item.block text calls :: l := by
  intro h
  have hmem : Item.block text calls ∈ t.map .char := h ▸ by simp
  obtain ⟨c, -, hc⟩ := List.mem_map.mp hmem
  cases hc

/-! ## What a token does -/

def itemsOf (out : List Yielded) : List Item := out.flatMap Yielded.items

@[simp] theorem itemsOf_append (out out' : List Yielded) :
    itemsOf (out ++ out') = itemsOf out ++ itemsOf out' := List.flatMap_append

@[simp] theorem itemsOf_token (r : GenerationResponse) :
    itemsOf [.token r] = r.text.map .char := List.append_nil _

@[simp] theorem itemsOf_tryParse (text : Text) (r : GenerationResponse) :
    itemsOf [tryParseToolCall parseBody text r] = [.block text (parseBody text)] := by
  unfold tryParseToolCall
  cases parseBody text <;> rfl

def textOfTokens (tokens : List GenerationResponse) : Text := tokens.flatMap (·.text)

@[simp] theorem itemsOf_tokens (tokens : List GenerationResponse) :
    itemsOf (tokens.map .token) = (textOfTokens tokens).map .char := by
  induction tokens with
  | nil => rfl
  | cons r tokens ih =>
      rw [textOfTokens, List.flatMap_cons, List.map_append]
      exact congrArg (r.text.map .char ++ ·) ih

/-- What is flushed is the text in front of the marker, as far as it was held back. -/
theorem textOfTokens_flushBefore (tokens : List GenerationResponse) {pre rest behind : Text}
    (h : textOfTokens tokens ++ behind = pre ++ rest) :
    textOfTokens (flushBefore tokens pre) = pre.take (textOfTokens tokens).length := by
  induction tokens generalizing pre with
  | nil => simp [flushBefore, textOfTokens]
  | cons r tokens ih =>
      have hsplit : r.text ++ (textOfTokens tokens ++ behind) = pre ++ rest := by
        rw [← h, ← List.append_assoc]
        rfl
      rw [flushBefore]
      split
      · rename_i hempty
        rw [hempty, List.take_nil]
        rfl
      · split
        · rename_i hle
          -- the token stands in front of the marker as a whole
          obtain ⟨more, rfl⟩ : r.text <+: pre :=
            List.prefix_of_prefix_length_le ⟨_, hsplit⟩ (List.prefix_append pre rest) hle
          rw [List.append_assoc, List.append_cancel_left_eq] at hsplit
          have hrest := ih hsplit
          rw [List.drop_left]
          simp only [textOfTokens, List.flatMap_cons, List.length_append] at hrest ⊢
          rw [hrest, List.take_length_add_append]
        · rename_i hlt
          have hle : pre.length ≤ (textOfTokens (r :: tokens)).length := by
            simp only [textOfTokens, List.flatMap_cons, List.length_append]
            omega
          rw [List.take_of_length_le hle]
          exact List.append_nil pre

namespace DsmlParser

variable {s s' : DsmlParser} {r : GenerationResponse}

theorem held_fresh : held {} = [] := rfl

/-- Either some tokens are held back, outside of a block, or the text of a block is gathered. -/
inductive Holds (m : DsmlMarkers) : DsmlParser → Prop
  | outside (pending : List GenerationResponse) (cut : cut m.start (textOfTokens pending) = none) :
      Holds m { accumulated := textOfTokens pending, pendingBuffer := pending }
  | inside (text : Text) (start : m.start <+: text) (stop : cut m.stop text = none) :
      Holds m { inToolCall := true, toolCallText := text }

theorem holds_fresh (m : DsmlMarkers) : Holds m {} :=
  .outside [] (cut_eq_none_iff.2 fun h => m.start_ne_nil (List.infix_nil.mp h))

/-- What may happen to a token that does not finish. -/
inductive Took (m : DsmlMarkers) (parseBody : Text → Option (List ToolCallItem)) (s : DsmlParser)
    (r : GenerationResponse) : Prop
  | kept (s' : DsmlParser) (eq : s.next m parseBody (some r) = ([], some s')) (holds : Holds m s')
      (held : s'.held = s.held ++ r.text)
      (may : s.MayTake m r)
  | closed (pre text : Text) (out : List Yielded)
      (eq : s.next m parseBody (some r) = (out, some {}))
      (cut : cut m.start (s.held ++ r.text) = some (pre, text))
      (items : itemsOf out
        = (pre.take s.held.length).map .char ++ [.block text (parseBody text)])
      (stop : (Lib.cut m.stop text).isSome)
  | opened (pre text : Text) (out : List Yielded) (s' : DsmlParser)
      (eq : s.next m parseBody (some r) = (out, some s')) (holds : Holds m s')
      (held : s'.held = text)
      (cut : cut m.start (s.held ++ r.text) = some (pre, text))
      (items : itemsOf out = (pre.take s.held.length).map .char)
      (stop : Lib.cut m.stop text = none)
  | letGo (out : List Yielded) (eq : s.next m parseBody (some r) = (out, some {}))
      (free : ∀ rest, Free m.start (s.held ++ r.text) rest)
      (items : itemsOf out = (s.held ++ r.text).map .char)
      (may : s.MayTake m r)

theorem mayTake_go_on (hfin : r.finishReason = none) :
    s.MayTake m r ↔ ∀ p ∈ cut m.start (s.held ++ r.text),
      p.1.length ≤ s.held.length ∧ Whole m p.2 := by
  simp only [MayTake, hfin, Option.isSome_none, Bool.false_eq_true, if_false]

theorem free_of_not_couldBe {t rest : Text} (hcut : cut m.start t = none)
    (h : couldBeMarkerPrefix t m.start = false) : Free m.start t rest := by
  refine free_of_not_infix (cut_eq_none_iff.1 hcut) fun s hs hne hle hp => ?_
  have htail : s <:+ t.drop (t.length - m.start.length) := by
    obtain ⟨before, rfl⟩ := hs
    refine ⟨before.drop (s.length + before.length - m.start.length), ?_⟩
    rw [List.drop_append_of_le_length (by rw [List.length_append]; omega), List.length_append,
      Nat.add_comm before.length]
  have hnot := List.any_eq_false.mp h s ((List.mem_tails _ _).mpr htail)
  exact hnot (by simpa [hne] using hp)

variable (parseBody) in
theorem took (h : Holds m s) (hfin : r.finishReason = none) : Took m parseBody s r := by
  have hgo : r.finishReason.isSome = false := by rw [hfin]; rfl
  cases h with
  | inside text start stop =>
      have hcut := cut_self_of_start start r.text
      by_cases hstop : (cut m.stop (text ++ r.text)).isSome
      · refine .closed [] (text ++ r.text) [tryParseToolCall parseBody (text ++ r.text) r] ?_ hcut
          (by simp) hstop
        simp [next, hgo, hstop]
      · have hnone : cut m.stop (text ++ r.text) = none := by simpa using hstop
        refine .kept { inToolCall := true, toolCallText := text ++ r.text } ?_
          (.inside _ ((start).trans (List.prefix_append text r.text)) hnone) rfl ?_
        · simp [next, hgo, hstop]
        · rw [mayTake_go_on hfin]
          intro p hp
          rw [show held { inToolCall := true, toolCallText := text } = text from rfl, hcut] at hp
          cases hp
          refine ⟨Nat.zero_le _, fun q hq => ?_⟩
          rw [cutBehind, hnone] at hq
          cases hq
  | outside pending hcut =>
      cases hcut' : cut m.start (textOfTokens pending ++ r.text) with
      | some p =>
          obtain ⟨pre, text⟩ := p
          obtain ⟨hsplit, hstart, -⟩ := cut_eq_some_iff.1 hcut'
          have hflush := textOfTokens_flushBefore pending hsplit
          cases hstop : cut m.stop text with
          | some q =>
              refine .closed pre text ((flushBefore pending pre).map .token ++
                [tryParseToolCall parseBody text r]) ?_ hcut' ?_ (by rw [hstop]; rfl)
              · simp [next, hgo, hcut', hstop]
              · rw [itemsOf_append, itemsOf_tokens, itemsOf_tryParse, hflush]
                rfl
          | none =>
              refine .opened pre text ((flushBefore pending pre).map .token)
                { inToolCall := true, toolCallText := text } ?_ (.inside text hstart hstop) rfl
                hcut' ?_ hstop
              · simp [next, hgo, hcut', hstop]
              · rw [itemsOf_tokens, hflush]
                rfl
      | none =>
          have hmay : MayTake m
              { accumulated := textOfTokens pending, pendingBuffer := pending } r := by
            rw [mayTake_go_on hfin]
            intro p hp
            rw [show held { accumulated := textOfTokens pending, pendingBuffer := pending } =
              textOfTokens pending from rfl, hcut'] at hp
            cases hp
          have htext : textOfTokens (pending ++ [r]) = textOfTokens pending ++ r.text := by
            simp [textOfTokens]
          cases hcould : couldBeMarkerPrefix (textOfTokens pending ++ r.text) m.start with
          | true =>
              refine .kept
                { accumulated := textOfTokens (pending ++ [r]), pendingBuffer := pending ++ [r] } ?_
                (.outside _ (htext ▸ hcut')) htext hmay
              simp [next, hgo, hcut', hcould, htext]
          | false =>
              refine .letGo (pending.map .token ++ [.token r]) ?_
                (fun rest => free_of_not_couldBe hcut' hcould) ?_ hmay
              · simp [next, hgo, hcut', hcould]
              · rw [itemsOf_append, itemsOf_tokens, itemsOf_token, ← List.map_append]
                rfl

/-- What may happen to the token that finishes. -/
inductive Ended (m : DsmlMarkers) (parseBody : Text → Option (List ToolCallItem)) (s : DsmlParser)
    (r : GenerationResponse) : Prop
  | closed (out : List Yielded) (eq : s.next m parseBody (some r) = (out, none))
      (start : m.start <+: s.held ++ r.text) (stop : (cut m.stop (s.held ++ r.text)).isSome)
      (items : itemsOf out = [.block (s.held ++ r.text) (parseBody (s.held ++ r.text))])
      (may : s.MayTake m r ↔ Whole m (s.held ++ r.text))
  | left (out : List Yielded) (eq : s.next m parseBody (some r) = (out, none))
      (start : m.start <+: s.held ++ r.text) (stop : cut m.stop (s.held ++ r.text) = none)
      (items : itemsOf out = (s.held ++ r.text).map .char)
      (may : s.MayTake m r)
  | block (out : List Yielded) (before text : Text)
      (eq : s.next m parseBody (some r) = (out, none)) (split : r.text = before ++ text)
      (items : itemsOf out = (s.held ++ before).map .char ++ [.block text (parseBody text)])
      (may : s.MayTake m r ↔
        firstBlock m (s.held ++ r.text) = some (s.held ++ before, text, []))
  | plain (out : List Yielded) (eq : s.next m parseBody (some r) = (out, none))
      (items : itemsOf out = (s.held ++ r.text).map .char)
      (may : s.MayTake m r ↔ firstBlock m (s.held ++ r.text) = none)

variable (parseBody) in
theorem ended (h : Holds m s) (hfin : r.finishReason ≠ none) : Ended m parseBody s r := by
  have hend : r.finishReason.isSome = true := Option.isSome_iff_ne_none.mpr hfin
  cases h with
  | inside text start stop =>
      have hstart := (start).trans (List.prefix_append text r.text)
      have hmay : MayTake m { inToolCall := true, toolCallText := text } r ↔
          Whole m (text ++ r.text) := by
        simp only [MayTake, hend, if_true]
        rfl
      cases hstop : cut m.stop (text ++ r.text) with
      | some q =>
          have hsome : (cut m.stop (text ++ r.text)).isSome := by rw [hstop]; rfl
          refine .closed [tryParseToolCall parseBody (text ++ r.text) r] ?_ hstart hsome
            (itemsOf_tryParse _ _) hmay
          simp [next, last, hend, hstop]
      | none =>
          refine .left [.token { r with text := text ++ r.text }] ?_ hstart hstop
            (itemsOf_token _) ?_
          · simp [next, last, hend, hstop]
          · rw [hmay]
            intro q hq
            rw [cutBehind, hstop] at hq
            cases hq
  | outside pending hcut =>
      cases hstart : cut m.start r.text with
      | none =>
          refine .plain (pending.map .token ++ [.token r]) ?_ ?_ ?_
          · simp [next, last, hend, hstart]
          · rw [itemsOf_append, itemsOf_tokens, itemsOf_token, ← List.map_append]
            rfl
          · simp [MayTake, hend, hstart]
      | some p =>
          obtain ⟨before, text⟩ := p
          cases hstop : cut m.stop r.text with
          | none =>
              refine .plain (pending.map .token ++ [.token r]) ?_ ?_ ?_
              · simp [next, last, hend, hstart, hstop]
              · rw [itemsOf_append, itemsOf_tokens, itemsOf_token, ← List.map_append]
                rfl
              · simp [MayTake, hend, hstart, hstop]
          | some q =>
              have hbefore : itemsOf (if before = [] then []
                  else [.token { r with text := before }]) = before.map .char := by
                split
                · rename_i hempty
                  rw [hempty]
                  rfl
                · exact itemsOf_token _
              refine .block (pending.map .token ++ ((if before = [] then []
                else [.token { r with text := before }]) ++
                  [tryParseToolCall parseBody text r])) before text ?_
                (cut_eq_some_iff.1 hstart).1 ?_ ?_
              · simp [next, last, hend, hstart, hstop]
              · rw [itemsOf_append, itemsOf_append, itemsOf_tokens, itemsOf_tryParse, hbefore,
                  ← List.append_assoc, ← List.map_append]
                rfl
              · simp [MayTake, hend, hstart, hstop]

theorem tidy_next {out : List Yielded} {responses : List (Option GenerationResponse)}
    (h : s.next m parseBody (some r) = (out, some s')) :
    Tidy m parseBody s (some r :: responses) ↔
      s.MayTake m r ∧ Tidy m parseBody s' responses := by
  simp [Tidy, h]

theorem tidy_last {out : List Yielded} (h : s.next m parseBody (some r) = (out, none)) :
    Tidy m parseBody s [some r] ↔ s.MayTake m r := by
  simp [Tidy, h]

theorem mayTake_cut (hfin : r.finishReason = none) {pre text : Text}
    (hcut : cut m.start (s.held ++ r.text) = some (pre, text)) :
    s.MayTake m r ↔ pre.length ≤ s.held.length ∧ Whole m text := by
  rw [mayTake_go_on hfin, hcut]
  exact ⟨fun h => h _ rfl, fun h p hp => by cases hp; exact h⟩

end DsmlParser

/-! ## Whole outputs -/

section Output

open DsmlParser (Holds Took Ended Tidy took ended holds_fresh tidy_next tidy_last mayTake_cut)

variable {s s' : DsmlParser} {r : GenerationResponse}
  {responses : List (Option GenerationResponse)}

variable (m parseBody) in
def itemsFrom (s : DsmlParser) (responses : List (Option GenerationResponse)) : List Item :=
  itemsOf ((dsmlGenerator m parseBody).output s responses)

variable (m parseBody) in
def wantedItems (s : DsmlParser) (responses : List (Option GenerationResponse)) : List Item :=
  items m parseBody (s.held ++ textOf responses)

theorem itemsFrom_next {out : List Yielded}
    (h : s.next m parseBody (some r) = (out, some s')) :
    itemsFrom m parseBody s (some r :: responses)
      = itemsOf out ++ itemsFrom m parseBody s' responses := by
  rw [itemsFrom, Generator.output_cons h, itemsOf_append]
  rfl

theorem itemsFrom_last {out : List Yielded} (h : s.next m parseBody (some r) = (out, none)) :
    itemsFrom m parseBody s (some r :: responses) = itemsOf out := by
  rw [itemsFrom, Generator.output_leave h]

theorem wantedItems_some : wantedItems m parseBody s (some r :: responses)
    = items m parseBody (s.held ++ r.text ++ textOf responses) := by
  rw [wantedItems, textOf_some, List.append_assoc]

theorem wantedItems_last :
    wantedItems m parseBody s [some r] = items m parseBody (s.held ++ r.text) := by
  rw [wantedItems_some, textOf_nil, List.append_nil]

theorem wantedItems_fresh :
    wantedItems m parseBody {} responses = items m parseBody (textOf responses) := rfl

variable (parseBody) in
/-- A block that is complete at the end of a text, and nothing but text before it. -/
theorem items_closed {t pre text : Text} (hcut : cut m.start t = some (pre, text))
    (hstop : (cut m.stop text).isSome) (rest : Text) : ∃ block after,
      cutBehind m.stop text = some (block, after) ∧
        items m parseBody (t ++ rest) = pre.map .char ++
          .block block (parseBody block) :: items m parseBody (after ++ rest) := by
  obtain ⟨-, hstart, -⟩ := cut_eq_some_iff.1 hcut
  cases hbehind : cutBehind m.stop text with
  | none =>
      rw [cutBehind, Option.map_eq_none_iff] at hbehind
      rw [hbehind] at hstop
      cases hstop
  | some q =>
      obtain ⟨block, after⟩ := q
      refine ⟨block, after, rfl, ?_⟩
      rw [items_of_cut hcut, items_block (hstart.trans (List.prefix_append text rest))
        (cutBehind_append hbehind rest)]

theorem whole_iff {text block after : Text} (h : cutBehind m.stop text = some (block, after)) :
    Whole m text ↔ after = [] := by
  rw [Whole, h]
  exact ⟨fun hw => hw _ rfl, fun ha q hq => by cases hq; exact ha⟩

theorem eq_of_whole {text block after : Text} (h : cutBehind m.stop text = some (block, after))
    (hw : Whole m text) : text = block ∧ after = [] := by
  obtain rfl := (whole_iff h).mp hw
  exact ⟨(append_of_cutBehind h).trans (List.append_nil block), rfl⟩

/-- **If every token may be taken, all text comes out, and one answer for each block.** -/
theorem itemsFrom_of_tidy (hs : Holds m s) (hfinished : Finished responses)
    (h : Tidy m parseBody s responses) :
    itemsFrom m parseBody s responses = wantedItems m parseBody s responses := by
  induction responses generalizing s with
  | nil => exact absurd hfinished id
  | cons response responses ih =>
      cases response with
      | none => exact ih hs hfinished h
      | some r =>
          rcases hfinished with ⟨hfin, rfl⟩ | ⟨hfin, hrest⟩
          · rw [wantedItems_last]
            cases ended parseBody hs hfin with
            | closed out eq start stop items may =>
                have hw := may.mp ((tidy_last eq).mp h)
                obtain ⟨block, after, hbehind, hitems⟩ :=
                  items_closed parseBody (cut_of_isPrefix start) stop []
                obtain ⟨htext, rfl⟩ := eq_of_whole hbehind hw
                rw [List.append_nil, List.append_nil, items_nil, ← htext] at hitems
                rw [itemsFrom_last eq, items, hitems]
                rfl
            | left out eq start stop items may => rw [itemsFrom_last eq, items, items_open start stop]
            | block out before text eq split items may =>
                have hfirst := may.mp ((tidy_last eq).mp h)
                rw [itemsFrom_last eq, items, items_some hfirst, items_nil]
            | plain out eq items may =>
                have hfirst := may.mp ((tidy_last eq).mp h)
                rw [itemsFrom_last eq, items, items_none hfirst]
          · rw [wantedItems_some]
            cases took parseBody hs hfin with
            | kept s' eq holds held may =>
                rw [itemsFrom_next eq, ih holds hrest ((tidy_next eq).mp h).2, wantedItems, held]
                rfl
            | closed pre text out eq cut items stop =>
                obtain ⟨hmay, hnext⟩ := (tidy_next eq).mp h
                obtain ⟨hpre, hw⟩ := (mayTake_cut hfin cut).mp hmay
                obtain ⟨block, after, hbehind, hitems⟩ :=
                  items_closed parseBody cut stop (textOf responses)
                obtain ⟨rfl, rfl⟩ := eq_of_whole hbehind hw
                rw [itemsFrom_next eq, items, hitems, List.take_of_length_le hpre,
                  ih (holds_fresh m) hrest hnext, wantedItems_fresh, List.append_assoc]
                rfl
            | opened pre text out s' eq holds held cut items stop =>
                obtain ⟨hmay, hnext⟩ := (tidy_next eq).mp h
                have hpre := ((mayTake_cut hfin cut).mp hmay).1
                rw [itemsFrom_next eq, items, items_of_cut cut, List.take_of_length_le hpre,
                  ih holds hrest hnext, wantedItems, held]
            | letGo out eq free items may =>
                rw [itemsFrom_next eq, items, items_append_of_free (free _),
                  ih (holds_fresh m) hrest ((tidy_next eq).mp h).2, wantedItems_fresh]

/-! ## What is lost stays lost -/

variable (parseBody) in
/-- What is yielded stands for no more than the text there is. -/
theorem length_flat_le (hs : Holds m s) (hfinished : Finished responses) :
    (flat (itemsFrom m parseBody s responses)).length
      ≤ s.held.length + (textOf responses).length := by
  induction responses generalizing s with
  | nil => exact absurd hfinished id
  | cons response responses ih =>
      cases response with
      | none => exact ih hs hfinished
      | some r =>
          rcases hfinished with ⟨hfin, rfl⟩ | ⟨hfin, hrest⟩
          · have hflat : ∃ out, s.next m parseBody (some r) = (out, none) ∧
                flat (itemsOf out) = s.held ++ r.text := by
              cases ended parseBody hs hfin with
              | closed out eq start stop items may => exact ⟨out, eq, by rw [items, flat_block]⟩
              | left out eq start stop items may
              | plain out eq items may => exact ⟨out, eq, by rw [items, flat_map_char]⟩
              | block out before text eq split items may =>
                  refine ⟨out, eq, ?_⟩
                  rw [items, flat_append, flat_map_char, flat_block, split, List.append_assoc]
            obtain ⟨out, eq, hout⟩ := hflat
            rw [itemsFrom_last eq, hout, textOf_some, textOf_nil, List.append_nil,
              List.length_append]
          · rw [textOf_some, List.length_append]
            cases took parseBody hs hfin with
            | kept s' eq holds held may =>
                have hle := ih holds hrest
                rw [held, List.length_append] at hle
                rw [itemsFrom_next eq]
                simp only [itemsOf, List.flatMap_nil, List.nil_append]
                omega
            | closed pre text out eq cut items stop =>
                have hle := ih (holds_fresh m) hrest
                have hsplit := congrArg List.length (cut_eq_some_iff.1 cut).1
                rw [itemsFrom_next eq, items]
                simp only [flat_append, flat_map_char, flat_block, List.length_append,
                  List.length_take] at hsplit ⊢
                rw [DsmlParser.held_fresh, List.length_nil] at hle
                omega
            | opened pre text out s' eq holds held cut items stop =>
                have hle := ih holds hrest
                have hsplit := congrArg List.length (cut_eq_some_iff.1 cut).1
                rw [held] at hle
                rw [itemsFrom_next eq, items, flat_append, flat_map_char, List.length_append,
                  List.length_take]
                rw [List.length_append, List.length_append] at hsplit
                omega
            | letGo out eq free items may =>
                have hle := ih (holds_fresh m) hrest
                rw [DsmlParser.held_fresh, List.length_nil] at hle
                rw [itemsFrom_next eq, items, flat_append, flat_map_char, List.length_append,
                  List.length_append]
                omega

/-- **Where all text comes out, and one answer for each block, every token was one that may be
taken.** -/
theorem tidy_of_itemsFrom (hs : Holds m s) (hfinished : Finished responses)
    (h : itemsFrom m parseBody s responses = wantedItems m parseBody s responses) :
    Tidy m parseBody s responses := by
  induction responses generalizing s with
  | nil => exact absurd hfinished id
  | cons response responses ih =>
      cases response with
      | none => exact ih hs hfinished h
      | some r =>
          rcases hfinished with ⟨hfin, rfl⟩ | ⟨hfin, hrest⟩
          · rw [wantedItems_last] at h
            cases ended parseBody hs hfin with
            | closed out eq start stop items may =>
                obtain ⟨block, after, hbehind, hitems⟩ :=
                  items_closed parseBody (cut_of_isPrefix start) stop []
                rw [List.append_nil] at hitems
                rw [itemsFrom_last eq, items, hitems] at h
                obtain ⟨-, -, hafter⟩ := @chars_block_inj [] [] _ _ _ _ _ _ h
                have hflat := congrArg flat hafter
                rw [flat_items, List.append_nil] at hflat
                exact (tidy_last eq).mpr (may.mpr ((whole_iff hbehind).mpr hflat.symm))
            | left out eq start stop items may => exact (tidy_last eq).mpr may
            | block out before text eq split items may =>
                rw [itemsFrom_last eq, items] at h
                refine (tidy_last eq).mpr (may.mpr ?_)
                cases hfirst : firstBlock m (s.held ++ r.text) with
                | none =>
                    rw [items_none hfirst] at h
                    exact absurd h.symm chars_ne_block
                | some q =>
                    obtain ⟨pre, block, rest⟩ := q
                    rw [items_some hfirst] at h
                    obtain ⟨hpre, htext, hrest⟩ := chars_block_inj h
                    have hflat := congrArg flat hrest
                    rw [flat_items] at hflat
                    rw [hpre, htext, ← hflat]
                    rfl
            | plain out eq items may =>
                rw [itemsFrom_last eq, items] at h
                refine (tidy_last eq).mpr (may.mpr ?_)
                cases hfirst : firstBlock m (s.held ++ r.text) with
                | none => rfl
                | some q =>
                    obtain ⟨pre, block, rest⟩ := q
                    rw [items_some hfirst] at h
                    exact absurd h chars_ne_block
          · rw [wantedItems_some] at h
            cases took parseBody hs hfin with
            | kept s' eq holds held may =>
                rw [itemsFrom_next eq] at h
                refine (tidy_next eq).mpr ⟨may, ih holds hrest ?_⟩
                rw [wantedItems, held]
                exact h
            | closed pre text out eq cut items stop =>
                have hle := length_flat_le parseBody (holds_fresh m) hrest
                obtain ⟨block, after, hbehind, hitems⟩ :=
                  items_closed parseBody cut stop (textOf responses)
                -- nothing in front of the block is lost
                have hpre : pre.length ≤ s.held.length := by
                  have hflat := congrArg (fun l => (flat l).length) h
                  have hsplit := congrArg List.length (cut_eq_some_iff.1 cut).1
                  simp only [flat_items, itemsFrom_next eq, items, flat_append, flat_map_char,
                    flat_block, List.length_append, List.length_take] at hflat hsplit
                  rw [DsmlParser.held_fresh, List.length_nil] at hle
                  omega
                rw [itemsFrom_next eq, items, hitems, List.take_of_length_le hpre,
                  List.append_assoc] at h
                obtain ⟨-, htext, hout⟩ := chars_block_inj h
                have hafter : after = [] := by
                  have happend := append_of_cutBehind hbehind
                  rw [htext] at happend
                  exact List.self_eq_append_right.mp happend
                rw [hafter] at hout
                exact (tidy_next eq).mpr ⟨(mayTake_cut hfin cut).mpr
                  ⟨hpre, (whole_iff hbehind).mpr hafter⟩, ih (holds_fresh m) hrest hout⟩
            | opened pre text out s' eq holds held cut items stop =>
                have hle := length_flat_le parseBody holds hrest
                have hpre : pre.length ≤ s.held.length := by
                  have hflat := congrArg (fun l => (flat l).length) h
                  have hsplit := congrArg List.length (cut_eq_some_iff.1 cut).1
                  rw [held] at hle
                  simp only [flat_items, itemsFrom_next eq, items, flat_append, flat_map_char,
                    List.length_append, List.length_take] at hflat hsplit
                  omega
                rw [itemsFrom_next eq, items, items_of_cut cut, List.take_of_length_le hpre,
                  List.append_cancel_left_eq] at h
                have hw : Whole m text := by
                  intro q hq
                  rw [cutBehind, stop] at hq
                  cases hq
                refine (tidy_next eq).mpr ⟨(mayTake_cut hfin cut).mpr ⟨hpre, hw⟩,
                  ih holds hrest ?_⟩
                rw [wantedItems, held]
                exact h
            | letGo out eq free items may =>
                rw [itemsFrom_next eq, items, items_append_of_free (free _),
                  List.append_cancel_left_eq] at h
                exact (tidy_next eq).mpr ⟨may, ih (holds_fresh m) hrest h⟩

/-- **All text outside of the blocks comes out, and one answer for each block, exactly if every
token may be taken.** -/
theorem parseDsmlStream_conserves (m : DsmlMarkers)
    (parseBody : Text → Option (List ToolCallItem)) (o : FinishedOutput) :
    Conserves m parseBody o ↔ Tidy m parseBody {} o.responses :=
  ⟨tidy_of_itemsFrom (holds_fresh m) o.finished, itemsFrom_of_tidy (holds_fresh m) o.finished⟩

end Output

/-! ## Samples -/

/-- `<｜DSML｜tool_calls>` and `</｜DSML｜tool_calls>` -/
def dsmlMarkers : DsmlMarkers where
  start := [60, 65372, 68, 83, 77, 76, 65372, 116, 111, 111, 108, 95, 99, 97, 108, 108, 115, 62]
  stop := [60, 47, 65372, 68, 83, 77, 76, 65372, 116, 111, 111, 108, 95, 99, 97, 108, 108, 115, 62]
  start_ne_nil := by decide
  stop_ne_nil := by decide

def dsmlToken (text : Text) (finishReason : Option FinishReason := none) : GenerationResponse :=
  { text, token := 0, finishReason, usage := none }

/-- Text that comes in one token with the marker behind it is lost. -/
theorem not_forall_parseDsmlStream_conserves : ¬ ∀ (m : DsmlMarkers)
    (parseBody : Text → Option (List ToolCallItem)) (o : FinishedOutput),
    Conserves m parseBody o := by
  intro h
  let o : FinishedOutput :=
    { responses := [some (dsmlToken (120 :: dsmlMarkers.start)),
        some (dsmlToken dsmlMarkers.stop), some (dsmlToken [] (some .stop))]
      finished := by simp [Finished, dsmlToken] }
  have htidy : DsmlParser.Tidy dsmlMarkers (fun _ => none) {} o.responses :=
    tidy_of_itemsFrom (DsmlParser.holds_fresh dsmlMarkers) o.finished
      (h dsmlMarkers (fun _ => none) o)
  exact absurd htidy (by decide)

end Exo.Parsers
