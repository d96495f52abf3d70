import Exo.Mlx.VisionPrompt

/-!
# How image tokens lie in a prompt

When no image token begins in a text of the template, the tokens of the prompt are those of the texts
with the image tokens of one image after the other between them. Where an image token begins in a text,
there is an image token that no image is marked on.
-/

namespace Exo.Vision

open Lib

variable {Token F : Type} [DecidableEq Token]

namespace Pipeline

variable (v : Pipeline Token F)

/-- How a text between two image tokens is encoded. -/
def encodeBetween (t : Text) : List Token := if t = [] then [] else v.encodeText t

/-- No image token begins in a text of the template; the last one may end with the beginning of one. -/
def Clean (imageToken : Text) : Text → List Text → Prop
  | t, [] => Free imageToken t []
  | t, t' :: shown => Free imageToken t imageToken ∧ Clean imageToken t' shown

end Pipeline

/-! ## Marks are not looked at -/

theorem map_fst_plain {α : Type} (l : List α) : (plain l).map Prod.fst = l := by
  rw [plain, List.map_map]
  exact List.map_id l

theorem map_snd_plain {α : Type} (l : List α) : (plain l).map Prod.snd = List.replicate l.length none := by
  rw [plain, List.map_map]
  exact List.map_const' ..

theorem map_fst_fixMarkedLoop (think : ThinkTokens Token) (depth startLength endLength : Nat)
    (tokens : List (Marked Token)) :
    (fixMarkedLoop think depth startLength endLength tokens).map Prod.fst
      = fixLoop think depth startLength endLength (tokens.map Prod.fst) := by
  induction tokens generalizing depth startLength endLength with
  | nil => rfl
  | cons token tokens ih =>
      rw [fixMarkedLoop, List.map_cons, fixLoop]
      split
      · rw [List.map_cons]
        split <;> rw [ih]
      · split
        · split
          · split
            · rw [List.map_append, List.map_cons, map_fst_plain, ih]
            · rw [List.map_cons, ih]
          · rw [List.map_cons, ih]
        · rw [List.map_cons, ih]

theorem map_fst_fixMarked (think : Option (ThinkTokens Token)) (tokens : List (Marked Token)) :
    (fixMarked think tokens).map Prod.fst = fixUnmatchedThinkEndTokens think (tokens.map Prod.fst) := by
  cases think with
  | none => rfl
  | some think => exact map_fst_fixMarkedLoop think 0 0 0 tokens

variable {v : Pipeline Token F}

omit [DecidableEq Token] in
theorem map_fst_markedEncode (hv : v.Documented) (prompt : List (Marked CodePoint)) :
    (v.markedEncode prompt).map Prod.fst = v.encode (prompt.map Prod.fst) := by
  have hpiece : ∀ piece : Piece (Marked CodePoint),
      (v.markedPiece piece).map Prod.fst = v.pieceTokens id (piece.map Prod.fst) := fun piece => by
    cases piece with
    | text chars =>
        rw [Pipeline.markedPiece, map_fst_plain, Piece.map, Pipeline.pieceTokens, List.map_id]
    | occurrence first => rfl
  have hpieces : piecesFrom id v.imageToken 0 [] (prompt.map Prod.fst)
      = (piecesFrom Prod.fst v.imageToken 0 [] prompt).map (Piece.map Prod.fst) :=
    (map_piecesFrom (fun _ => rfl) 0 [] prompt).symm
  rw [hv.encode, hpieces, Pipeline.markedEncode, List.map_flatMap, List.flatMap_map]
  exact List.flatMap_congr fun piece _ => hpiece piece

/-- The marked tokens are the tokens of the result. -/
theorem map_fst_markedTokens (hv : v.Documented) (features : CachedFeatures F) (images : List Image)
    (template : Template) :
    (v.markedTokens (features.perImage.map List.length) template).map Prod.fst
      = (v.process features images ((template.render v.imageToken).map Prod.fst)).promptTokens := by
  have hprompt : ∀ l : List (Marked CodePoint), ∀ counts,
      (buildVisionPrompt Prod.fst v.imageToken counts l).map Prod.fst
        = buildVisionPrompt id v.imageToken counts (l.map Prod.fst) := fun l counts => by
    have hkey : ∀ a : Marked CodePoint, id (Prod.fst a) = Prod.fst a := fun _ => rfl
    rw [buildVisionPrompt, buildVisionPrompt, map_repeatFrom hkey]
  rw [Pipeline.markedTokens, map_fst_fixMarked, map_fst_markedEncode hv, hprompt]
  rfl

/-! ## The tokens of a template -/

/-- Image tokens of one image after the other, each with the tokens behind them. -/
def laidFrom (imageTokenId : Token) : Nat → List (Nat × List Token) → List (Marked Token)
  | _, [] => []
  | image, (n, between) :: rest =>
    List.replicate n (imageTokenId, some image) ++ plain between
      ++ laidFrom imageTokenId (image + 1) rest

/-- What is written for the images from the `image`-th on. -/
def Pipeline.segments (v : Pipeline Token F) (count : Nat → Nat) :
    Nat → List Text → List (Nat × List Token)
  | _, [] => []
  | image, t :: shown => (count image, v.encodeBetween t) :: segments v count (image + 1) shown

/-- The tokens of a part of a template that begins with a text. -/
def Pipeline.tokensFrom (v : Pipeline Token F) (count : Nat → Nat) (image : Nat)
    (rendered : List (Marked CodePoint)) : List (Marked Token) :=
  v.markedEncode (repeatFrom Prod.fst v.imageToken count 0 image rendered)

variable {count : Nat → Nat} {image : Nat} {t t' : Text} {shown : List Text}

theorem keys_placeholder (imageToken : Text) (image : Nat) :
    (placeholder imageToken image).map Prod.fst = imageToken := by
  cases imageToken with
  | nil => rfl
  | cons c rest => rw [placeholder, List.map_cons, map_fst_plain]

omit [DecidableEq Token] in
theorem markedEncode_text (t : Text) :
    (flush (plain t)).flatMap v.markedPiece = plain (v.encodeBetween t) := by
  cases t with
  | nil => rfl
  | cons c t =>
      rw [Pipeline.encodeBetween, if_neg (List.cons_ne_nil c t)]
      show v.markedPiece (.text (plain (c :: t))) ++ [] = _
      rw [List.append_nil, Pipeline.markedPiece, map_fst_plain]

omit [DecidableEq Token] in
theorem markedEncode_replicate (n : Nat) (first : Marked CodePoint) :
    (List.replicate n (Piece.occurrence first)).flatMap v.markedPiece
      = List.replicate n (v.imageTokenId, first.2) := by
  induction n with
  | zero => rfl
  | succ n ih => rw [List.replicate_succ, List.flatMap_cons, ih, List.replicate_succ]; rfl

omit [DecidableEq Token] in
/-- A text without image tokens, and an image token behind it. -/
theorem tokensFrom_occurrence {first : Marked CodePoint} {o rest : List (Marked CodePoint)}
    (ho : (first :: o).map Prod.fst = v.imageToken) (hfree : Free v.imageToken t v.imageToken)
    (hcount : 0 < count image) :
    v.tokensFrom count image (plain t ++ (first :: o ++ rest))
      = plain (v.encodeBetween t) ++ List.replicate (count image) (v.imageTokenId, first.2)
        ++ v.tokensFrom count (image + 1) rest := by
  -- the image token stands behind the text before and after it is repeated
  have hbehind : ∀ l : List (Marked CodePoint),
      Free v.imageToken ((plain t).map Prod.fst) ((first :: o ++ l).map Prod.fst) := fun l => by
    rw [map_fst_plain, List.map_append, ho]
    exact (free_iff_of_starts (List.prefix_append _ _)).mpr hfree
  obtain ⟨n, hn⟩ : ∃ n, count image = n + 1 := ⟨count image - 1, by omega⟩
  rw [Pipeline.tokensFrom, repeatFrom_free (hbehind rest), repeatFrom_occurrence ho, hn,
    List.replicate_succ, List.flatten_cons, List.append_assoc, Pipeline.markedEncode,
    piecesFrom_free (hbehind _), piecesFrom_occurrence ho, piecesFrom_replicate ho, List.nil_append,
    List.flatMap_append, List.flatMap_cons, List.flatMap_append, markedEncode_text,
    markedEncode_replicate, List.replicate_succ, List.append_assoc]
  rfl

omit [DecidableEq Token] in
theorem exists_placeholder (hv : v.Documented) (image : Nat) : ∃ c o,
    placeholder v.imageToken image = (c, some image) :: o
      ∧ ((c, some image) :: o).map Prod.fst = v.imageToken := by
  cases htoken : v.imageToken with
  | nil => exact absurd htoken hv.imageToken_ne_nil
  | cons c rest => exact ⟨c, plain rest, rfl, by rw [List.map_cons, map_fst_plain]⟩

omit [DecidableEq Token] in
/-- The tokens of a template in whose texts no image token begins. -/
theorem tokensFrom_clean (hv : v.Documented) (hcount : ∀ image, 0 < count image) (t : Text)
    (shown : List Text) (hclean : Pipeline.Clean v.imageToken t shown) (image : Nat) :
    v.tokensFrom count image (plain t ++ renderFrom v.imageToken image shown)
      = plain (v.encodeBetween t)
        ++ laidFrom v.imageTokenId image (v.segments count image shown) := by
  induction shown generalizing t image with
  | nil =>
      have hfree : Free v.imageToken ((plain t).map Prod.fst)
          (([] : List (Marked CodePoint)).map Prod.fst) := by
        rw [map_fst_plain]
        exact hclean
      rw [renderFrom, Pipeline.tokensFrom, repeatFrom_free hfree, Pipeline.markedEncode]
      rw [repeatFrom, piecesFrom_free hfree, piecesFrom, List.nil_append, markedEncode_text,
        Pipeline.segments, laidFrom, List.append_nil]
  | cons t' shown ih =>
      obtain ⟨c, o, hplace, ho⟩ := exists_placeholder hv image
      rw [renderFrom, hplace, List.append_assoc, tokensFrom_occurrence ho hclean.1 (hcount image),
        ih t' hclean.2 (image + 1)]
      simp only [Pipeline.segments, laidFrom, List.append_assoc]

omit [DecidableEq Token] in
/-- An occurrence that no image is marked on. -/
theorem mem_of_begins (hv : v.Documented) (hcount : ∀ image, 0 < count image) {c : CodePoint}
    {rest : List (Marked CodePoint)} (hfree : Free v.imageToken t v.imageToken)
    (hbegins : v.imageToken <+: ((c, none) :: rest).map Prod.fst) (image : Nat) :
    (v.imageTokenId, none) ∈ v.tokensFrom count image (plain t ++ (c, none) :: rest) := by
  have hpos : 0 < v.imageToken.length := List.length_pos_iff.mpr hv.imageToken_ne_nil
  have hsplit : (c, none) :: rest = (c, none) :: rest.take (v.imageToken.length - 1)
      ++ rest.drop (v.imageToken.length - 1) := by
    rw [List.cons_append, List.take_append_drop]
  have ho : ((c, none) :: rest.take (v.imageToken.length - 1)).map Prod.fst = v.imageToken := by
    have htake := List.prefix_iff_eq_take.mp hbegins
    obtain ⟨n, hn⟩ : ∃ n, v.imageToken.length = n + 1 := ⟨v.imageToken.length - 1, by omega⟩
    rw [hn, ← List.map_take, List.take_succ_cons] at htake
    rw [hn, Nat.add_sub_cancel]
    exact htake.symm
  rw [hsplit, tokensFrom_occurrence ho hfree (hcount image)]
  refine List.mem_append_left _ (List.mem_append_right _ ?_)
  exact List.mem_replicate.mpr ⟨Nat.pos_iff_ne_zero.mp (hcount image), rfl⟩

omit [DecidableEq Token] in
theorem mem_tokensFrom_text (hv : v.Documented) (hcount : ∀ image, 0 < count image) (t behind : Text)
    (l : List (Marked CodePoint)) (hl : behind <+: l.map Prod.fst)
    (hnot : ¬ Free v.imageToken t behind) (image : Nat) :
    (v.imageTokenId, none) ∈ v.tokensFrom count image (plain t ++ l) := by
  -- the text up to the first occurrence, and what begins with it
  rw [← List.map_id t] at hnot
  obtain ⟨u, w, rfl, hne, hbegins, hfree⟩ := exists_first hnot
  rw [List.map_id] at hbegins hfree
  obtain ⟨c, w', rfl⟩ := List.exists_cons_of_ne_nil hne
  have hplain : plain (u ++ c :: w') ++ l = plain u ++ (c, none) :: (plain w' ++ l) := by
    simp only [plain, List.map_append, List.map_cons, List.append_assoc, List.cons_append]
  rw [hplain]
  refine mem_of_begins hv hcount hfree (hbegins.trans ?_) image
  rw [List.map_cons, List.map_append, map_fst_plain]
  exact (List.prefix_append_right_inj (c :: w')).mpr hl

omit [DecidableEq Token] in
/-- Where an image token begins in a text, there is one without a mark. -/
theorem mem_tokensFrom (hv : v.Documented) (hcount : ∀ image, 0 < count image) (t : Text)
    (shown : List Text) (hclean : ¬ Pipeline.Clean v.imageToken t shown) (image : Nat) :
    (v.imageTokenId, none)
      ∈ v.tokensFrom count image (plain t ++ renderFrom v.imageToken image shown) := by
  induction shown generalizing t image with
  | nil => exact mem_tokensFrom_text hv hcount t [] [] List.prefix_rfl hclean image
  | cons t' shown ih =>
      obtain ⟨c, o, hplace, ho⟩ := exists_placeholder hv image
      by_cases hfree : Free v.imageToken t v.imageToken
      · have htail : ¬ Pipeline.Clean v.imageToken t' shown := fun h => hclean ⟨hfree, h⟩
        rw [renderFrom, hplace, List.append_assoc, tokensFrom_occurrence ho hfree (hcount image)]
        exact List.mem_append_right _ (ih t' htail (image + 1))
      · refine mem_tokensFrom_text hv hcount t v.imageToken _ ?_ hfree image
        rw [renderFrom, List.append_assoc, List.map_append, keys_placeholder]
        exact List.prefix_append _ _

/-! ## The tokens of thinking -/

/-- As many tokens for the same images, and tokens between them at the same places. -/
structure Alike (imageTokenId : Token) (s s' : Nat × List Token) : Prop where
  count : s'.1 = s.1
  empty : s'.2 = [] ↔ s.2 = []
  free : imageTokenId ∉ s.2 → imageTokenId ∉ s'.2

variable {think : ThinkTokens Token} {imageTokenId : Token}

/-- Tokens without a mark stay without one. -/
theorem fixMarkedLoop_plain (hstart : imageTokenId ∉ think.thinkStart) (s : List Token)
    (rest : List (Marked Token)) (depth startLength endLength : Nat) :
    ∃ s' depth' startLength' endLength',
      fixMarkedLoop think depth startLength endLength (plain s ++ rest)
        = plain s' ++ fixMarkedLoop think depth' startLength' endLength' rest
      ∧ (s' = [] ↔ s = []) ∧ (imageTokenId ∉ s → imageTokenId ∉ s') := by
  induction s generalizing depth startLength endLength with
  | nil => exact ⟨[], depth, startLength, endLength, rfl, Iff.rfl, id⟩
  | cons token s ih =>
      -- whatever is inserted, the token itself stands before what the rest gives
      have hgo : ∀ inserted depth startLength endLength, imageTokenId ∉ inserted →
          ∃ s' depth' startLength' endLength',
            plain inserted
                ++ (token, none) :: fixMarkedLoop think depth startLength endLength (plain s ++ rest)
              = plain s' ++ fixMarkedLoop think depth' startLength' endLength' rest
            ∧ (s' = [] ↔ token :: s = [])
            ∧ (imageTokenId ∉ token :: s → imageTokenId ∉ s') := by
        intro inserted depth startLength endLength hinserted
        obtain ⟨s', depth', startLength', endLength', heq, -, hfree⟩ := ih depth startLength endLength
        refine ⟨inserted ++ token :: s', depth', startLength', endLength', ?_, by simp, ?_⟩
        · rw [heq]
          simp only [plain, List.map_append, List.map_cons, List.append_assoc, List.cons_append]
        · intro hnot hmem
          rw [List.mem_cons, not_or] at hnot
          rw [List.mem_append, List.mem_cons] at hmem
          obtain h | h | h := hmem
          · exact hinserted h
          · exact hnot.1 h
          · exact hfree hnot.2 h
      show ∃ s' depth' startLength' endLength',
        fixMarkedLoop think depth startLength endLength ((token, none) :: (plain s ++ rest)) = _ ∧ _ ∧ _
      rw [fixMarkedLoop]
      split
      · split
        · exact hgo [] _ _ _ List.not_mem_nil
        · exact hgo [] _ _ _ List.not_mem_nil
      · split
        · split
          · split
            · exact hgo think.thinkStart _ _ _ hstart
            · exact hgo [] _ _ _ List.not_mem_nil
          · exact hgo [] _ _ _ List.not_mem_nil
        · exact hgo [] _ _ _ List.not_mem_nil

/-- An image token is none of the tokens of thinking. -/
theorem fixMarkedLoop_replicate (hstart : imageTokenId ∉ think.thinkStart)
    (hend : imageTokenId ∉ think.thinkEnd) (mark : Option Nat) (n : Nat) (rest : List (Marked Token))
    (depth startLength endLength : Nat) : ∃ startLength' endLength',
      fixMarkedLoop think depth startLength endLength (List.replicate n (imageTokenId, mark) ++ rest)
        = List.replicate n (imageTokenId, mark)
          ++ fixMarkedLoop think depth startLength' endLength' rest := by
  induction n generalizing startLength endLength with
  | zero => exact ⟨startLength, endLength, rfl⟩
  | succ n ih =>
      obtain ⟨startLength', endLength', heq⟩ := ih 0 0
      refine ⟨startLength', endLength', ?_⟩
      rw [List.replicate_succ, List.cons_append, fixMarkedLoop, if_neg, if_neg, heq, List.cons_append]
      · exact fun h => hend (List.mem_of_getElem? h)
      · exact fun h => hstart (List.mem_of_getElem? h)

theorem fixMarkedLoop_laidFrom (hstart : imageTokenId ∉ think.thinkStart)
    (hend : imageTokenId ∉ think.thinkEnd) (segs : List (Nat × List Token))
    (image depth startLength endLength : Nat) : ∃ segs',
      fixMarkedLoop think depth startLength endLength (laidFrom imageTokenId image segs)
        = laidFrom imageTokenId image segs'
      ∧ List.Forall₂ (Alike imageTokenId) segs segs' := by
  induction segs generalizing image depth startLength endLength with
  | nil => exact ⟨[], rfl, .nil⟩
  | cons s segs ih =>
      obtain ⟨n, between⟩ := s
      obtain ⟨start₁, end₁, himages⟩ := fixMarkedLoop_replicate hstart hend (some image) n
        (plain between ++ laidFrom imageTokenId (image + 1) segs) depth startLength endLength
      obtain ⟨between', depth₂, start₂, end₂, hbetween, hempty, hfree⟩ := fixMarkedLoop_plain hstart
        between (laidFrom imageTokenId (image + 1) segs) depth start₁ end₁
      obtain ⟨segs', hsegs, halike⟩ := ih (image + 1) depth₂ start₂ end₂
      refine ⟨(n, between') :: segs', ?_, .cons ⟨rfl, hempty, hfree⟩ halike⟩
      rw [laidFrom, List.append_assoc, himages, hbetween, hsegs, laidFrom, List.append_assoc]

theorem mem_fixMarkedLoop (think : ThinkTokens Token) {token : Marked Token}
    {tokens : List (Marked Token)} (h : token ∈ tokens) (depth startLength endLength : Nat) :
    token ∈ fixMarkedLoop think depth startLength endLength tokens := by
  induction tokens generalizing depth startLength endLength with
  | nil => exact absurd h List.not_mem_nil
  | cons c tokens ih =>
      -- every branch writes the token and goes on with the rest
      have hgo : ∀ depth startLength endLength,
          token ∈ c :: fixMarkedLoop think depth startLength endLength tokens := fun d s e => by
        rcases List.mem_cons.mp h with rfl | h
        · exact List.mem_cons_self
        · exact List.mem_cons_of_mem c (ih h d s e)
      rw [fixMarkedLoop]
      split
      · split <;> exact hgo _ _ _
      · split
        · split
          · split
            · exact List.mem_append_right _ (hgo _ _ _)
            · exact hgo _ _ _
          · exact hgo _ _ _
        · exact hgo _ _ _

/-! ## The tokens of a prompt -/

variable {counts : List Nat} {template : Template}

/-- The tokens of a template in whose texts no image token begins. -/
theorem markedTokens_eq (hv : v.Documented) (hcounts : ∀ image, 0 < counts.getD image 1)
    (hclean : Pipeline.Clean v.imageToken template.first template.shown) : ∃ s segs,
      v.markedTokens counts template = plain s ++ laidFrom v.imageTokenId 0 segs
      ∧ v.imageTokenId ∉ s
      ∧ List.Forall₂ (Alike v.imageTokenId)
          (v.segments (fun image => counts.getD image 1) 0 template.shown) segs := by
  have hencoded := tokensFrom_clean hv hcounts template.first template.shown hclean 0
  have hbetween : v.imageTokenId ∉ v.encodeBetween template.first := by
    rw [Pipeline.encodeBetween]
    split
    · exact List.not_mem_nil
    · exact hv.encodeText _
  show ∃ s segs, fixMarked v.think (v.tokensFrom _ 0 (template.render v.imageToken)) = _ ∧ _
  rw [Template.render, hencoded]
  cases hthink : v.think with
  | none =>
      refine ⟨_, _, rfl, hbetween, ?_⟩
      exact List.forall₂_same.mpr fun s _ => ⟨rfl, Iff.rfl, id⟩
  | some think =>
      obtain ⟨hstart, hend⟩ := hv.think think hthink
      obtain ⟨s, depth, startLength, endLength, hs, -, hfree⟩ := fixMarkedLoop_plain hstart
        (v.encodeBetween template.first) (laidFrom v.imageTokenId 0 _) 0 0 0
      obtain ⟨segs, hsegs, halike⟩ := fixMarkedLoop_laidFrom hstart hend
        (v.segments (fun image => counts.getD image 1) 0 template.shown) 0 depth startLength endLength
      exact ⟨s, segs, by rw [fixMarked, hs, hsegs], hfree hbetween, halike⟩

/-- Where an image token begins in a text, there is a token of it that no image is marked on. -/
theorem mem_markedTokens (hv : v.Documented) (hcounts : ∀ image, 0 < counts.getD image 1)
    (hclean : ¬ Pipeline.Clean v.imageToken template.first template.shown) :
    (v.imageTokenId, none) ∈ v.markedTokens counts template := by
  have hencoded := mem_tokensFrom hv hcounts template.first template.shown hclean 0
  show _ ∈ fixMarked v.think (v.tokensFrom _ 0 (template.render v.imageToken))
  cases v.think with
  | none => exact hencoded
  | some think => exact mem_fixMarkedLoop think hencoded 0 0 0

end Exo.Vision
