import Exo.Mlx.VisionPrefill

/-!
# Which positions see the image

Inside the window of `patch_embed_tokens` each position gets its own row of the embeddings,
however the prompt is cut into chunks, and the window covers all that a local prefill keeps. A
server is sent tokens only, so what it computes are rows of tokens, and it counts positions from
the first token it was sent.
-/

namespace Exo

variable {Token : Type}

/-! ## Rows by position -/

/-- The row for the token `t` at position `q`. -/
def rowAt (patch : Option (EmbedPatch Token)) (q : Nat) (t : Token) : Row Token :=
  match patch with
  | none => .text t
  | some p =>
    if p.startOffset ≤ q ∧ q < p.endOffset then p.embeddings.getD q (.text t) else .text t

/-- The rows for tokens from position `start` on. -/
def rowsFrom (patch : Option (EmbedPatch Token)) (start : Nat) (tokens : List Token) :
    List (Row Token) :=
  tokens.mapIdx fun i t => rowAt patch (start + i) t

@[simp] theorem length_rowsFrom (patch : Option (EmbedPatch Token)) (start : Nat)
    (tokens : List Token) : (rowsFrom patch start tokens).length = tokens.length := by
  simp [rowsFrom]

theorem rowsFrom_getElem? (patch : Option (EmbedPatch Token)) (start : Nat) (tokens : List Token)
    (i : Nat) : (rowsFrom patch start tokens)[i]? = tokens[i]?.map (rowAt patch (start + i)) := by
  rw [rowsFrom, List.getElem?_mapIdx]

theorem rowsFrom_append (patch : Option (EmbedPatch Token)) (start : Nat) (xs ys : List Token) :
    rowsFrom patch start (xs ++ ys) =
      rowsFrom patch start xs ++ rowsFrom patch (start + xs.length) ys := by
  simp only [rowsFrom, List.mapIdx_append, Nat.add_assoc, Nat.add_comm xs.length]

variable {p : EmbedPatch Token}

theorem rowAt_of_outside {q : Nat} (h : q < p.startOffset ∨ p.endOffset ≤ q)
    (t : Token) : rowAt (some p) q t = .text t :=
  if_neg (by omega)

theorem rowAt_of_inside {q : Nat} {row : Row Token}
    (hs : p.startOffset ≤ q) (he : q < p.endOffset) (hrow : p.embeddings[q]? = some row)
    (t : Token) : rowAt (some p) q t = row := by
  have hget : p.embeddings.getD q (.text t) = row := by
    rw [List.getD_eq_getElem?_getD, hrow, Option.getD_some]
  exact (if_pos ⟨hs, he⟩).trans hget

/-! ## The patch -/

theorem startOffset_le_endOffset (p : EmbedPatch Token) : p.startOffset ≤ p.endOffset :=
  Nat.le_add_right _ _

variable {ids : List Token}

theorem inject_of_outside {start : Nat}
    (h : start + ids.length ≤ p.startOffset ∨ p.endOffset ≤ start) :
    p.inject start ids = ids.map .text :=
  if_pos h

theorem inject_of_overlap {start : Nat}
    (h : ¬ (start + ids.length ≤ p.startOffset ∨ p.endOffset ≤ start)) :
    p.inject start ids =
      (ids.map Row.text).take (max start p.startOffset - start)
        ++ (p.embeddings.drop (max start p.startOffset)).take
          (min (start + ids.length) p.endOffset - max start p.startOffset)
        ++ (ids.map Row.text).drop (min (start + ids.length) p.endOffset - start) :=
  if_neg h

variable {α : Type}

/-- Three pieces side by side, by position. -/
theorem getElem?_splice (xs ys zs : List α) (i : Nat) :
    (xs ++ ys ++ zs)[i]? =
      if i < xs.length then xs[i]?
      else if i < xs.length + ys.length then ys[i - xs.length]?
      else zs[i - (xs.length + ys.length)]? := by
  rw [List.getElem?_append, List.getElem?_append, List.length_append]
  split_ifs <;> first | rfl | omega

theorem length_inject (hlen : p.endOffset ≤ p.embeddings.length)
    (start : Nat) (ids : List Token) : (p.inject start ids).length = ids.length := by
  have hwindow : p.startOffset ≤ p.endOffset := startOffset_le_endOffset p
  by_cases h : start + ids.length ≤ p.startOffset ∨ p.endOffset ≤ start
  · rw [inject_of_outside h, List.length_map]
  · rw [inject_of_overlap h]
    simp only [List.length_append, List.length_take, List.length_map, List.length_drop]
    omega

theorem inject_getElem? (hlen : p.endOffset ≤ p.embeddings.length)
    {start : Nat} {i : Nat} {t : Token} (ht : ids[i]? = some t) :
    (p.inject start ids)[i]? = some (rowAt (some p) (start + i) t) := by
  have hi : i < ids.length := (List.getElem?_eq_some_iff.mp ht).1
  have hwindow : p.startOffset ≤ p.endOffset := startOffset_le_endOffset p
  have htext : (ids.map Row.text)[i]? = some (.text t) := by rw [List.getElem?_map, ht]; rfl
  by_cases h : start + ids.length ≤ p.startOffset ∨ p.endOffset ≤ start
  · rw [inject_of_outside h, htext, rowAt_of_outside (by omega)]
  · have hlow : p.startOffset ≤ max start p.startOffset ∧ start ≤ max start p.startOffset ∧
        (max start p.startOffset = start ∨ max start p.startOffset = p.startOffset) := by omega
    have hhigh : min (start + ids.length) p.endOffset ≤ start + ids.length ∧
        min (start + ids.length) p.endOffset ≤ p.endOffset ∧
        (min (start + ids.length) p.endOffset = start + ids.length ∨
          min (start + ids.length) p.endOffset = p.endOffset) := by omega
    rw [inject_of_overlap h, getElem?_splice]
    simp only [List.length_take, List.length_map, List.length_drop]
    generalize max start p.startOffset = low at hlow ⊢
    generalize min (start + ids.length) p.endOffset = high at hhigh ⊢
    have hwhole : min (high - low) (p.embeddings.length - low) = high - low := by omega
    have hbefore : min (low - start) ids.length = low - start := by omega
    rw [hbefore, hwhole]
    -- before the window, inside it, after it
    split_ifs with hb hm
    · rw [List.getElem?_take_of_lt (by omega), htext, rowAt_of_outside (by omega)]
    · obtain ⟨row, hrow⟩ : ∃ row, p.embeddings[start + i]? = some row :=
        ⟨_, List.getElem?_eq_getElem (by omega)⟩
      rw [rowAt_of_inside (by omega) (by omega) hrow, List.getElem?_take_of_lt (by omega),
        List.getElem?_drop, ← hrow]
      congr 1
      omega
    · rw [List.getElem?_drop, rowAt_of_outside (by omega), ← htext]
      congr 1
      omega

/-- A patch has an embedding for each position of its window. -/
def Covered (patch : Option (EmbedPatch Token)) : Prop :=
  ∀ p ∈ patch, p.endOffset ≤ p.embeddings.length

variable {patch : Option (EmbedPatch Token)}

/-- A chunk is spliced position by position. -/
theorem embedTokens_eq (h : Covered patch) (start : Nat)
    (ids : List Token) : embedTokens patch start ids = rowsFrom patch start ids := by
  refine List.ext_getElem? fun i => ?_
  rw [rowsFrom_getElem?]
  cases patch with
  | none => exact List.getElem?_map
  | some p =>
    have hlen : p.endOffset ≤ p.embeddings.length := h p rfl
    cases ht : ids[i]? with
    | some t => exact inject_getElem? hlen ht
    | none =>
      have hi : ids.length ≤ i := List.getElem?_eq_none_iff.mp ht
      exact List.getElem?_eq_none (by rw [embedTokens, length_inject hlen]; exact hi)

/-! ## Feeding a prompt -/

theorem feed_feed (c : FedCache Token) (xs ys : List (Row Token)) :
    (c.feed xs).feed ys = c.feed (xs ++ ys) := by
  simp only [FedCache.feed, List.append_assoc]

theorem feed_nil (c : FedCache Token) : c.feed [] = c := by
  simp only [FedCache.feed, List.append_nil]

theorem feedModel_eq (h : Covered patch)
    (s : Nat × FedCache Token) (ids : List Token) :
    feedModel patch s ids = (s.1 + ids.length, s.2.feed (rowsFrom patch s.1 ids)) := by
  rw [feedModel, embedTokens_eq h]

/-- The chunks leave no trace: only what they make up together counts. -/
theorem foldl_feedModel (h : Covered patch)
    (chunks : List (List Token)) (s : Nat × FedCache Token) :
    chunks.foldl (feedModel patch) s = feedModel patch s chunks.flatten := by
  induction chunks generalizing s with
  | nil => simp [feedModel_eq h, rowsFrom, feed_nil]
  | cons chunk chunks ih =>
    rw [List.foldl_cons, ih, feedModel_eq h, feedModel_eq h, feedModel_eq h, feed_feed,
      List.flatten_cons, rowsFrom_append, List.length_append, Nat.add_assoc]

/-- The last of the partial results is the result. -/
theorem scanl_getElem?_length {α β : Type} (f : β → α → β) (b : β) (xs : List α) :
    (xs.scanl f b)[xs.length]? = some (xs.foldl f b) := by
  induction xs generalizing b with
  | nil => rfl
  | cons x xs ih => rw [List.scanl_cons, List.length_cons, List.foldl_cons]; exact ih (f b x)

/-- The snapshot before the last one is taken after the last chunk. -/
theorem preGen_eq {α β γ : Type} (f : β → α → β) (b : β) (xs : List α) (y : β) (g : β → γ) (d : γ) :
    (((xs.scanl f b) ++ [y]).map g).getD ((((xs.scanl f b) ++ [y]).map g).length - 2) d =
      g (xs.foldl f b) := by
  have hlen : (((xs.scanl f b) ++ [y]).map g).length - 2 = xs.length := by
    simp only [List.length_map, List.length_append, List.length_scanl, List.length_singleton]
    omega
  have hlt : xs.length < (xs.scanl f b).length := by rw [List.length_scanl]; omega
  rw [hlen, List.getD_eq_getElem?_getD, List.getElem?_map, List.getElem?_append_left hlt,
    scanl_getElem?_length, Option.map_some, Option.getD_some]

/-- Trimming two rows undoes the last two calls. -/
theorem take_feed_feed (rows : List (Row Token)) {xs ys : List (Row Token)}
    (h : xs.length + ys.length = 2) :
    (rows ++ xs ++ ys).take ((rows ++ xs ++ ys).length - 2) = rows := by
  have hlen : (rows ++ xs ++ ys).length - 2 = rows.length := by
    simp only [List.length_append]
    omega
  rw [hlen, List.append_assoc, List.take_left]

/-- A prefill keeps the rows of all its tokens but the last, whatever the chunks. -/
theorem prefill_eq (h : Covered patch) (offset : Nat)
    (c : FedCache Token) (prompt : List Token) (calls : prompt ≠ [] → PromptCalls prompt) :
    prefill patch offset c prompt calls = c.feed (rowsFrom patch offset prompt.dropLast) := by
  unfold prefill
  split
  next hnil => subst hnil; exact (feed_nil c).symm
  next hne =>
    have hdrop : (calls hne).chunks.flatten = prompt.dropLast := by
      conv => rhs; rw [← (calls hne).covers]
      exact List.dropLast_concat.symm
    have hfilled : (calls hne).chunks.foldl (feedModel patch) (offset, c) =
        (offset + prompt.dropLast.length, c.feed (rowsFrom patch offset prompt.dropLast)) := by
      rw [foldl_feedModel h, hdrop, feedModel_eq h]
    simp only [preGen_eq, hfilled, feedModel_eq h (_, _)]
    simp only [FedCache.feed, FedCache.mk.injEq, and_true]
    exact take_feed_feed _ (by simp)

/-! ## The embeddings of a prompt -/

section
variable [DecidableEq Token]

@[simp] theorem length_createVisionEmbeddings (promptTokens : List Token) (features : Nat)
    (imageTokenId : Token) :
    (createVisionEmbeddings promptTokens features imageTokenId).length = promptTokens.length := by
  simp [createVisionEmbeddings]

/-- A position has a row of text when it has a token other than the placeholder. -/
theorem createVisionEmbeddings_text {promptTokens : List Token} {features : Nat}
    {imageTokenId t : Token} {p : Nat} :
    (createVisionEmbeddings promptTokens features imageTokenId)[p]? = some (.text t) ↔
      promptTokens[p]? = some t ∧ t ≠ imageTokenId := by
  rw [createVisionEmbeddings, List.getElem?_mapIdx]
  cases ht : promptTokens[p]? with
  | none => simp
  | some u =>
    by_cases hu : u = imageTokenId
    · simp only [Option.map_some, hu, if_true, Option.some.injEq, reduceCtorEq, false_iff, not_and,
        not_not]
      exact fun h => h.symm
    · simp only [Option.map_some, hu, if_false, Option.some.injEq, Row.text.injEq]
      constructor
      · intro h
        subst h
        exact ⟨rfl, hu⟩
      · exact fun h => h.1

namespace VisionRequest

variable (r : VisionRequest Token)

@[simp] theorem length_embeddings : r.embeddings.length = r.allPromptTokens.length :=
  length_createVisionEmbeddings _ _ _

omit [DecidableEq Token] in
@[simp] theorem length_promptTokens :
    r.promptTokens.length = r.allPromptTokens.length - r.hit.length :=
  List.length_drop

theorem covered_patch : Covered (some r.patch) := by
  intro p hp
  obtain rfl : r.patch = p := Option.some.inj hp
  have hshort : r.hit.length < r.allPromptTokens.length := r.hit_short
  change r.hit.length + (r.promptTokens.length - 1) ≤ r.embeddings.length
  rw [length_embeddings, length_promptTokens]
  omega

/-- What a local prefill keeps are the rows of the embeddings that follow the hit. -/
theorem localRows_eq :
    rowsFrom (some r.patch) r.hit.length r.promptTokens.dropLast.dropLast =
      (r.embeddings.drop r.hit.length).take (r.promptTokens.length - 2) := by
  refine List.ext_getElem? fun i => ?_
  have hshort : r.hit.length < r.allPromptTokens.length := r.hit_short
  by_cases hi : i < r.promptTokens.length - 2
  · obtain ⟨row, hrow⟩ : ∃ row, r.embeddings[r.hit.length + i]? = some row := by
      refine ⟨_, List.getElem?_eq_getElem ?_⟩
      rw [length_embeddings]
      rw [length_promptTokens] at hi
      omega
    obtain ⟨t, ht⟩ : ∃ t, r.promptTokens.dropLast.dropLast[i]? = some t := by
      refine ⟨_, List.getElem?_eq_getElem ?_⟩
      rw [List.length_dropLast, List.length_dropLast]
      omega
    have hwindow : r.hit.length + i < r.patch.endOffset := by
      change r.hit.length + i < r.hit.length + (r.promptTokens.length - 1)
      omega
    have hrowAt : rowAt (some r.patch) (r.hit.length + i) t = row :=
      rowAt_of_inside (p := r.patch) (Nat.le_add_right _ _) hwindow hrow t
    rw [rowsFrom_getElem?, ht, Option.map_some, hrowAt, List.getElem?_take_of_lt hi,
      List.getElem?_drop, hrow]
  · rw [List.getElem?_eq_none, List.getElem?_eq_none]
    · rw [List.length_take]
      omega
    · rw [length_rowsFrom, List.length_dropLast, List.length_dropLast]
      omega

/-! ## The two ways -/

/-- How far the server's cache reaches. -/
def servedLength (hit : FilledCache Token) : Nat :=
  hit.length + (r.servedTokens.length - 2 - hit.length - 1)

/-- The served rows from `lo` on are those of the embeddings: the server's own prefix is, and the
tokens it computed stand at the same positions of the prompt, none of them a placeholder. -/
def ServedRight (hit : FilledCache Token) (rows : List (Row Token)) (lo : Nat) : Prop :=
  ∀ p, lo ≤ p → p < r.servedLength hit →
    (p < hit.length → rows[p]? = r.embeddings[p]?) ∧
    (hit.length ≤ p → ∃ t, r.servedTokens[p]? = some t ∧
      r.allPromptTokens[p]? = some t ∧ t ≠ r.imageTokenId)

/-- When the rows of each `KVCache` are the embeddings of their positions. -/
def KvRight : r.Way → Prop
  | .locally _ => r.hit.kv <+: r.embeddings
  | .remotely _ _ hit _ => r.hit.kv <+: r.embeddings ∧ r.ServedRight hit hit.kv r.hit.length

/-- When an `ArraysCache` has absorbed the embeddings in order. -/
def ArraysRight : r.Way → Prop
  | .locally _ => r.hit.arrays <+: r.embeddings
  | .remotely _ _ hit _ =>
    (r.servedLength hit = 0 → r.hit.arrays <+: r.embeddings) ∧ r.ServedRight hit hit.arrays 0

variable {xs ys : List α}

/-- A cache that goes on with the embeddings that follow it is right when it was before. -/
theorem append_take_prefix_iff {n k : Nat} (hn : xs.length = n) :
    xs ++ (ys.drop n).take k <+: ys ↔ xs <+: ys := by
  constructor
  · exact (List.prefix_append _ _).trans
  · intro h
    obtain ⟨zs, rfl⟩ := h
    subst hn
    rw [List.drop_left, List.prefix_append_right_inj]
    exact List.take_prefix _ _

theorem prefix_iff_forall :
    xs <+: ys ↔ ∀ p, p < xs.length → xs[p]? = ys[p]? := by
  rw [List.prefix_iff_getElem?]
  refine forall_congr' fun p => forall_congr' fun hp => ?_
  rw [List.getElem?_eq_getElem hp]
  exact eq_comm

/-- A cache that goes on with the tail of another is right when both are, each where it counts. -/
theorem append_drop_prefix_iff {xs ys zs : List α} {n : Nat} (hn : xs.length = n) :
    xs ++ ys.drop n <+: zs ↔
      xs <+: zs ∧ ∀ p, n ≤ p → p < ys.length → ys[p]? = zs[p]? := by
  rw [prefix_iff_forall, prefix_iff_forall]
  subst hn
  constructor
  · intro h
    constructor
    · intro p hp
      have hat := h p (by rw [List.length_append]; omega)
      rwa [List.getElem?_append_left hp] at hat
    · intro p hle hp
      have hat := h p (by rw [List.length_append, List.length_drop]; omega)
      rw [List.getElem?_append_right hle, List.getElem?_drop] at hat
      rwa [show xs.length + (p - xs.length) = p by omega] at hat
  · intro ⟨hxs, hys⟩ p hp
    rw [List.length_append, List.length_drop] at hp
    by_cases hlt : p < xs.length
    · rw [List.getElem?_append_left hlt, hxs p hlt]
    · rw [List.getElem?_append_right (by omega), List.getElem?_drop,
        show xs.length + (p - xs.length) = p by omega]
      exact hys p (by omega) (by omega)

/-- What the server computes after its hit. -/
def computedRows (hit : FilledCache Token) : List (Row Token) :=
  rowsFrom none 0 (prefillInput r.servedTokens hit.length).dropLast

theorem length_computedRows (hit : FilledCache Token) :
    hit.length + (r.computedRows hit).length = r.servedLength hit := by
  simp only [computedRows, length_rowsFrom, prefillInput, List.length_dropLast, List.length_take,
    List.length_drop, servedLength]
  omega

variable {hit : FilledCache Token}

theorem computedRows_getElem? {p : Nat} (hle : hit.length ≤ p)
    (hp : p < r.servedLength hit) :
    (r.computedRows hit)[p - hit.length]? = r.servedTokens[p]?.map .text := by
  have hlen := r.length_computedRows hit
  have hin : p - hit.length < (prefillInput r.servedTokens hit.length).dropLast.length := by
    rw [computedRows, length_rowsFrom] at hlen
    omega
  rw [List.length_dropLast] at hin
  have htake : p - hit.length < r.servedTokens.length - 2 - hit.length := by
    rw [prefillInput, List.length_take] at hin
    omega
  rw [computedRows, rowsFrom_getElem?, List.getElem?_dropLast, if_pos hin, prefillInput,
    List.getElem?_take_of_lt htake, List.getElem?_drop,
    show hit.length + (p - hit.length) = p by omega]
  rfl

/-- The rows the server has are right from `lo` on. -/
theorem servedRight_iff {rows : List (Row Token)}
    (hrows : rows.length = hit.length) (lo : Nat) :
    r.ServedRight hit rows lo ↔
      ∀ p, lo ≤ p → p < (rows ++ r.computedRows hit).length →
        (rows ++ r.computedRows hit)[p]? = r.embeddings[p]? := by
  have hlen : (rows ++ r.computedRows hit).length = r.servedLength hit := by
    rw [List.length_append, hrows, length_computedRows]
  rw [hlen]
  refine forall_congr' fun p => forall_congr' fun _ => forall_congr' fun hp => ?_
  by_cases hlt : p < hit.length
  · rw [List.getElem?_append_left (by omega)]
    simp only [hlt, forall_const, and_iff_left_iff_imp]
    intro _ hle
    omega
  · have hle : hit.length ≤ p := by omega
    rw [List.getElem?_append_right (by omega), hrows, r.computedRows_getElem? hle hp]
    simp only [hlt, false_imp_iff, true_and, hle, forall_const]
    obtain ⟨t, ht⟩ : ∃ t, r.servedTokens[p]? = some t := by
      refine ⟨_, List.getElem?_eq_getElem ?_⟩
      unfold servedLength at hp
      omega
    rw [ht, Option.map_some, eq_comm, embeddings, createVisionEmbeddings_text]
    constructor
    · intro ⟨u, hu, hall, hne⟩
      obtain rfl : t = u := Option.some.inj hu
      exact ⟨hall, hne⟩
    · intro ⟨hall, hne⟩
      exact ⟨t, rfl, hall, hne⟩

theorem runPrefillForRequest_eq (hit : FilledCache Token)
    (calls : prefillInput r.servedTokens hit.length ≠ [] →
      PromptCalls (prefillInput r.servedTokens hit.length)) :
    runPrefillForRequest r.servedTokens hit calls = hit.feed (r.computedRows hit) :=
  prefill_eq (fun p h => by cases h) _ _ _ _

theorem remote_kv_iff (endpoint : String) (uncached : REMOTE_PREFILL_MIN_TOKENS <
    r.promptTokens.length) (hit : FilledCache Token)
    (calls : prefillInput r.servedTokens hit.length ≠ [] →
      PromptCalls (prefillInput r.servedTokens hit.length)) :
    (r.prefilled (.remotely endpoint uncached hit calls)).kv <+: r.embeddings ↔
      r.hit.kv <+: r.embeddings ∧ r.ServedRight hit hit.kv r.hit.length := by
  rw [prefilled, runPrefillForRequest_eq, remotePrefill, FedCache.feed,
    append_drop_prefix_iff r.hit.kv_length, servedRight_iff r hit.kv_length]

theorem remote_arrays_iff (endpoint : String) (uncached : REMOTE_PREFILL_MIN_TOKENS <
    r.promptTokens.length) (hit : FilledCache Token)
    (calls : prefillInput r.servedTokens hit.length ≠ [] →
      PromptCalls (prefillInput r.servedTokens hit.length)) :
    (r.prefilled (.remotely endpoint uncached hit calls)).arrays <+: r.embeddings ↔
      (r.servedLength hit = 0 → r.hit.arrays <+: r.embeddings) ∧
        r.ServedRight hit hit.arrays 0 := by
  rw [prefilled, runPrefillForRequest_eq, remotePrefill, FedCache.feed,
    servedRight_iff r hit.arrays_length]
  have hlen : (hit.arrays ++ r.computedRows hit).length = r.servedLength hit := by
    rw [List.length_append, hit.arrays_length, length_computedRows]
  by_cases hnil : hit.arrays ++ r.computedRows hit = []
  · have hzero : r.servedLength hit = 0 := by rw [← hlen, hnil]; rfl
    simp only [hnil, if_true, hzero, forall_const, List.length_nil, Nat.not_lt_zero,
      false_imp_iff, implies_true, and_true]
  · have hpos : r.servedLength hit ≠ 0 := by
      rw [← hlen]
      exact fun h => hnil (List.length_eq_zero_iff.mp h)
    simp only [if_neg hnil, hpos, false_imp_iff, true_and, Nat.zero_le, forall_const]
    exact prefix_iff_forall

end VisionRequest

end

/-! ## A remote prefill of an image -/

/-- A prompt in one chunk. -/
def PromptCalls.oneChunk (prompt : List Token) (generated : Token) (h : prompt ≠ []) :
    PromptCalls prompt where
  chunks := [prompt.dropLast]
  last := prompt.getLast h
  covers := by rw [List.flatten_singleton, List.dropLast_append_getLast]
  generated := generated

/-- The cache of `make_kv_cache`. -/
def FilledCache.empty : FilledCache Token where
  length := 0
  kv_length := rfl
  arrays_length := rfl

/-- One image (token 0), then a long question, nothing of it cached. -/
def imageQuestion : VisionRequest Nat where
  allPromptTokens := 0 :: List.replicate 1003 5
  imageTokenId := 0
  features := 1
  hit := .empty
  hit_short := List.length_pos_of_ne_nil (List.cons_ne_nil _ _)
  think := none

theorem imageQuestion_uncached :
    REMOTE_PREFILL_MIN_TOKENS < imageQuestion.promptTokens.length := by
  have hlen : imageQuestion.allPromptTokens.length = 1004 := by
    simp only [imageQuestion, List.length_cons, List.length_replicate]
  have hhit : imageQuestion.hit.length = 0 := rfl
  have hmin : REMOTE_PREFILL_MIN_TOKENS = 1000 := rfl
  rw [VisionRequest.length_promptTokens, hlen, hhit, hmin]
  omega

/-- `imageQuestion`, prefilled by a server that has nothing cached either. -/
def imageQuestionRemotely : imageQuestion.Way :=
  .remotely "10.0.0.2:52416" imageQuestion_uncached .empty (PromptCalls.oneChunk _ 7)

end Exo
