import Exo.Mlx.VisionLayout

/-!
# Rows and runs of a prompt

In a prompt of texts with the image tokens of one image after the other between them, counting image
tokens gives each image its own features. The runs of image tokens are those of the images when there
are tokens between any two.
-/

namespace Exo.Vision

open Lib

variable {Token F : Type} [DecidableEq Token]

/-! ## The features of an image -/

/-- The features of the images before an image. -/
def featureOffset (counts : List Nat) (image : Nat) : Nat := (counts.take image).sum

/-- The rows at the tokens with the mark of an image. -/
def rowsAt (image : Nat) (rows : List (Option Nat × Row Token)) : List (Row Token) :=
  rows.filterMap fun w => if w.1 = some image then some w.2 else none

variable {counts : List Nat}

@[simp] theorem featureOffset_zero (counts : List Nat) : featureOffset counts 0 = 0 := by
  simp [featureOffset]

theorem featureOffset_cons (n : Nat) (counts : List Nat) (image : Nat) :
    featureOffset (n :: counts) (image + 1) = n + featureOffset counts image := by
  rw [featureOffset, List.take_succ_cons, List.sum_cons, featureOffset]

theorem featureOffset_succ (counts : List Nat) (image : Nat) :
    featureOffset counts (image + 1) = featureOffset counts image + counts.getD image 0 := by
  induction counts generalizing image with
  | nil => simp [featureOffset]
  | cons n counts ih =>
      cases image with
      | zero => simp [featureOffset]
      | succ image =>
          rw [featureOffset_cons, featureOffset_cons, ih image, List.getD_cons_succ, Nat.add_assoc]

variable {image image' : Nat}

theorem featureOffset_mono (h : image ≤ image') :
    featureOffset counts image ≤ featureOffset counts image' := by
  induction h with
  | refl => exact Nat.le_refl _
  | step _ ih => exact ih.trans (by rw [featureOffset_succ]; exact Nat.le_add_right _ _)

/-- No two images have a feature in common. -/
theorem eq_of_featureOffset {image image' feature : Nat}
    (h : featureOffset counts image ≤ feature)
    (hlt : feature < featureOffset counts image + counts.getD image 0)
    (h' : featureOffset counts image' ≤ feature)
    (hlt' : feature < featureOffset counts image' + counts.getD image' 0) : image = image' := by
  rw [← featureOffset_succ] at hlt hlt'
  rcases Nat.lt_trichotomy image image' with hbefore | heq | hafter
  · have hle : featureOffset counts (image + 1) ≤ featureOffset counts image' := featureOffset_mono hbefore
    omega
  · exact heq
  · have hle : featureOffset counts (image' + 1) ≤ featureOffset counts image := featureOffset_mono hafter
    omega

/-- Every feature is one of an image. -/
theorem exists_featureOffset {feature : Nat} (h : feature < counts.sum) :
    ∃ image < counts.length, featureOffset counts image ≤ feature
      ∧ feature < featureOffset counts image + counts.getD image 0 := by
  induction counts generalizing feature with
  | nil => exact absurd h (Nat.not_lt_zero _)
  | cons n counts ih =>
      rw [List.sum_cons] at h
      by_cases hfirst : feature < n
      · exact ⟨0, Nat.succ_pos _, Nat.zero_le _, by simpa using hfirst⟩
      · have hrest : feature - n < counts.sum := by omega
        obtain ⟨image, hlt, hle, hend⟩ := ih hrest
        refine ⟨image + 1, Nat.succ_lt_succ hlt, ?_, ?_⟩
        · rw [featureOffset_cons]
          omega
        · rw [featureOffset_cons, List.getD_cons_succ]
          omega

/-! ## The rows of a prompt -/

/-- The marks of tokens and the rows they get, with `seen` image tokens before them. -/
def placed (imageTokenId : Token) (total : Nat) : (seen : Nat) → List (Marked Token) →
    List (Option Nat × Row Token)
  | _, [] => []
  | seen, (t, mark) :: tokens =>
    if t = imageTokenId then
      (mark, .image (min seen (total - 1))) :: placed imageTokenId total (seen + 1) tokens
    else (mark, .text t) :: placed imageTokenId total seen tokens

variable {imageTokenId : Token} {total : Nat}

theorem zip_createVisionEmbeddings (tokens : List (Marked Token)) :
    (tokens.map Prod.snd).zip (createVisionEmbeddings (tokens.map Prod.fst) total imageTokenId)
      = placed imageTokenId total 0 tokens := by
  -- the count at a position is that of the tokens up to it
  have hrest : ∀ before : List Token, (tokens.map Prod.snd).zip
      ((tokens.map Prod.fst).mapIdx fun p t =>
        if t = imageTokenId then
          Row.image (min (((before ++ tokens.map Prod.fst).take (before.length + p + 1)).count
            imageTokenId - 1) (total - 1))
        else .text t)
        = placed imageTokenId total (before.count imageTokenId) tokens := by
    induction tokens with
    | nil => intro before; rfl
    | cons token tokens ih =>
        intro before
        obtain ⟨t, mark⟩ := token
        have hbefore : ∀ l, (before ++ [t]) ++ l = before ++ t :: l := fun l => by
          rw [List.append_assoc, List.singleton_append]
        have hlength : ∀ p, before.length + (p + 1) + 1 = (before ++ [t]).length + p + 1 := fun p => by
          rw [List.length_append, List.length_singleton]
          omega
        have htail := ih (before ++ [t])
        simp only [hbefore, ← hlength] at htail
        have htake : (before ++ t :: tokens.map Prod.fst).take (before.length + 0 + 1)
            = before ++ [t] := by
          rw [← hbefore]
          exact List.take_left' (by simp)
        rw [List.map_cons, List.map_cons, List.mapIdx_cons, List.zip_cons_cons, htake, placed]
        rw [htail, List.count_append, List.count_singleton]
        by_cases ht : t = imageTokenId
        · rw [if_pos ht, if_pos ht, ht, beq_self_eq_true, if_pos rfl, Nat.add_sub_cancel]
        · rw [if_neg ht, if_neg ht, if_neg (by simpa using ht), Nat.add_zero]
  have h := hrest []
  simp only [List.nil_append, List.length_nil, Nat.zero_add] at h
  exact h

theorem map_fst_placed (imageTokenId : Token) (total seen : Nat) (tokens : List (Marked Token)) :
    (placed imageTokenId total seen tokens).map Prod.fst = tokens.map Prod.snd := by
  induction tokens generalizing seen with
  | nil => rfl
  | cons token tokens ih =>
      rw [placed]
      split
      · rw [List.map_cons, List.map_cons, ih]
      · rw [List.map_cons, List.map_cons, ih]

/-- Every image token gets a feature. -/
theorem exists_mem_placed (htotal : 0 < total) {tokens : List (Marked Token)} {mark : Option Nat}
    (h : (imageTokenId, mark) ∈ tokens) (seen : Nat) :
    ∃ feature < total, (mark, Row.image feature) ∈ placed imageTokenId total seen tokens := by
  induction tokens generalizing seen with
  | nil => exact absurd h List.not_mem_nil
  | cons token tokens ih =>
      rcases List.mem_cons.mp h with rfl | h
      · refine ⟨min seen (total - 1), by omega, ?_⟩
        rw [placed, if_pos rfl]
        exact List.mem_cons_self
      · rw [placed]
        split
        · obtain ⟨feature, hlt, hmem⟩ := ih h (seen + 1)
          exact ⟨feature, hlt, List.mem_cons_of_mem _ hmem⟩
        · obtain ⟨feature, hlt, hmem⟩ := ih h seen
          exact ⟨feature, hlt, List.mem_cons_of_mem _ hmem⟩

theorem placed_plain {s : List Token} (hs : imageTokenId ∉ s) (seen : Nat)
    (rest : List (Marked Token)) :
    placed imageTokenId total seen (plain s ++ rest)
      = (s.map fun t => (none, Row.text t)) ++ placed imageTokenId total seen rest := by
  induction s with
  | nil => rfl
  | cons t s ih =>
      rw [List.mem_cons, not_or] at hs
      show placed imageTokenId total seen ((t, none) :: (plain s ++ rest)) = _
      rw [placed, if_neg (Ne.symm hs.1), ih hs.2, List.map_cons, List.cons_append]

theorem placed_replicate (mark : Option Nat) {n seen : Nat} (h : seen + n ≤ total)
    (rest : List (Marked Token)) :
    placed imageTokenId total seen (List.replicate n (imageTokenId, mark) ++ rest)
      = ((List.range' seen n).map fun feature => (mark, Row.image feature))
        ++ placed imageTokenId total (seen + n) rest := by
  induction n generalizing seen with
  | zero => rfl
  | succ n ih =>
      have hseen : min seen (total - 1) = seen := by omega
      have hrest : seen + 1 + n ≤ total := by omega
      rw [List.replicate_succ, List.cons_append, placed, if_pos rfl, hseen,
        ih hrest, List.range'_succ, List.map_cons, List.cons_append,
        show seen + (n + 1) = seen + 1 + n by omega]

variable {segs : List (Nat × List Token)}

theorem placed_laidFrom_cons {n : Nat} {between : List Token} (image seen : Nat)
    (hfree : imageTokenId ∉ between) (htotal : seen + ((n :: segs.map Prod.fst).sum) ≤ total) :
    placed imageTokenId total seen (laidFrom imageTokenId image ((n, between) :: segs))
      = ((List.range' seen n).map fun feature => (some image, Row.image feature))
        ++ (between.map fun t => (none, Row.text t))
        ++ placed imageTokenId total (seen + n) (laidFrom imageTokenId (image + 1) segs) := by
  rw [List.sum_cons] at htotal
  rw [laidFrom, List.append_assoc, placed_replicate (some image) (by omega), placed_plain hfree,
    List.append_assoc]

/-- A row with a feature stands at the image it is a feature of. -/
theorem mem_placed_laidFrom (hfree : ∀ s ∈ segs, imageTokenId ∉ s.2) (image seen : Nat)
    (htotal : seen + (segs.map Prod.fst).sum ≤ total) {w : Option Nat × Row Token}
    (hw : w ∈ placed imageTokenId total seen (laidFrom imageTokenId image segs)) :
    (∃ t, w = (none, .text t)) ∨ ∃ j feature, w = (some (image + j), .image feature)
      ∧ seen + featureOffset (segs.map Prod.fst) j ≤ feature
      ∧ feature < seen + featureOffset (segs.map Prod.fst) j + (segs.map Prod.fst).getD j 0 := by
  induction segs generalizing image seen with
  | nil => exact absurd hw List.not_mem_nil
  | cons s segs ih =>
      obtain ⟨n, between⟩ := s
      rw [placed_laidFrom_cons image seen (hfree _ List.mem_cons_self) htotal, List.mem_append,
        List.mem_append, List.mem_map, List.mem_map] at hw
      rw [List.map_cons, List.sum_cons] at htotal
      obtain (⟨feature, hfeature, rfl⟩ | ⟨t, -, rfl⟩) | hw := hw
      · rw [List.mem_range'_1] at hfeature
        refine .inr ⟨0, feature, rfl, ?_, ?_⟩
        · rw [featureOffset_zero]
          exact hfeature.1
        · rw [featureOffset_zero]
          exact hfeature.2
      · exact .inl ⟨t, rfl⟩
      · obtain htext | ⟨j, feature, rfl, hle, hlt⟩ := ih (fun s hs => hfree s (List.mem_cons_of_mem _ hs))
          (image + 1) (seen + n) (by omega) hw
        · exact .inl htext
        · refine .inr ⟨j + 1, feature, by rw [Nat.add_right_comm, Nat.add_assoc], ?_, ?_⟩
          · rw [List.map_cons, featureOffset_cons]
            omega
          · rw [List.map_cons, featureOffset_cons, List.getD_cons_succ]
            omega

omit [DecidableEq Token] in
theorem rowsAt_eq_nil {image : Nat} {rows : List (Option Nat × Row Token)}
    (h : ∀ w ∈ rows, w.1 ≠ some image) : rowsAt image rows = [] :=
  List.filterMap_eq_nil_iff.mpr fun w hw => if_neg (h w hw)

omit [DecidableEq Token] in
theorem rowsAt_range (image seen n : Nat) :
    rowsAt image ((List.range' seen n).map fun feature => (some image, (Row.image feature : Row Token)))
      = (List.range' seen n).map Row.image := by
  rw [rowsAt, List.filterMap_map, ← List.filterMap_eq_map]
  exact List.filterMap_congr fun feature _ => if_pos rfl

/-- The tokens of an image get its features, in order. -/
theorem rowsAt_laidFrom (hfree : ∀ s ∈ segs, imageTokenId ∉ s.2) (image seen j : Nat)
    (htotal : seen + (segs.map Prod.fst).sum ≤ total) :
    rowsAt (image + j) (placed imageTokenId total seen (laidFrom imageTokenId image segs))
      = (List.range' (seen + featureOffset (segs.map Prod.fst) j)
          ((segs.map Prod.fst).getD j 0)).map Row.image := by
  induction segs generalizing image seen j with
  | nil => simp [laidFrom, placed, rowsAt]
  | cons s segs ih =>
      obtain ⟨n, between⟩ := s
      have hrest : ∀ s ∈ segs, imageTokenId ∉ s.2 := fun s hs => hfree s (List.mem_cons_of_mem _ hs)
      rw [placed_laidFrom_cons image seen (hfree _ List.mem_cons_self) htotal]
      rw [List.map_cons, List.sum_cons] at htotal
      have hbetween : rowsAt (image + j) (between.map fun t => (none, Row.text t)) = [] :=
        rowsAt_eq_nil fun w hw => by
          obtain ⟨t, -, rfl⟩ := List.mem_map.mp hw
          exact fun h => by cases h
      have happend : ∀ a b : List (Option Nat × Row Token),
          rowsAt (image + j) (a ++ b) = rowsAt (image + j) a ++ rowsAt (image + j) b :=
        fun a b => List.filterMap_append
      rw [happend, happend, hbetween, List.append_nil]
      cases j with
      | zero =>
          rw [Nat.add_zero, rowsAt_range, rowsAt_eq_nil, List.append_nil, featureOffset_zero]
          · rfl
          · -- the images behind it have larger numbers
            intro w hw
            obtain ⟨t, rfl⟩ | ⟨j, feature, rfl, -⟩ :=
              mem_placed_laidFrom hrest (image + 1) (seen + n) (by omega) hw
            · exact fun h => by cases h
            · exact fun h => by injection h; omega
      | succ j =>
          have hfirst : rowsAt (image + (j + 1))
              ((List.range' seen n).map fun feature => (some image, (Row.image feature : Row Token)))
              = [] := rowsAt_eq_nil fun w hw => by
            obtain ⟨feature, -, rfl⟩ := List.mem_map.mp hw
            exact fun h => by injection h; omega
          have himage : image + (j + 1) = image + 1 + j := by omega
          rw [hfirst, List.nil_append, himage, ih hrest (image + 1) (seen + n) j (by omega),
            List.map_cons, featureOffset_cons, List.getD_cons_succ, Nat.add_assoc]

/-! ## The runs of a prompt -/

open MediaRegions (findRuns)

/-- `start_pos` and `end_pos`. -/
def bounds (r : MediaRegion) : Nat × Nat := (r.startPos, r.endPos)

/-- Where the image tokens of the images stand, from a position on. -/
def boundsFrom : (pos : Nat) → List (Nat × List Token) → List (Nat × Nat)
  | _, [] => []
  | pos, (n, between) :: segs => (pos, pos + n) :: boundsFrom (pos + n + between.length) segs

omit [DecidableEq Token] in
theorem length_boundsFrom (pos : Nat) (segs : List (Nat × List Token)) :
    (boundsFrom pos segs).length = segs.length := by
  induction segs generalizing pos with
  | nil => rfl
  | cons seg segs ih => rw [boundsFrom, List.length_cons, List.length_cons, ih]

theorem findRuns_false (n pos : Nat) (pads : List Bool) :
    findRuns pos none (List.replicate n false ++ pads) = findRuns (pos + n) none pads := by
  induction n generalizing pos with
  | zero => rfl
  | succ n ih =>
      rw [List.replicate_succ, List.cons_append, findRuns, ih, Nat.add_right_comm, Nat.add_assoc]

theorem findRuns_true (n : Nat) {start pos pos' : Nat} (h : start < pos) (hpos : pos + n = pos')
    (pads : List Bool) :
    findRuns pos (some ⟨start, h⟩) (List.replicate n true ++ pads)
      = findRuns pos' (some ⟨start, by omega⟩) pads := by
  induction n generalizing pos with
  | zero =>
      subst hpos
      rfl
  | succ n ih =>
      rw [List.replicate_succ, List.cons_append, findRuns, ih (Nat.lt_succ_of_lt h) (by omega)]

/-- The pads of image tokens and the tokens behind them, up to the next image token. -/
theorem bounds_findRuns_run {n : Nat} (hn : 0 < n) (m pos : Nat) (pads : List Bool)
    (hapart : 0 < m ∨ pads = []) :
    (findRuns pos none (List.replicate n true ++ List.replicate m false ++ pads)).map bounds
      = (pos, pos + n) :: (findRuns (pos + n + m) none pads).map bounds := by
  obtain ⟨n, rfl⟩ : ∃ k, n = k + 1 := ⟨n - 1, by omega⟩
  rw [List.replicate_succ, List.append_assoc, List.cons_append, findRuns,
    findRuns_true n (Nat.lt_succ_self pos) (by omega : pos + 1 + n = pos + (n + 1))]
  cases m with
  | zero =>
      obtain h | rfl := hapart
      · exact absurd h (Nat.lt_irrefl 0)
      · rfl
  | succ m =>
      rw [List.replicate_succ, List.cons_append, findRuns, List.map_cons, findRuns_false,
        Nat.add_assoc (pos + (n + 1)), Nat.add_comm 1 m]
      rfl

/-- Which of the tokens are image tokens. -/
def pads (imageTokenId : Token) (tokens : List (Marked Token)) : List Bool :=
  tokens.map fun w => decide (w.1 = imageTokenId)

theorem pads_plain {s : List Token} (hs : imageTokenId ∉ s) :
    pads imageTokenId (plain s) = List.replicate s.length false := by
  rw [pads, plain, List.map_map, ← List.map_const']
  exact List.map_congr_left fun t ht => decide_eq_false fun heq => hs (heq ▸ ht)

theorem bounds_laidFrom (hfree : ∀ s ∈ segs, imageTokenId ∉ s.2) (hcount : ∀ s ∈ segs, 0 < s.1)
    (hapart : ∀ s ∈ segs.dropLast, s.2 ≠ []) (image pos : Nat) :
    (findRuns pos none (pads imageTokenId (laidFrom imageTokenId image segs))).map bounds
      = boundsFrom pos segs := by
  induction segs generalizing image pos with
  | nil => rfl
  | cons s segs ih =>
      obtain ⟨n, between⟩ := s
      have hpads : pads imageTokenId (laidFrom imageTokenId image ((n, between) :: segs))
          = List.replicate n true ++ List.replicate between.length false
            ++ pads imageTokenId (laidFrom imageTokenId (image + 1) segs) := by
        rw [← pads_plain (hfree _ List.mem_cons_self), laidFrom, pads, List.map_append,
          List.map_append, List.map_replicate, decide_eq_true rfl]
        rfl
      have hbetween : 0 < between.length
          ∨ pads imageTokenId (laidFrom imageTokenId (image + 1) segs) = [] := by
        cases segs with
        | nil => exact .inr rfl
        | cons s segs => exact .inl (List.length_pos_iff.mpr (hapart (n, between) List.mem_cons_self))
      rw [hpads, bounds_findRuns_run (hcount _ List.mem_cons_self) _ _ _ hbetween, boundsFrom, ih]
      · exact fun s hs => hfree s (List.mem_cons_of_mem _ hs)
      · exact fun s hs => hcount s (List.mem_cons_of_mem _ hs)
      · cases segs with
        | nil => exact fun s hs => absurd hs List.not_mem_nil
        | cons s' segs => exact fun s hs => hapart s (List.mem_cons_of_mem _ hs)

omit [DecidableEq Token] in
theorem le_of_mem_laidFrom
    (h : some image' ∈ (laidFrom imageTokenId image segs).map Prod.snd) : image ≤ image' := by
  induction segs generalizing image with
  | nil => exact absurd h List.not_mem_nil
  | cons s segs ih =>
      rw [laidFrom, List.map_append, List.map_append, List.map_replicate, map_snd_plain,
        List.mem_append, List.mem_append, List.mem_replicate, List.mem_replicate] at h
      obtain (⟨-, heq⟩ | ⟨-, heq⟩) | h := h
      · injection heq with heq
        omega
      · cases heq
      · exact Nat.le_of_succ_le (ih h)

omit [DecidableEq Token] in
/-- The marks of a prompt from an image on. -/
theorem marks_laidFrom_cons (image n : Nat) (between : List Token) (p : Nat) :
    ((laidFrom imageTokenId image ((n, between) :: segs)).map Prod.snd)[p]?
      = if p < n then some (some image)
        else if p < n + between.length then some none
        else ((laidFrom imageTokenId (image + 1) segs).map Prod.snd)[p - n - between.length]? := by
  rw [laidFrom, List.append_assoc, List.map_append, List.map_append, List.map_replicate, map_snd_plain,
    List.getElem?_append, List.length_replicate]
  split
  · next h => rw [List.getElem?_replicate, if_pos h]
  · next h =>
    rw [List.getElem?_append, List.length_replicate]
    split
    · next h' => rw [List.getElem?_replicate, if_pos h', if_pos (by omega)]
    · next h' => rw [if_neg (by omega)]

omit [DecidableEq Token] in
/-- The tokens of an image stand between its bounds. -/
theorem boundsFrom_covers (imageTokenId : Token) {j start stop : Nat} (image pos : Nat)
    (hj : (boundsFrom pos segs)[j]? = some (start, stop)) :
    pos ≤ start ∧ ∀ p, start ≤ pos + p ∧ pos + p < stop
      ↔ ((laidFrom imageTokenId image segs).map Prod.snd)[p]? = some (some (image + j)) := by
  induction segs generalizing image pos j with
  | nil => exact absurd hj (by simp [boundsFrom])
  | cons s segs ih =>
      obtain ⟨n, between⟩ := s
      rw [boundsFrom] at hj
      cases j with
      | zero =>
          rw [List.getElem?_cons_zero] at hj
          injection hj with hj
          injection hj with hstart hstop
          subst hstart hstop
          refine ⟨Nat.le_refl _, fun p => ?_⟩
          rw [marks_laidFrom_cons, Nat.add_zero]
          split
          · next h => exact ⟨fun _ => rfl, fun _ => by omega⟩
          · next h =>
            refine ⟨fun hp => absurd hp.2 (by omega), fun hmark => ?_⟩
            split at hmark
            · exact nomatch hmark
            · -- the images behind it have larger numbers
              have hle := le_of_mem_laidFrom (List.mem_of_getElem? hmark)
              omega
      | succ j =>
          rw [List.getElem?_cons_succ] at hj
          obtain ⟨hle, hcovers⟩ := ih (image + 1) (pos + n + between.length) hj
          refine ⟨by omega, fun p => ?_⟩
          rw [marks_laidFrom_cons]
          split
          · next h =>
            refine ⟨fun hp => absurd hp.1 (by omega), fun hmark => ?_⟩
            injection hmark with hmark
            injection hmark with hmark
            omega
          · split
            · next h => exact ⟨fun hp => absurd hp.1 (by omega), fun hmark => nomatch hmark⟩
            · next h =>
              have hrest := hcovers (p - n - between.length)
              rw [show pos + n + between.length + (p - n - between.length) = pos + p by omega,
                show image + 1 + j = image + (j + 1) by omega] at hrest
              exact hrest

/-! ## Two images without tokens between them -/

/-- An image token stands in no run that ends before it. -/
theorem findRuns_endPos (pads : List Bool) (pos : Nat) (run : Option { s // s < pos })
    (r : MediaRegion) (hr : r ∈ findRuns pos run pads) :
    pos ≤ r.endPos ∧ pads[r.endPos - pos]? ≠ some true := by
  induction pads generalizing pos run with
  | nil =>
      refine ⟨?_, by simp⟩
      cases run with
      | none => exact absurd hr List.not_mem_nil
      | some s =>
          rw [findRuns, List.mem_singleton] at hr
          rw [hr]
  | cons pad pads ih =>
      -- a run that ends later ends among the pads behind this one
      have hlater : ∀ run, r ∈ findRuns (pos + 1) run pads →
          pos ≤ r.endPos ∧ (pad :: pads)[r.endPos - pos]? ≠ some true := fun run hr => by
        obtain ⟨hle, hne⟩ := ih (pos + 1) run hr
        refine ⟨by omega, ?_⟩
        rw [show r.endPos - pos = r.endPos - (pos + 1) + 1 by omega, List.getElem?_cons_succ]
        exact hne
      cases run with
      | none =>
          cases pad with
          | true => exact hlater _ hr
          | false => exact hlater _ hr
      | some s =>
          cases pad with
          | true => exact hlater _ hr
          | false =>
              rw [findRuns, List.mem_cons] at hr
              obtain rfl | hr := hr
              · refine ⟨Nat.le_refl _, ?_⟩
                rw [Nat.sub_self]
                simp
              · exact hlater none hr

omit [DecidableEq Token] in
/-- Two images without tokens between them stand next to each other. -/
theorem adjacent_laidFrom (imageTokenId : Token) {j n n' : Nat} {between : List Token} (hj : segs[j]? = some (n, []))
    (hj' : segs[j + 1]? = some (n', between)) (hn : 0 < n) (hn' : 0 < n') (image : Nat) : ∃ p,
      (laidFrom imageTokenId image segs)[p]? = some (imageTokenId, some (image + j))
      ∧ (laidFrom imageTokenId image segs)[p + 1]? = some (imageTokenId, some (image + (j + 1))) := by
  induction segs generalizing image j with
  | nil => exact nomatch hj
  | cons s segs ih =>
      cases j with
      | zero =>
          cases segs with
          | nil => exact nomatch hj'
          | cons s' segs =>
              injection hj with hj
              injection hj' with hj'
              subst hj hj'
              refine ⟨n - 1, ?_, ?_⟩
              · rw [laidFrom, List.append_assoc, List.getElem?_append_left (by simp; omega),
                  List.getElem?_replicate, if_pos (by omega), Nat.add_zero]
              · rw [Nat.sub_add_cancel hn, laidFrom, laidFrom,
                  List.getElem?_append_right (by simp [plain])]
                have hzero : n - (List.replicate n (imageTokenId, some image) ++ plain []).length = 0 := by
                  simp [plain]
                rw [hzero, List.append_assoc, List.getElem?_append_left (by simp; omega),
                  List.getElem?_replicate, if_pos hn']
      | succ j =>
          obtain ⟨p, hp, hp'⟩ := ih hj hj' (image + 1)
          let before := List.replicate s.1 (imageTokenId, some image) ++ plain s.2
          have hafter : ∀ q, (laidFrom imageTokenId image (s :: segs))[before.length + q]?
              = (laidFrom imageTokenId (image + 1) segs)[q]? := fun q => by
            show (before ++ laidFrom imageTokenId (image + 1) segs)[before.length + q]? = _
            rw [List.getElem?_append_right (Nat.le_add_right _ _), Nat.add_sub_cancel_left]
          refine ⟨before.length + p, ?_, ?_⟩
          · rw [hafter, hp, show image + 1 + j = image + (j + 1) by omega]
          · rw [Nat.add_assoc, hafter, hp', show image + 1 + (j + 1) = image + (j + 1 + 1) by omega]

end Exo.Vision
