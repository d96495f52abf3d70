import Mathlib.Data.Nat.Digits.Defs
import Mathlib.Data.Nat.Digits.Lemmas
import Exo.Lib.Text

/-!
# JSON texts

A writer and a reader of JSON, code point by code point: the writer leaves everything outside
ASCII as it is and puts a chosen amount of white space behind a comma and a colon, the reader takes
any JSON text, with the three constants that are not JSON. What is written is read back, on one
line as far as the strings in it are; and a text that breaks off inside a string is not read at all.
-/

namespace Exo.Lib

/-! ## Numbers -/

/-- A number as it is written down. -/
structure Number where
  negative : Bool := false
  whole : Nat
  /-- The digits behind the point. None is an integer. -/
  fraction : List (Fin 10) := []
  /-- The power of ten. -/
  exponent : Option Int := none
deriving DecidableEq

namespace Json

/-- What makes a numeral a digit. -/
instance neZero_digits : NeZero 10 := ⟨by decide⟩

def digitPoint (d : Fin 10) : CodePoint := ⟨48 + d.val, by omega⟩

def digitsOf (n : Nat) : List (Fin 10) :=
  if n = 0 then [0] else (Nat.digits 10 n).reverse.map (Fin.ofNat 10)

def ofDigits (ds : List (Fin 10)) : Nat := Nat.ofDigits 10 (ds.map Fin.val).reverse

def natText (n : Nat) : Text := (digitsOf n).map digitPoint

def signText (negative : Bool) : Text := if negative then [45] else []

def fractionText : List (Fin 10) → Text
  | [] => []
  | d :: ds => 46 :: (d :: ds).map digitPoint

def exponentText : Option Int → Text
  | none => []
  | some e => 101 :: signText (decide (e < 0)) ++ natText e.natAbs

/-- The digits a text begins with. -/
def spanDigits : Text → List (Fin 10) × Text
  | [] => ([], [])
  | c :: rest =>
    if h : 48 ≤ c.val ∧ c.val ≤ 57 then
      (⟨c.val - 48, by omega⟩ :: (spanDigits rest).1, (spanDigits rest).2)
    else ([], c :: rest)

def scanSign : Text → Bool × Text
  | 45 :: rest => (true, rest)
  | t => (false, t)

/-- A whole number does not begin with a zero, unless it is zero. -/
def scanWhole : Text → Option (Nat × Text)
  | 48 :: rest => some (0, rest)
  | t =>
    match spanDigits t with
    | ([], _) => none
    | (ds, rest) => some (ofDigits ds, rest)

def scanFraction : Text → List (Fin 10) × Text
  | 46 :: t =>
    match spanDigits t with
    | ([], _) => ([], 46 :: t)
    | (ds, rest) => (ds, rest)
  | t => ([], t)

def scanExponentSign : Text → Bool × Text
  | 45 :: rest => (true, rest)
  | 43 :: rest => (false, rest)
  | t => (false, t)

def scanExponent : Text → Option Int × Text
  | [] => (none, [])
  | c :: t =>
    if c = 101 ∨ c = 69 then
      match spanDigits (scanExponentSign t).2 with
      | ([], _) => (none, c :: t)
      | (ds, rest) =>
        (some (if (scanExponentSign t).1 then - (ofDigits ds : Int) else ofDigits ds), rest)
    else (none, c :: t)

/-- The longest number a text begins with. -/
def scanNumber (t : Text) : Option (Number × Text) :=
  match scanWhole (scanSign t).2 with
  | none => none
  | some (whole, rest) =>
    some ({ negative := (scanSign t).1, whole, fraction := (scanFraction rest).1
            exponent := (scanExponent (scanFraction rest).2).1 },
      (scanExponent (scanFraction rest).2).2)

end Json

def Number.text (n : Number) : Text :=
  Json.signText n.negative ++ Json.natText n.whole ++ Json.fractionText n.fraction ++
    Json.exponentText n.exponent

namespace Json

/-- No digit stands first. -/
def NoDigit (t : Text) : Prop := ∀ c rest, t = c :: rest → ¬ (48 ≤ c.val ∧ c.val ≤ 57)

/-- Nothing stands first that a number could go on with. -/
def NumberEnds (t : Text) : Prop :=
  ∀ c rest, t = c :: rest → ¬ (48 ≤ c.val ∧ c.val ≤ 57) ∧ c ≠ 46 ∧ c ≠ 101 ∧ c ≠ 69

variable {t : Text}

theorem NumberEnds.noDigit (h : NumberEnds t) : NoDigit t :=
  fun c rest ht => (h c rest ht).1

variable {c : CodePoint}

theorem numberEnds_cons
    (h : ¬ (48 ≤ c.val ∧ c.val ≤ 57) ∧ c ≠ 46 ∧ c ≠ 101 ∧ c ≠ 69) : NumberEnds (c :: t) := by
  rintro d rest he
  obtain ⟨rfl, rfl⟩ := List.cons.inj he
  exact h

theorem digitPoint_isDigit (d : Fin 10) :
    48 ≤ (digitPoint d).val ∧ (digitPoint d).val ≤ 57 := by
  simp only [digitPoint]
  omega

/-- A run of digits is read up to where it ends. -/
theorem spanDigits_append (ds : List (Fin 10)) (ht : NoDigit t) :
    spanDigits (ds.map digitPoint ++ t) = (ds, t) := by
  induction ds with
  | nil =>
      cases t with
      | nil => rfl
      | cons c t => rw [List.map_nil, List.nil_append, spanDigits, dif_neg (ht c t rfl)]
  | cons d ds ih =>
      rw [List.map_cons, List.cons_append, spanDigits, dif_pos (digitPoint_isDigit d), ih]
      simp [digitPoint]

theorem digitsOf_ne_nil (n : Nat) : digitsOf n ≠ [] := by
  by_cases hn : n = 0
  · simp [digitsOf, hn]
  · simp [digitsOf, hn, Nat.digits_ne_nil_iff_ne_zero]

theorem ofDigits_digitsOf (n : Nat) : ofDigits (digitsOf n) = n := by
  by_cases hn : n = 0
  · subst hn; rfl
  · have hsmall : ∀ d ∈ Nat.digits 10 n, ((Fin.ofNat 10 d).val) = d := fun d hd =>
      Nat.mod_eq_of_lt (Nat.digits_lt_base (by omega) hd)
    have hvals : ((digitsOf n).map Fin.val).reverse = Nat.digits 10 n := by
      rw [digitsOf, if_neg hn, List.map_map, List.map_reverse, List.reverse_reverse]
      exact (List.map_congr_left hsmall).trans (List.map_id _)
    rw [ofDigits, hvals, Nat.ofDigits_digits]

/-- The first digit of a number that is not zero is not zero. -/
theorem digitsOf_head {n : Nat} {d : Fin 10} {ds : List (Fin 10)} (hn : n ≠ 0)
    (h : digitsOf n = d :: ds) : d ≠ 0 := by
  rw [digitsOf, if_neg hn] at h
  have hne : Nat.digits 10 n ≠ [] := Nat.digits_ne_nil_iff_ne_zero.mpr hn
  have hlast := Nat.getLast_digit_ne_zero 10 hn
  have hhead : (Nat.digits 10 n).reverse.head (by simpa using hne)
      = (Nat.digits 10 n).getLast hne := List.head_reverse _
  have hmem : (Nat.digits 10 n).getLast hne < 10 :=
    Nat.digits_lt_base (by omega) (List.getLast_mem hne)
  obtain ⟨e, es, hes⟩ := List.exists_cons_of_ne_nil (by simpa using hne :
    (Nat.digits 10 n).reverse ≠ [])
  simp only [hes, List.head_cons] at hhead
  rw [hes, List.map_cons] at h
  obtain ⟨rfl, -⟩ := List.cons.inj h
  intro hzero
  have hval : e % 10 = 0 := congrArg Fin.val hzero
  omega

theorem scanWhole_natText (n : Nat) (ht : NoDigit t) :
    scanWhole (natText n ++ t) = some (n, t) := by
  by_cases hn : n = 0
  · subst hn; rfl
  · obtain ⟨d, ds, hds⟩ := List.exists_cons_of_ne_nil (digitsOf_ne_nil n)
    have hd : digitPoint d ≠ 48 := by
      intro he
      have hval := congrArg Fin.val he
      exact digitsOf_head hn hds (Fin.ext (by simpa [digitPoint] using hval))
    have hspan : spanDigits (digitPoint d :: (ds.map digitPoint ++ t)) = (d :: ds, t) :=
      spanDigits_append (d :: ds) ht
    have hvalue : ofDigits (d :: ds) = n := hds ▸ ofDigits_digitsOf n
    rw [natText, hds, List.map_cons, List.cons_append, scanWhole.eq_def]
    split
    · next he => exact absurd (List.cons.inj he).1 hd
    · simp only [hspan, hvalue]

theorem natText_head (n : Nat) : ∃ c rest, natText n = c :: rest ∧ 48 ≤ c.val ∧ c.val ≤ 57 := by
  obtain ⟨d, ds, hds⟩ := List.exists_cons_of_ne_nil (digitsOf_ne_nil n)
  exact ⟨digitPoint d, ds.map digitPoint, by rw [natText, hds, List.map_cons],
    digitPoint_isDigit d⟩

theorem scanFraction_text (ds : List (Fin 10)) (ht : NoDigit t)
    (hpoint : ∀ rest, t ≠ 46 :: rest) : scanFraction (fractionText ds ++ t) = (ds, t) := by
  cases ds with
  | nil =>
      rw [fractionText, List.nil_append, scanFraction.eq_def]
      split
      · next rest => exact absurd rfl (hpoint rest)
      · rfl
  | cons d ds =>
      rw [fractionText, List.cons_append, scanFraction, spanDigits_append (d :: ds) ht]

theorem scanExponent_text (e : Option Int) (ht : NumberEnds t) :
    scanExponent (exponentText e ++ t) = (e, t) := by
  cases e with
  | none =>
      cases t with
      | nil => rfl
      | cons c t =>
          have hc := ht c t rfl
          rw [exponentText, List.nil_append, scanExponent, if_neg (by simp [hc.2.2])]
  | some e =>
      have hspan : spanDigits (natText e.natAbs ++ t) = (digitsOf e.natAbs, t) :=
        spanDigits_append _ ht.noDigit
      obtain ⟨c, rest, hcr, hc⟩ := natText_head e.natAbs
      have hsign : scanExponentSign (signText (decide (e < 0)) ++ natText e.natAbs ++ t)
          = (decide (e < 0), natText e.natAbs ++ t) := by
        by_cases he : e < 0
        · simp [signText, he, scanExponentSign]
        · rw [signText, if_neg (by simpa using he), List.nil_append, hcr, List.cons_append,
            scanExponentSign.eq_def]
          split
          · next h' => rw [(List.cons.inj h').1] at hc; exact absurd hc (by decide)
          · next h' => rw [(List.cons.inj h').1] at hc; exact absurd hc (by decide)
          · simp [he]
      obtain ⟨d, ds, hds⟩ := List.exists_cons_of_ne_nil (digitsOf_ne_nil e.natAbs)
      rw [exponentText, List.cons_append, List.cons_append, scanExponent, if_pos (Or.inl rfl),
        hsign]
      simp only [hspan, hds]
      rw [← hds, ofDigits_digitsOf]
      by_cases he : e < 0
      · simp only [he, decide_true, if_true]
        congr 2
        omega
      · simp only [he, decide_false, Bool.false_eq_true, if_false]
        congr 2
        omega

theorem exponentText_noDigit (e : Option Int) (ht : NumberEnds t) :
    NoDigit (exponentText e ++ t) ∧ ∀ rest, exponentText e ++ t ≠ 46 :: rest := by
  cases e with
  | none => exact ⟨ht.noDigit, fun rest he => (ht 46 rest he).2.1 rfl⟩
  | some e =>
      refine ⟨fun c rest he => ?_, fun rest he => ?_⟩
      · rw [exponentText, List.cons_append, List.cons_append] at he
        rw [← (List.cons.inj he).1]
        decide
      · rw [exponentText, List.cons_append, List.cons_append] at he
        exact absurd (List.cons.inj he).1 (by decide)

theorem fractionText_noDigit (ds : List (Fin 10)) (ht : NoDigit t) :
    NoDigit (fractionText ds ++ t) := by
  cases ds with
  | nil => exact ht
  | cons d ds =>
      intro c rest he
      rw [fractionText, List.cons_append] at he
      rw [← (List.cons.inj he).1]
      decide

/-- **A number is read back** where nothing follows that it could go on with. -/
theorem scanNumber_text (n : Number) (ht : NumberEnds t) :
    scanNumber (n.text ++ t) = some (n, t) := by
  obtain ⟨negative, whole, fraction, exponent⟩ := n
  obtain ⟨hdigit, hpoint⟩ := exponentText_noDigit exponent ht
  have hwhole := scanWhole_natText whole (fractionText_noDigit fraction hdigit)
  have hsign : scanSign (signText negative ++ (natText whole ++
      (fractionText fraction ++ (exponentText exponent ++ t))))
      = (negative, natText whole ++ (fractionText fraction ++ (exponentText exponent ++ t))) := by
    cases negative with
    | true => rfl
    | false =>
        obtain ⟨c, rest, hcr, hc⟩ := natText_head whole
        rw [hcr, signText, if_neg (by simp), List.nil_append, List.cons_append, scanSign.eq_def]
        split
        · next h' => rw [(List.cons.inj h').1] at hc; exact absurd hc (by decide)
        · rfl
  simp only [Number.text, List.append_assoc]
  rw [scanNumber, hsign]
  simp only [hwhole, scanFraction_text fraction hdigit hpoint, scanExponent_text exponent ht]

/-! ## Strings -/

def hexDigit (d : Fin 16) : CodePoint :=
  if d.val < 10 then ⟨48 + d.val, by omega⟩ else ⟨87 + d.val, by omega⟩

def hexValue (c : CodePoint) : Option Nat :=
  if 48 ≤ c.val ∧ c.val ≤ 57 then some (c.val - 48)
  else if 97 ≤ c.val ∧ c.val ≤ 102 then some (c.val - 87)
  else if 65 ≤ c.val ∧ c.val ≤ 70 then some (c.val - 55)
  else none

/-- A code point as it is written inside a string. -/
def escape (c : CodePoint) : Text :=
  if c = 34 then [92, 34]
  else if c = 92 then [92, 92]
  else if c = 10 then [92, 110]
  else if c = 13 then [92, 114]
  else if c = 9 then [92, 116]
  else if c = 12 then [92, 102]
  else if c = 8 then [92, 98]
  else if c.val < 32 then
    [92, 117, 48, 48, hexDigit (Fin.ofNat 16 (c.val / 16)), hexDigit (Fin.ofNat 16 c.val)]
  else [c]

def escaped (s : Text) : Text := s.flatMap escape

def quoted (s : Text) : Text := 34 :: (escaped s ++ [34])

/-- What a letter behind a backslash stands for. -/
def unescape (c : CodePoint) : Option CodePoint :=
  if c = 34 ∨ c = 92 ∨ c = 47 then some c
  else if c = 98 then some 8
  else if c = 102 then some 12
  else if c = 110 then some 10
  else if c = 114 then some 13
  else if c = 116 then some 9
  else none

/-- Four hexadecimal digits. -/
def hexPoint (a b c d : CodePoint) : Option CodePoint :=
  match hexValue a, hexValue b, hexValue c, hexValue d with
  | some a, some b, some c, some d => some (Fin.ofNat _ (4096 * a + 256 * b + 16 * c + d))
  | _, _, _, _ => none

def isHighSurrogate (c : CodePoint) : Bool := decide (0xD800 ≤ c.val ∧ c.val ≤ 0xDBFF)

def isLowSurrogate (c : CodePoint) : Bool := decide (0xDC00 ≤ c.val ∧ c.val ≤ 0xDFFF)

def joinSurrogates (high low : CodePoint) : CodePoint :=
  Fin.ofNat _ (0x10000 + 1024 * (high.val - 0xD800) + (low.val - 0xDC00))

/-- `s` is what was scanned behind `c`. -/
def consPoint (c : CodePoint) (s : Option (Text × Text)) : Option (Text × Text) :=
  s.map fun r => (c :: r.1, r.2)

/-- A string from behind its opening quote, with the text behind its closing one. -/
def scanString : Text → Option (Text × Text)
  | [] => none
  | 34 :: rest => some ([], rest)
  | 92 :: 117 :: a :: b :: c :: d :: 92 :: 117 :: a' :: b' :: c' :: d' :: rest =>
    match hexPoint a b c d with
    | none => none
    | some high =>
      -- the second half of a pair belongs to the first one
      if isHighSurrogate high then
        match hexPoint a' b' c' d' with
        | none => none
        | some low =>
          if isLowSurrogate low then consPoint (joinSurrogates high low) (scanString rest)
          else consPoint high (scanString (92 :: 117 :: a' :: b' :: c' :: d' :: rest))
      else consPoint high (scanString (92 :: 117 :: a' :: b' :: c' :: d' :: rest))
  | 92 :: 117 :: a :: b :: c :: d :: rest =>
    match hexPoint a b c d with
    | none => none
    | some u => consPoint u (scanString rest)
  | 92 :: c :: rest =>
    match unescape c with
    | none => none
    | some u => consPoint u (scanString rest)
  | c :: rest => if c.val < 32 ∨ c = 92 then none else consPoint c (scanString rest)

theorem hexValue_hexDigit (d : Fin 16) : hexValue (hexDigit d) = some d.val := by
  revert d
  decide

@[simp] theorem consPoint_some {s r : Text} :
    consPoint c (some (s, r)) = some (c :: s, r) := rfl

@[simp] theorem consPoint_none : consPoint c none = none := rfl

/-- A code point that needs no escape is read as itself. -/
theorem scanString_plain (hc : ¬ c.val < 32) (hq : c ≠ 34) (hb : c ≠ 92)
    (t : Text) : scanString (c :: t) = consPoint c (scanString t) := by
  rw [scanString.eq_def]
  split
  · next he => exact absurd he (List.cons_ne_nil _ _)
  · next he => exact absurd (List.cons.inj he).1 hq
  · next he => exact absurd (List.cons.inj he).1 hb
  · next he => exact absurd (List.cons.inj he).1 hb
  · next he => exact absurd (List.cons.inj he).1 hb
  · next he =>
      obtain ⟨rfl, rfl⟩ := List.cons.inj he
      rw [if_neg (by simp [hc, hb])]

/-- A code point written by number is read as that number, when no surrogate comes of it. -/
theorem scanString_hex {a b : CodePoint} {x y : Nat} (hx : hexValue a = some x)
    (hy : hexValue b = some y) (hsmall : 16 * x + y < 32) (t : Text) :
    scanString (92 :: 117 :: 48 :: 48 :: a :: b :: t)
      = consPoint (Fin.ofNat _ (16 * x + y)) (scanString t) := by
  have hpoint : hexPoint 48 48 a b = some (Fin.ofNat _ (16 * x + y)) := by
    have hzero : hexValue 48 = some 0 := by decide
    simp [hexPoint, hzero, hx, hy]
  have hlow : isHighSurrogate (Fin.ofNat _ (16 * x + y)) = false := by
    apply decide_eq_false
    intro h
    have hval : (Fin.ofNat 0x110000 (16 * x + y)).val = 16 * x + y := Nat.mod_eq_of_lt (by omega)
    omega
  rw [scanString.eq_def]
  split
  · next he => exact absurd he (List.cons_ne_nil _ _)
  · next he => exact absurd (List.cons.inj he).1 (by decide)
  · next he =>
      simp only [List.cons.injEq, true_and] at he
      obtain ⟨rfl, rfl, rfl, rfl, rfl⟩ := he
      simp only [hpoint, hlow, Bool.false_eq_true, if_false]
  · next he =>
      simp only [List.cons.injEq, true_and] at he
      obtain ⟨rfl, rfl, rfl, rfl, rfl⟩ := he
      simp only [hpoint]
  · next hlong he =>
      simp only [List.cons.injEq, true_and] at he
      obtain ⟨rfl, rfl⟩ := he
      exact absurd rfl (hlong 48 48 a b t rfl)
  · next hshort he =>
      obtain ⟨rfl, rfl⟩ := List.cons.inj he
      exact absurd rfl (hshort 117 _ rfl)

theorem scanString_escape (c : CodePoint) (t : Text) :
    scanString (escape c ++ t) = consPoint c (scanString t) := by
  unfold escape
  split
  · next h => subst h; rfl
  split
  · next h => subst h; rfl
  split
  · next h => subst h; rfl
  split
  · next h => subst h; rfl
  split
  · next h => subst h; rfl
  split
  · next h => subst h; rfl
  split
  · next h => subst h; rfl
  split
  · next hlt =>
      have hx := hexValue_hexDigit (Fin.ofNat 16 (c.val / 16))
      have hy := hexValue_hexDigit (Fin.ofNat 16 c.val)
      have hxy : 16 * (c.val / 16 % 16) + c.val % 16 = c.val := by omega
      have hread := scanString_hex hx hy (by simp only [Fin.ofNat]; omega) t
      simp only [Fin.ofNat, hxy] at hread
      rw [show (⟨c.val % 0x110000, Nat.mod_lt _ (by omega)⟩ : CodePoint) = c from
        Fin.ext (Nat.mod_eq_of_lt c.isLt)] at hread
      simpa [Fin.ofNat] using hread
  · next hq hb _ _ _ _ _ hlt => exact scanString_plain hlt hq hb t

theorem scanString_escaped (s t : Text) :
    scanString (escaped s ++ t) = s.foldr consPoint (scanString t) := by
  induction s with
  | nil => rfl
  | cons c s ih =>
      rw [escaped, List.flatMap_cons, List.append_assoc, scanString_escape]
      exact congrArg (consPoint c) ih

theorem foldr_consPoint (s : Text) {u r : Text} :
    s.foldr consPoint (some (u, r)) = some (s ++ u, r) := by
  induction s with
  | nil => rfl
  | cons c s ih => rw [List.foldr_cons, ih]; rfl

theorem foldr_consPoint_none (s : Text) : s.foldr consPoint none = none := by
  induction s with
  | nil => rfl
  | cons c s ih => rw [List.foldr_cons, ih]; rfl

/-- **A string is read back** from behind its opening quote. -/
theorem scanString_quoted (s t : Text) : scanString (escaped s ++ 34 :: t) = some (s, t) := by
  rw [scanString_escaped, scanString, foldr_consPoint, List.append_nil]

/-- A string that breaks off is not read. -/
theorem scanString_broken (s : Text) : scanString (escaped s) = none := by
  have h := scanString_escaped s []
  rwa [List.append_nil, scanString, foldr_consPoint_none] at h

/-! ## Values -/

/-- The values that have a word of their own. The last two are no JSON, but they are written. -/
inductive Constant where
  | null
  | bool (b : Bool)
  | nan
  | infinity (negative : Bool)
deriving DecidableEq

def Constant.text : Constant → Text
  | .null => Text.of "null"
  | .bool true => Text.of "true"
  | .bool false => Text.of "false"
  | .nan => Text.of "NaN"
  | .infinity false => Text.of "Infinity"
  | .infinity true => Text.of "-Infinity"

/-- How many blanks a writer puts behind a comma and behind a colon. -/
structure Spacing where
  comma : Nat
  colon : Nat

def blanks (n : Nat) : Text := List.replicate n 32

/-- Texts in a row, up to the bracket that ends them. -/
def joined (sp : Spacing) (close : CodePoint) : List Text → Text
  | [] => [close]
  | [t] => t ++ [close]
  | t :: u :: more => t ++ 44 :: (blanks sp.comma ++ joined sp close (u :: more))

def isBlank (c : CodePoint) : Bool := decide (c = 32 ∨ c = 9 ∨ c = 10 ∨ c = 13)

def skipBlanks (t : Text) : Text := t.dropWhile isBlank

def scanConstant (t : Text) : Option (Constant × Text) :=
  [.null, .bool true, .bool false, .nan, .infinity false, .infinity true].findSome?
    fun c => if c.text.isPrefixOf t then some (c, t.drop c.text.length) else none

/-- What stands in a row up to the bracket that ends it, with the text behind that bracket. -/
def scanSeparated {α : Type} (item : Text → Option (α × Text)) (close : CodePoint) :
    Nat → Text → Option (List α × Text)
  | 0, _ => none
  | n + 1, t =>
    match item t with
    | none => none
    | some (a, rest) =>
      match skipBlanks rest with
      | [] => none
      | c :: rest =>
        if c = close then some ([a], rest)
        else if c = 44 then
          (scanSeparated item close n (skipBlanks rest)).map fun r => (a :: r.1, r.2)
        else none

/-- A row from behind the bracket that opens it. It may be empty. -/
def scanRow {α : Type} (item : Text → Option (α × Text)) (close : CodePoint) (n : Nat) (t : Text) :
    Option (List α × Text) :=
  match skipBlanks t with
  | [] => none
  | c :: rest => if c = close then some ([], rest) else scanSeparated item close n (c :: rest)

end Json

/-- A JSON value. The members of an object stand in the order they were written in. -/
inductive Json where
  | const (c : Json.Constant)
  | num (n : Number)
  | str (s : Text)
  | arr (items : List Json)
  | obj (members : List (Text × Json))

namespace Json

/-- The value under a key: the last one, when a key is there more than once. -/
def get? (key : Text) : Json → Option Json
  | .obj members => members.reverse.lookup key
  | _ => none

mutual

/-- The text of a value. -/
def dumps (sp : Spacing) : Json → Text
  | .const c => c.text
  | .num n => n.text
  | .str s => quoted s
  | .arr items => 91 :: joined sp 93 (dumpItems sp items)
  | .obj members => 123 :: joined sp 125 (dumpMembers sp members)
termination_by structural j => j

def dumpItems (sp : Spacing) : List Json → List Text
  | [] => []
  | j :: more => dumps sp j :: dumpItems sp more
termination_by structural l => l

def dumpMembers (sp : Spacing) : List (Text × Json) → List Text
  | [] => []
  | m :: more => dumpMember sp m :: dumpMembers sp more
termination_by structural l => l

def dumpMember (sp : Spacing) : Text × Json → Text
  | (key, value) => quoted key ++ 58 :: (blanks sp.colon ++ dumps sp value)
termination_by structural m => m

end

/-- A member of an object, its value read by `value`. -/
def scanMember (value : Text → Option (Json × Text)) : Text → Option ((Text × Json) × Text)
  | 34 :: rest =>
    match scanString rest with
    | none => none
    | some (key, rest) =>
      match skipBlanks rest with
      | 58 :: rest => (value (skipBlanks rest)).map fun r => ((key, r.1), r.2)
      | _ => none
  | _ => none

/-- The value a text begins with. `n` bounds how deep it goes and how much stands in a row. -/
def scanValue : Nat → Text → Option (Json × Text)
  | 0, _ => none
  | _ + 1, 34 :: rest => (scanString rest).map fun r => (.str r.1, r.2)
  | n + 1, 123 :: rest =>
    (scanRow (scanMember (scanValue n)) 125 n rest).map fun r => (.obj r.1, r.2)
  | n + 1, 91 :: rest => (scanRow (scanValue n) 93 n rest).map fun r => (.arr r.1, r.2)
  | _ + 1, t =>
    match scanConstant t with
    | some (c, rest) => some (.const c, rest)
    | none => (scanNumber t).map fun r => (.num r.1, r.2)

/-- The value of a text. A text with a byte order mark or with more than one value has none. -/
def loads (t : Text) : Option Json :=
  if t.head? = some 0xFEFF then none
  else
    match scanValue t.length (skipBlanks t) with
    | none => none
    | some (j, rest) => if skipBlanks rest = [] then some j else none

/-! ## Reading back what is written -/

theorem skipBlanks_blanks (n : Nat) (t : Text) : skipBlanks (blanks n ++ t) = skipBlanks t := by
  induction n with
  | zero => rfl
  | succ n ih => exact ih

variable {c : CodePoint}

theorem skipBlanks_cons (t : Text) (hc : isBlank c = false) :
    skipBlanks (c :: t) = c :: t := List.dropWhile_cons_of_neg (by simp [hc])

/--
A text that stands for a value where one is looked for: no blank, no closing bracket and no byte
order mark comes first.
-/
def Begins (t : Text) : Prop :=
  ∃ c rest, t = c :: rest ∧ isBlank c = false ∧ c ≠ 93 ∧ c ≠ 125 ∧ c ≠ 0xFEFF

theorem Begins.skipBlanks {t : Text} (h : Begins t) (u : Text) :
    skipBlanks (t ++ u) = t ++ u := by
  obtain ⟨c, rest, rfl, hc, -⟩ := h
  exact skipBlanks_cons _ hc

/-- A row ends with its bracket. -/
theorem joined_closed (sp : Spacing) (close : CodePoint) (ts : List Text) :
    ∃ t, joined sp close ts = t ++ [close] := by
  induction ts with
  | nil => exact ⟨[], rfl⟩
  | cons t ts ih =>
      obtain ⟨u, hu⟩ := ih
      cases ts with
      | nil => exact ⟨t, rfl⟩
      | cons v vs =>
          exact ⟨t ++ 44 :: (blanks sp.comma ++ u), by
            rw [joined, hu, List.append_assoc, List.cons_append, List.append_assoc]⟩

theorem joined_begins (sp : Spacing) (close : CodePoint) {t : Text} (ts : List Text)
    (h : Begins t) : Begins (joined sp close (t :: ts)) := by
  obtain ⟨c, rest, rfl, hc⟩ := h
  cases ts with
  | nil => exact ⟨c, _, rfl, hc⟩
  | cons u us => exact ⟨c, _, rfl, hc⟩

theorem digit_begins (h : 48 ≤ c.val ∧ c.val ≤ 57) :
    isBlank c = false ∧ c ≠ 93 ∧ c ≠ 125 ∧ c ≠ 0xFEFF := by
  refine ⟨?_, ?_, ?_, ?_⟩
  · refine decide_eq_false ?_
    rintro (rfl | rfl | rfl | rfl) <;> exact absurd h (by decide)
  · rintro rfl; exact absurd h (by decide)
  · rintro rfl; exact absurd h (by decide)
  · rintro rfl; exact absurd h (by decide)

theorem number_head (n : Number) : ∃ c rest, n.text = c :: rest ∧
    (48 ≤ c.val ∧ c.val ≤ 57 ∨
      c = 45 ∧ ∃ d more, rest = d :: more ∧ 48 ≤ d.val ∧ d.val ≤ 57) := by
  obtain ⟨c, rest, hcr, hc⟩ := natText_head n.whole
  cases hn : n.negative with
  | false =>
      exact ⟨c, rest ++ fractionText n.fraction ++ exponentText n.exponent,
        by simp [Number.text, signText, hn, hcr], Or.inl hc⟩
  | true =>
      exact ⟨45, c :: (rest ++ fractionText n.fraction ++ exponentText n.exponent),
        by simp [Number.text, signText, hn, hcr], Or.inr ⟨rfl, c, _, rfl, hc⟩⟩

theorem dumps_begins (sp : Spacing) (j : Json) : Begins (dumps sp j) := by
  cases j with
  | const c =>
      rw [dumps]
      rcases c with _ | (_ | _) | _ | (_ | _) <;> exact ⟨_, _, rfl, by decide⟩
  | num n =>
      obtain ⟨c, rest, hcr, hc⟩ := number_head n
      refine ⟨c, rest, by rw [dumps, hcr], ?_⟩
      rcases hc with hc | ⟨rfl, -⟩
      · exact digit_begins hc
      · decide
  | str s => exact ⟨34, _, by rw [dumps, quoted], by decide⟩
  | arr items => exact ⟨91, _, by rw [dumps], by decide⟩
  | obj members => exact ⟨123, _, by rw [dumps], by decide⟩

variable {n : Nat}

theorem exists_fuel (sp : Spacing) (j : Json) (hn : (dumps sp j).length ≤ n) :
    ∃ m, n = m + 1 := by
  obtain ⟨c, rest, hcr, -⟩ := dumps_begins sp j
  rw [hcr, List.length_cons] at hn
  exact ⟨n - 1, by omega⟩

theorem dumpMember_begins (sp : Spacing) (m : Text × Json) : Begins (dumpMember sp m) :=
  ⟨34, _, by rw [dumpMember, quoted, List.cons_append], by decide⟩

theorem scanConstant_text (c : Constant) (t : Text) : scanConstant (c.text ++ t) = some (c, t) := by
  rcases c with _ | (_ | _) | _ | (_ | _) <;> rfl

/-- A number is none of the words. -/
theorem scanConstant_number (n : Number) (t : Text) : scanConstant (n.text ++ t) = none := by
  obtain ⟨c, rest, hcr, hc⟩ := number_head n
  have hno : ∀ w : Constant, w.text.isPrefixOf (n.text ++ t) = false := by
    intro w
    rw [hcr, List.cons_append]
    have hdigit : 48 ≤ c.val ∧ c.val ≤ 57 →
        w.text.isPrefixOf (c :: (rest ++ t)) = false := by
      intro hd
      obtain ⟨a, as, ha, hne⟩ : ∃ a as, w.text = a :: as ∧ ¬ (48 ≤ a.val ∧ a.val ≤ 57) := by
        rcases w with _ | (_ | _) | _ | (_ | _) <;> exact ⟨_, _, rfl, by decide⟩
      have hac : (a == c) = false := by
        rw [beq_eq_false_iff_ne]
        rintro rfl
        exact hne hd
      rw [ha, List.isPrefixOf, hac, Bool.false_and]
    rcases hc with hd | ⟨rfl, d, more, rfl, hd⟩
    · exact hdigit hd
    · rcases w with _ | (_ | _) | _ | (_ | _)
      case infinity.true =>
        have hne : ((73 : CodePoint) == d) = false := by
          rw [beq_eq_false_iff_ne]
          rintro rfl
          exact absurd hd (by decide)
        have htext : Constant.text (.infinity true) = 45 :: 73 :: Text.of "nfinity" := rfl
        rw [htext, List.isPrefixOf, List.cons_append, List.isPrefixOf, hne, Bool.false_and,
          Bool.and_false]
      all_goals rfl
  simp [scanConstant, hno]

/-- `t` is read as `a`, whatever follows it that no number could go on with. -/
structure ReadsAs {α : Type} (item : Text → Option (α × Text)) (a : α) (t : Text) : Prop where
  begins : Begins t
  read : ∀ rest, NumberEnds rest → item (t ++ rest) = some (a, rest)

theorem numberEnds_comma (t : Text) : NumberEnds (44 :: t) := numberEnds_cons (by decide)

variable {sp : Spacing}

/-- **A row is read back** if each of its items is. -/
theorem scanSeparated_joined {α : Type} {item : Text → Option (α × Text)}
    {close : CodePoint} (hclose : close = 93 ∨ close = 125) {as : List α} {ts : List Text}
    (h : List.Forall₂ (ReadsAs item) as ts) (hne : as ≠ []) (hn : ts.length ≤ n)
    (rest : Text) :
    scanSeparated item close n (joined sp close ts ++ rest) = some (as, rest) := by
  have hblank : isBlank close = false := by rcases hclose with rfl | rfl <;> decide
  have hend : ∀ t, NumberEnds (close :: t) := fun t =>
    numberEnds_cons (by rcases hclose with rfl | rfl <;> decide)
  have hcomma : (44 : CodePoint) ≠ close := by rcases hclose with rfl | rfl <;> decide
  induction h generalizing n with
  | nil => exact absurd rfl hne
  | @cons a t as ts ht hts ih =>
      obtain ⟨n, rfl⟩ : ∃ m, n = m + 1 := ⟨n - 1, by simp at hn; omega⟩
      cases hts with
      | nil =>
          rw [joined, List.append_assoc, List.singleton_append, scanSeparated, ht.read _ (hend _)]
          simp only [skipBlanks_cons rest hblank, if_true]
      | @cons b u bs us hu hus =>
          have hbegin : skipBlanks (blanks sp.comma ++ (joined sp close (u :: us) ++ rest))
              = joined sp close (u :: us) ++ rest := by
            rw [skipBlanks_blanks]
            exact (joined_begins sp close us hu.begins).skipBlanks rest
          have hmore := ih (List.cons_ne_nil _ _) (Nat.le_of_succ_le_succ hn)
          rw [joined, List.append_assoc, List.cons_append, List.append_assoc, scanSeparated,
            ht.read _ (numberEnds_comma _)]
          simp only [skipBlanks_cons _ (by decide : isBlank 44 = false), if_neg hcomma, if_true,
            hbegin, hmore, Option.map_some]

theorem scanRow_joined {α : Type} {item : Text → Option (α × Text)}
    {close : CodePoint} (hclose : close = 93 ∨ close = 125) {as : List α} {ts : List Text}
    (h : List.Forall₂ (ReadsAs item) as ts) (hn : ts.length ≤ n) (rest : Text) :
    scanRow item close n (joined sp close ts ++ rest) = some (as, rest) := by
  cases h with
  | nil =>
      have hblank : isBlank close = false := by rcases hclose with rfl | rfl <;> decide
      rw [joined, List.singleton_append, scanRow, skipBlanks_cons rest hblank]
      simp only [if_true]
  | @cons a t as ts ht hts =>
      obtain ⟨c, more, hcm, hc, h93, h125, -⟩ := joined_begins sp close ts ht.begins
      have hopen : c ≠ close := by rcases hclose with rfl | rfl <;> assumption
      have hread : scanSeparated _ _ _ (joined sp close (t :: ts) ++ rest) = _ :=
        scanSeparated_joined hclose (List.Forall₂.cons ht hts) (List.cons_ne_nil _ _) hn rest
      rw [hcm, List.cons_append] at hread ⊢
      rw [scanRow, skipBlanks_cons _ hc]
      simp only [if_neg hopen, hread]

theorem scanMember_text {value : Text → Option (Json × Text)} {j : Json}
    (key : Text) (h : ReadsAs value j (dumps sp j)) :
    ReadsAs (scanMember value) (key, j) (dumpMember sp (key, j)) := by
  refine ⟨dumpMember_begins sp _, fun rest hrest => ?_⟩
  have hskip : skipBlanks (blanks sp.colon ++ (dumps sp j ++ rest)) = dumps sp j ++ rest := by
    rw [skipBlanks_blanks]
    exact h.begins.skipBlanks rest
  simp only [dumpMember, quoted, List.cons_append, List.append_assoc, List.nil_append, scanMember,
    scanString_quoted, skipBlanks_cons _ (by decide : isBlank 58 = false), hskip, h.read rest hrest,
    Option.map_some]

/-- A value that is no string and no row. -/
theorem scanValue_other {t : Text} (n : Nat) (hs : c ≠ 34) (ho : c ≠ 123)
    (ha : c ≠ 91) :
    scanValue (n + 1) (c :: t) =
      match scanConstant (c :: t) with
      | some (c, rest) => some (.const c, rest)
      | none => (scanNumber (c :: t)).map fun r => (.num r.1, r.2) := by
  rw [scanValue]
  · rintro rest he; exact hs (List.cons.inj he).1
  · rintro rest he; exact ho (List.cons.inj he).1
  · rintro rest he; exact ha (List.cons.inj he).1

theorem scanValue_constant (n : Nat) (c : Constant) (t : Text) :
    scanValue (n + 1) (c.text ++ t) = some (.const c, t) := by
  have hread := scanConstant_text c t
  obtain ⟨d, rest, hd, hs, ho, ha⟩ : ∃ d rest, c.text = d :: rest ∧ d ≠ 34 ∧ d ≠ 123 ∧ d ≠ 91 := by
    rcases c with _ | (_ | _) | _ | (_ | _) <;> exact ⟨_, _, rfl, by decide⟩
  rw [hd, List.cons_append] at hread ⊢
  rw [scanValue_other n hs ho ha, hread]

theorem scanValue_number (n : Nat) (k : Number) {t : Text} (ht : NumberEnds t) :
    scanValue (n + 1) (k.text ++ t) = some (.num k, t) := by
  have hconst := scanConstant_number k t
  have hread := scanNumber_text k ht
  obtain ⟨c, rest, hcr, hc⟩ := number_head k
  obtain ⟨hs, ho, ha⟩ : c ≠ 34 ∧ c ≠ 123 ∧ c ≠ 91 := by
    rcases hc with hc | ⟨rfl, -⟩
    · refine ⟨?_, ?_, ?_⟩ <;> (rintro rfl; exact absurd hc (by decide))
    · decide
  rw [hcr, List.cons_append] at hconst hread ⊢
  rw [scanValue_other n hs ho ha, hconst, hread]
  rfl

theorem length_le_joined (sp : Spacing) (close : CodePoint) (ts : List Text) :
    ts.length ≤ (joined sp close ts).length ∧
      ∀ t ∈ ts, t.length ≤ (joined sp close ts).length := by
  induction ts with
  | nil => exact ⟨Nat.zero_le _, fun t ht => absurd ht List.not_mem_nil⟩
  | cons t ts ih =>
      cases ts with
      | nil =>
          refine ⟨by simp [joined], fun u hu => ?_⟩
          obtain rfl := List.mem_singleton.mp hu
          simp [joined]
      | cons u us =>
          have hlen : (joined sp close (t :: u :: us)).length
              = t.length + 1 + (sp.comma + (joined sp close (u :: us)).length) := by
            simp only [joined, blanks, List.length_append, List.length_cons, List.length_replicate]
            omega
          refine ⟨by rw [hlen, List.length_cons]; omega, fun v hv => ?_⟩
          rw [hlen]
          rcases List.mem_cons.mp hv with rfl | hv
          · omega
          · have := ih.2 v hv
            omega

mutual

theorem readsAs_dumps (sp : Spacing) : ∀ (j : Json) {n : Nat}, (dumps sp j).length ≤ n →
    ReadsAs (scanValue n) j (dumps sp j)
  | .const c, n, hn => by
      obtain ⟨n, rfl⟩ := exists_fuel sp (.const c) hn
      exact ⟨dumps_begins sp _, fun rest _ => by rw [dumps, scanValue_constant]⟩
  | .num k, n, hn => by
      obtain ⟨n, rfl⟩ := exists_fuel sp (.num k) hn
      exact ⟨dumps_begins sp _, fun rest hrest => by rw [dumps, scanValue_number n k hrest]⟩
  | .str s, n, hn => by
      obtain ⟨n, rfl⟩ := exists_fuel sp (.str s) hn
      refine ⟨dumps_begins sp _, fun rest _ => ?_⟩
      rw [dumps, quoted, List.cons_append, List.append_assoc, List.singleton_append, scanValue,
        scanString_quoted]
      rfl
  | .arr items, n, hn => by
      obtain ⟨n, rfl⟩ := exists_fuel sp (.arr items) hn
      refine ⟨dumps_begins sp _, fun rest _ => ?_⟩
      rw [dumps, List.length_cons] at hn
      have hlen := length_le_joined sp 93 (dumpItems sp items)
      have hitems := readsAs_dumpItems sp items (n := n)
        (fun t ht => (hlen.2 t ht).trans (by omega))
      rw [dumps, List.cons_append, scanValue,
        scanRow_joined (Or.inl rfl) hitems (hlen.1.trans (by omega))]
      rfl
  | .obj members, n, hn => by
      obtain ⟨n, rfl⟩ := exists_fuel sp (.obj members) hn
      refine ⟨dumps_begins sp _, fun rest _ => ?_⟩
      rw [dumps, List.length_cons] at hn
      have hlen := length_le_joined sp 125 (dumpMembers sp members)
      have hmembers := readsAs_dumpMembers sp members (n := n)
        (fun t ht => (hlen.2 t ht).trans (by omega))
      rw [dumps, List.cons_append, scanValue,
        scanRow_joined (Or.inr rfl) hmembers (hlen.1.trans (by omega))]
      rfl

theorem readsAs_dumpItems (sp : Spacing) : ∀ (l : List Json) {n : Nat},
    (∀ t ∈ dumpItems sp l, t.length ≤ n) →
    List.Forall₂ (ReadsAs (scanValue n)) l (dumpItems sp l)
  | [], _, _ => List.Forall₂.nil
  | j :: more, _, hn =>
      List.Forall₂.cons (readsAs_dumps sp j (hn _ List.mem_cons_self))
        (readsAs_dumpItems sp more fun t ht => hn t (List.mem_cons_of_mem _ ht))

theorem readsAs_dumpMembers (sp : Spacing) : ∀ (l : List (Text × Json)) {n : Nat},
    (∀ t ∈ dumpMembers sp l, t.length ≤ n) →
    List.Forall₂ (ReadsAs (scanMember (scanValue n))) l (dumpMembers sp l)
  | [], _, _ => List.Forall₂.nil
  | m :: more, _, hn =>
      List.Forall₂.cons (readsAs_dumpMember sp m (hn _ List.mem_cons_self))
        (readsAs_dumpMembers sp more fun t ht => hn t (List.mem_cons_of_mem _ ht))

theorem readsAs_dumpMember (sp : Spacing) : ∀ (m : Text × Json) {n : Nat},
    (dumpMember sp m).length ≤ n →
    ReadsAs (scanMember (scanValue n)) m (dumpMember sp m)
  | (key, j), n, hn => scanMember_text key (readsAs_dumps sp j (by
      simp only [dumpMember, List.length_append, List.length_cons] at hn
      omega))

end

/-- **What is written is read back**, whatever the spacing. -/
theorem loads_dumps (sp : Spacing) (j : Json) : loads (dumps sp j) = some j := by
  have hread := (readsAs_dumps sp j (Nat.le_refl _)).read [] (fun c rest he => by cases he)
  obtain ⟨c, rest, hcr, hc, -, -, hmark⟩ := dumps_begins sp j
  have hhead : (dumps sp j).head? ≠ some 0xFEFF := by
    rw [hcr]
    exact fun he => hmark (Option.some.inj he)
  have hskip : skipBlanks (dumps sp j) = dumps sp j := by rw [hcr, skipBlanks_cons _ hc]
  rw [List.append_nil] at hread
  rw [loads, if_neg hhead, hskip, hread]
  rfl

end Json

end Exo.Lib
