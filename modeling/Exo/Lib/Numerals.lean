import Exo.Lib.Double
import Exo.Lib.Json

/-!
# Numbers that are read from texts

A text of digits, with a sign in front, is an integer; with a point or an exponent it is a double,
rounded once. Digits are the decimal digits of every script, and an underscore may stand between two
of them. This is how a programming language reads its own numbers, which takes more than JSON does.
-/

namespace Exo.Lib

/-- A double with the sign that a zero has as well. -/
inductive Double where
  | finite (negative : Bool) (magnitude : ℚ)
  | infinite (negative : Bool)
  | nan
deriving DecidableEq

namespace Double

/-- A number rounded to the nearest double. -/
def ofRat (negative : Bool) (magnitude : ℚ) : Double :=
  if overflows magnitude then .infinite negative else .finite negative (toDouble magnitude)

/-- The integer that a double is. -/
def integer? : Double → Option ℤ
  | .finite negative magnitude =>
    if magnitude.den = 1 then some (if negative then -magnitude.num else magnitude.num) else none
  | _ => none

end Double

namespace CodePoint

/-- The zeros of the scripts that have decimal digits; the other nine follow each. -/
def zeros : List Nat :=
  [0x30, 0x660, 0x6F0, 0x7C0, 0x966, 0x9E6, 0xA66, 0xAE6, 0xB66, 0xBE6, 0xC66, 0xCE6, 0xD66, 0xDE6,
    0xE50, 0xED0, 0xF20, 0x1040, 0x1090, 0x17E0, 0x1810, 0x1946, 0x19D0, 0x1A80, 0x1A90, 0x1B50,
    0x1BB0, 0x1C40, 0x1C50, 0xA620, 0xA8D0, 0xA900, 0xA9D0, 0xA9F0, 0xAA50, 0xABF0, 0xFF10, 0x104A0,
    0x10D30, 0x11066, 0x110F0, 0x11136, 0x111D0, 0x112F0, 0x11450, 0x114D0, 0x11650, 0x116C0,
    0x11730, 0x118E0, 0x11950, 0x11C50, 0x11D50, 0x11DA0, 0x11F50, 0x16A60, 0x16AC0, 0x16B50,
    0x1D7CE, 0x1D7D8, 0x1D7E2, 0x1D7EC, 0x1D7F6, 0x1E140, 0x1E2F0, 0x1E4F0, 0x1E950, 0x1FBF0]

/-- The decimal digit a code point is. -/
def decimal? (c : CodePoint) : Option (Fin 10) :=
  zeros.findSome? fun z =>
    if h : z ≤ c.val ∧ c.val < z + 10 then some ⟨c.val - z, by omega⟩ else none

/-- ASCII letters become small. -/
def lower (c : CodePoint) : CodePoint :=
  if h : 0x41 ≤ c.val ∧ c.val ≤ 0x5A then ⟨c.val + 32, by omega⟩ else c

end CodePoint

namespace Numerals

/-- Without its underscores, each of which stands between two digits. -/
def dropUnderscores (behindDigit : Bool) : Text → Option Text
  | [] => some []
  | 0x5F :: rest =>
    match rest with
    | d :: rest =>
      if behindDigit && d.decimal?.isSome then (dropUnderscores true rest).map (d :: ·) else none
    | [] => none
  | c :: rest => (dropUnderscores c.decimal?.isSome rest).map (c :: ·)

/-- The digits a text begins with. -/
def spanDecimals : Text → List (Fin 10) × Text
  | [] => ([], [])
  | c :: rest =>
    match c.decimal? with
    | some d => (d :: (spanDecimals rest).1, (spanDecimals rest).2)
    | none => ([], c :: rest)

def spanSign : Text → Bool × Text
  | 0x2D :: rest => (true, rest)
  | 0x2B :: rest => (false, rest)
  | t => (false, t)

/-- An integer is not read from more digits than this. -/
def maxDigits : Nat := 4300

/-- The integer of a text without white space around it. -/
def readInteger (t : Text) : Option ℤ :=
  (dropUnderscores false t).bind fun t =>
    match spanDecimals (spanSign t).2 with
    | (d :: ds, []) =>
      if (d :: ds).length ≤ maxDigits then
        some (if (spanSign t).1 then -(Json.ofDigits (d :: ds) : ℤ) else Json.ofDigits (d :: ds))
      else none
    | _ => none

/-- A point, and the digits behind it. -/
def spanFraction : Text → List (Fin 10) × Text
  | 0x2E :: rest => spanDecimals rest
  | t => ([], t)

/-- The exponent, when nothing stands behind it. -/
def readExponent : Text → Option ℤ
  | [] => some 0
  | c :: rest =>
    if c.lower = 0x65 then
      match spanDecimals (spanSign rest).2 with
      | (d :: ds, []) =>
        some (if (spanSign rest).1 then -(Json.ofDigits (d :: ds) : ℤ) else Json.ofDigits (d :: ds))
      | _ => none
    else none

/-- What digits on both sides of a point and an exponent stand for. -/
def magnitude (whole fraction : List (Fin 10)) (exponent : ℤ) : ℚ :=
  Json.ofDigits (whole ++ fraction) * 10 ^ (exponent - fraction.length)

/-- The double of a text without white space around it. -/
def readDouble (t : Text) : Option Double :=
  let unsigned := (spanSign t).2.map CodePoint.lower
  if unsigned = Text.of "inf" ∨ unsigned = Text.of "infinity" then some (.infinite (spanSign t).1)
  else if unsigned = Text.of "nan" then some .nan
  else (dropUnderscores false t).bind fun t =>
    let (whole, rest) := spanDecimals (spanSign t).2
    let (fraction, rest) := spanFraction rest
    if whole ++ fraction = [] then none
    else (readExponent rest).map fun exponent =>
      .ofRat (spanSign t).1 (magnitude whole fraction exponent)

end Numerals

end Exo.Lib
