import Exo.Lib.Numerals

/-!
# Values that are read from JSON

What `json.loads` makes of a text. A number without a point and an exponent is an integer, every other
one a double; of the members of an object with one key the last one counts, at the place of the first.
-/

namespace Exo.Parsers

open Lib

inductive Value where
  | none
  | bool (b : Bool)
  | int (n : ℤ)
  | float (d : Double)
  | str (t : Text)
  | list (items : List Value)
  | dict (items : List (Text × Value))

namespace Value

/-- `None` where an integer has more digits than are read. -/
def ofNumber (n : Number) : Option Value :=
  if n.fraction = [] ∧ n.exponent = .none then
    if (Json.digitsOf n.whole).length ≤ Numerals.maxDigits then
      some (.int (if n.negative then -n.whole else n.whole))
    else .none
  else
    some (.float (.ofRat n.negative
      (Numerals.magnitude (Json.digitsOf n.whole) n.fraction (n.exponent.getD 0))))

def ofConstant : Json.Constant → Value
  | .null => .none
  | .bool b => .bool b
  | .nan => .float .nan
  | .infinity negative => .float (.infinite negative)

/-- A member takes the place of one with its key. -/
def insert (key : Text) (value : Value) : List (Text × Value) → List (Text × Value)
  | [] => [(key, value)]
  | (key', value') :: rest =>
    if key' = key then (key, value) :: rest else (key', value') :: insert key value rest

mutual

def ofJson : Json → Option Value
  | .const c => some (ofConstant c)
  | .num n => ofNumber n
  | .str t => some (.str t)
  | .arr items => (ofItems items).map .list
  | .obj members => (ofMembers [] members).map .dict
termination_by structural j => j

def ofItems : List Json → Option (List Value)
  | [] => some []
  | j :: rest => (ofJson j).bind fun value => (ofItems rest).map (value :: ·)
termination_by structural l => l

def ofMembers (known : List (Text × Value)) : List (Text × Json) → Option (List (Text × Value))
  | [] => some known
  | m :: rest => (ofMember m).bind fun member => ofMembers (insert member.1 member.2 known) rest
termination_by structural l => l

def ofMember : Text × Json → Option (Text × Value)
  | (key, j) => (ofJson j).map fun value => (key, value)
termination_by structural m => m

end

/-- `json.loads`. -/
def loads (t : Text) : Option Value := (Json.loads t).bind ofJson

def isNone : Value → Bool
  | .none => true
  | _ => false

/-- The members of a dictionary. -/
def members : Value → List (Text × Value)
  | .dict items => items
  | _ => []

/-- The items of a list. -/
def elements : Value → List Value
  | .list items => items
  | _ => []

end Value

end Exo.Parsers
