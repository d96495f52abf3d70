import Exo.Parsers.Values
import Mathlib.Data.List.ReduceOption

/-!
# Arguments of tool calls and their schemas

Models write arguments as strings where a schema asks for something else. `_coerce_tool_arg_with_schema`
turns a value into one of the type its schema names, member by member and item by item. Where a schema
names a list of types, the first of them that the value can be turned into is taken.
-/

namespace Exo.Parsers

open Lib

inductive TypeName where
  | object
  | array
  | string
  | integer
  | number
  | boolean
  | null
  | other (name : Text)
deriving DecidableEq

/-- What a schema has under `type`. -/
inductive SchemaType where
  /-- Nothing, or neither a string nor a list. -/
  | missing
  | one (name : TypeName)
  /-- The entries of a list; `none` is not a string. -/
  | anyOf (candidates : List (Option TypeName))

/-- What is read of a schema. `properties` and `items` are `none` when they are no dictionaries, as is
a property that is none. -/
structure Schema where
  type : SchemaType := .missing
  properties : Option (List (Text × Option Schema)) := none
  items : Option Schema := none

namespace Schema

variable (schema : Schema)

/-- The schema of a property. -/
def property? (key : Text) : Option Schema :=
  schema.properties.bind fun properties => (properties.lookup key).join

theorem sizeOf_lt : sizeOf schema.properties + sizeOf schema.items < sizeOf schema := by
  cases schema
  simp only [mk.sizeOf_spec]
  omega

/-- A schema within a schema goes less deep. -/
theorem sizeOf_property {key : Text} {property : Schema} (h : schema.property? key = some property) :
    sizeOf property.properties + sizeOf property.items
      < sizeOf schema.properties + sizeOf schema.items := by
  obtain ⟨properties, hproperties, h⟩ := Option.bind_eq_some_iff.mp h
  have hlookup : properties.lookup key = some (some property) := by
    cases hfound : properties.lookup key with
    | none => rw [hfound] at h; cases h
    | some found => rw [hfound] at h; exact congrArg some h
  obtain ⟨before, after, happend, -⟩ := List.lookup_eq_some_iff.mp hlookup
  have hmem : (key, some property) ∈ properties := by
    rw [happend]
    exact List.mem_append_right _ List.mem_cons_self
  have hsize := List.sizeOf_lt_of_mem hmem
  have hlt := property.sizeOf_lt
  rw [Prod.mk.sizeOf_spec, Option.some.sizeOf_spec] at hsize
  rw [hproperties, Option.some.sizeOf_spec]
  omega

theorem sizeOf_items {item : Schema} (h : schema.items = some item) :
    sizeOf item.properties + sizeOf item.items
      < sizeOf schema.properties + sizeOf schema.items := by
  have := item.sizeOf_lt
  rw [h, Option.some.sizeOf_spec]
  omega

def withType (name : TypeName) : Schema := { schema with type := .one name }

end Schema

def jsonTypeMatches : Value → TypeName → Bool
  | .dict _, .object => true
  | .list _, .array => true
  | .str _, .string => true
  | .int _, .integer => true
  | .int _, .number => true
  | .float _, .number => true
  | .bool _, .boolean => true
  | .none, .null => true
  | _, _ => false

/-! ## One value -/

/-- A string is read, any other value is what it is. -/
def parsed : Value → Option Value
  | .str t => Value.loads t
  | value => some value

def coerceInteger : Value → Value
  | .float d =>
    match d.integer? with
    | some n => .int n
    | none => .float d
  | .str t =>
    match Numerals.readInteger t.strip with
    | some n => .int n
    | none => .str t
  | value => value

def coerceNumber : Value → Value
  | .str t =>
    match Numerals.readDouble t.strip with
    | some (.finite negative magnitude) => .float (.finite negative magnitude)
    | _ => .str t
  | value => value

def coerceBoolean : Value → Value
  | .str t =>
    let lowered := t.strip.map CodePoint.lower
    if lowered = Text.of "true" then .bool true
    else if lowered = Text.of "false" then .bool false
    else .str t
  | value => value

/-! ## Values within values -/

def coerceToolArgWithSchema (schema : Schema) (value : Value) : Value :=
  match _htype : schema.type with
  | .anyOf candidates =>
    (candidates.findSome? fun candidate =>
      candidate.bind fun name =>
        if name = .null ∧ value.isNone then some .none
        else
          let coerced := coerceToolArgWithSchema (schema.withType name) value
          if jsonTypeMatches coerced name then some coerced else none).getD value
  | .missing => value
  | .one .object =>
    match parsed value with
    | some (.dict items) =>
      .dict (items.map fun item =>
        match _hproperty : schema.property? item.1 with
        | some property => (item.1, coerceToolArgWithSchema property item.2)
        | none => item)
    | _ => value
  | .one .array =>
    match parsed value with
    | some (.list items) =>
      match _hitems : schema.items with
      | some item => .list (items.map fun value => coerceToolArgWithSchema item value)
      | none => .list items
    | _ => value
  | .one .integer => coerceInteger value
  | .one .number => coerceNumber value
  | .one .boolean => coerceBoolean value
  | .one .string | .one .null | .one (.other _) => value
-- down in the schemas within a schema, and in its list of types before one of them
termination_by (sizeOf schema.properties + sizeOf schema.items,
  match schema.type with
  | .anyOf _ => 1
  | _ => 0)
decreasing_by
  · rw [_htype]
    exact .right _ Nat.zero_lt_one
  · exact .left _ _ (schema.sizeOf_property _hproperty)
  · exact .left _ _ (schema.sizeOf_items _hitems)

/-! ## What a schema asks for -/

/-- The value has the type. -/
def SchemaType.Allows (value : Value) : SchemaType → Prop
  | .missing => True
  | .one name => jsonTypeMatches value name = true
  | .anyOf candidates => ∃ name ∈ candidates.reduceOption, jsonTypeMatches value name = true

/-- The value and all values in it have the types the schema asks for. -/
inductive Conforms : Schema → Value → Prop where
  | mk {schema : Schema} {value : Value} (type : schema.type.Allows value)
      (members : ∀ item ∈ value.members, ∀ property, schema.property? item.1 = some property →
        Conforms property item.2)
      (elements : ∀ x ∈ value.elements, ∀ item, schema.items = some item → Conforms item x) :
      Conforms schema value

/-- The value can be turned into one of the type. -/
def takes : TypeName → Value → Bool
  | .object, .str t =>
    match Value.loads t with
    | some (.dict _) => true
    | _ => false
  | .array, .str t =>
    match Value.loads t with
    | some (.list _) => true
    | _ => false
  | .integer, .str t => (Numerals.readInteger t.strip).isSome
  | .integer, .float d => d.integer?.isSome
  | .number, .str t =>
    match Numerals.readDouble t.strip with
    | some (.finite ..) => true
    | _ => false
  | .boolean, .str t =>
    [Text.of "true", Text.of "false"].contains (t.strip.map CodePoint.lower)
  | name, value => jsonTypeMatches value name

/-- The first type of a list that the value can be turned into. -/
def choose (candidates : List (Option TypeName)) (value : Value) : Option TypeName :=
  candidates.reduceOption.find? fun name => takes name value

/-- Wherever the schema has a list of types, the first one that the value there can be turned into is
one that it has. -/
inductive Direct : Schema → Value → Prop where
  | untyped {schema : Schema} {value : Value} (type : schema.type = .missing) : Direct schema value
  | typed {schema : Schema} {value : Value}
      (first : ∀ candidates name, schema.type = .anyOf candidates →
        choose candidates value = some name → jsonTypeMatches value name = true)
      (members : ∀ item ∈ value.members, ∀ property, schema.property? item.1 = some property →
        Direct property item.2)
      (elements : ∀ x ∈ value.elements, ∀ item, schema.items = some item → Direct item x) :
      Direct schema value

/-- A string is read as a double that is an integer, and of the types it can be turned into `number`
is the first, with `integer` in front of it. -/
inductive Reverts (candidates : List (Option TypeName)) : Value → Prop where
  | mk {t : Text} {d : Double} {n : ℤ} {before after : List TypeName}
      (names : candidates.reduceOption = before ++ .number :: after)
      (untaken : ∀ name ∈ before, takes name (.str t) = false) (inFront : .integer ∈ before)
      (read : Numerals.readDouble t.strip = some d) (whole : d.integer? = some n) :
      Reverts candidates (.str t)

/-- The type that a value is turned into. -/
def Schema.target (schema : Schema) (value : Value) : Option TypeName :=
  match schema.type with
  | .missing => none
  | .one name => some name
  | .anyOf candidates => choose candidates value

/-- No string reverts, among the values that are met on the way down. -/
inductive Stable : Schema → Value → Prop where
  | mk {schema : Schema} {value : Value}
      (kept : ∀ candidates, schema.type = .anyOf candidates → ¬ Reverts candidates value)
      (members : schema.target value = some .object → ∀ read, parsed value = some read →
        ∀ item ∈ read.members, ∀ property, schema.property? item.1 = some property →
          Stable property item.2)
      (elements : schema.target value = some .array → ∀ read, parsed value = some read →
        ∀ x ∈ read.elements, ∀ item, schema.items = some item → Stable item x) :
      Stable schema value

end Exo.Parsers
