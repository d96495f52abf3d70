import Exo.Parsers.Coercion

/-!
# When a coercion leaves a value as it is

A value is first turned into the type that is chosen for it, and then the values in it are coerced.
Turning a value that has the type changes nothing. So a value that conforms changes when a list of
types names one it can be turned into in front of one it has; and what was turned once stays, except
a string that became a double where the list has `integer` in front.
-/

namespace Exo.Parsers

open Lib

variable {schema : Schema} {value : Value} {name : TypeName} {candidates : List (Option TypeName)}

/-- The schemas within a schema come before it. -/
theorem Schema.induction {P : Schema → Prop}
    (h : ∀ schema : Schema, (∀ key property, schema.property? key = some property → P property) →
      (∀ item, schema.items = some item → P item) → P schema) (schema : Schema) : P schema := by
  suffices hall : ∀ n, ∀ schema : Schema,
      sizeOf schema.properties + sizeOf schema.items < n → P schema from
    hall _ schema (Nat.lt_succ_self _)
  intro n
  induction n with
  | zero => exact fun _ hn => absurd hn (Nat.not_lt_zero _)
  | succ n ih =>
      intro schema hn
      refine h schema (fun key property hproperty => ih property ?_) fun item hitem => ih item ?_
      · have := schema.sizeOf_property hproperty
        omega
      · have := schema.sizeOf_items hitem
        omega

/-! ## A value is turned, and the values in it are coerced -/

/-- A value as one of a type that it can be turned into. -/
def turn : TypeName → Value → Value
  | .object, value | .array, value => (parsed value).getD value
  | .integer, value => coerceInteger value
  | .number, value => coerceNumber value
  | .boolean, value => coerceBoolean value
  | .string, value | .null, value | .other _, value => value

namespace Schema

variable (schema : Schema)

def coerceMember (item : Text × Value) : Text × Value :=
  match schema.property? item.1 with
  | some property => (item.1, coerceToolArgWithSchema property item.2)
  | none => item

def coerceElement (value : Value) : Value :=
  match schema.items with
  | some item => coerceToolArgWithSchema item value
  | none => value

theorem coerceMember_some {item : Text × Value} {property : Schema}
    (h : schema.property? item.1 = some property) :
    schema.coerceMember item = (item.1, coerceToolArgWithSchema property item.2) := by
  rw [coerceMember, h]

theorem coerceMember_none {item : Text × Value} (h : schema.property? item.1 = none) :
    schema.coerceMember item = item := by
  rw [coerceMember, h]

theorem coerceElement_some {item : Schema} (h : schema.items = some item) :
    schema.coerceElement = coerceToolArgWithSchema item := by
  funext value
  rw [coerceElement, h]

theorem coerceElement_none (h : schema.items = none) : schema.coerceElement = id := by
  funext value
  rw [coerceElement, h]
  rfl

/-- The values in a value are coerced. -/
def descend : Value → Value
  | .dict items => .dict (items.map schema.coerceMember)
  | .list items => .list (items.map schema.coerceElement)
  | value => value

end Schema

theorem takes_object : takes .object value = true ↔ ∃ items, parsed value = some (.dict items) := by
  cases value with
  | str s =>
      rw [takes, parsed]
      split
      · rename_i items hparsed
        exact iff_of_true rfl ⟨items, hparsed⟩
      · rename_i hno
        exact iff_of_false Bool.false_ne_true fun h => h.elim hno
  | _ => simp [takes, jsonTypeMatches, parsed]

theorem takes_array : takes .array value = true ↔ ∃ items, parsed value = some (.list items) := by
  cases value with
  | str s =>
      rw [takes, parsed]
      split
      · rename_i items hparsed
        exact iff_of_true rfl ⟨items, hparsed⟩
      · rename_i hno
        exact iff_of_false Bool.false_ne_true fun h => h.elim hno
  | _ => simp [takes, jsonTypeMatches, parsed]

theorem takes_of_matches (h : jsonTypeMatches value name = true) : takes name value = true := by
  cases name <;> cases value <;> first | exact h | cases h

theorem turn_of_matches (h : jsonTypeMatches value name = true) : turn name value = value := by
  cases name <;> cases value <;> first | rfl | cases h

theorem matches_descend : jsonTypeMatches (schema.descend value) name = jsonTypeMatches value name := by
  cases value <;> cases name <;> rfl

theorem takes_descend : takes name (schema.descend value) = takes name value := by
  cases value <;> cases name <;> rfl

/-- Besides strings, only a double without a fraction is turned into a type that it has not. -/
theorem matches_of_takes (hstr : ∀ t, value ≠ .str t) (h : takes name value = true) :
    jsonTypeMatches value name = true
      ∨ ∃ d n, value = .float d ∧ name = .integer ∧ d.integer? = some n := by
  cases value with
  | str t => exact absurd rfl (hstr t)
  | float d =>
      cases name with
      | integer =>
          obtain ⟨n, hwhole⟩ := Option.isSome_iff_exists.mp h
          exact .inr ⟨d, n, rfl, rfl, hwhole⟩
      | number => exact .inl rfl
      | object | array | string | boolean | null | other => cases h
  | none | bool | int | list | dict => cases name <;> first | exact .inl rfl | cases h

/-- What can be turned into a type has it afterwards. -/
theorem matches_turn (h : takes name value = true) : jsonTypeMatches (turn name value) name = true := by
  by_cases hstr : ∃ t, value = .str t
  · obtain ⟨t, rfl⟩ := hstr
    cases name with
    | object | array =>
        simp only [takes, turn, parsed] at h ⊢
        split at h
        · rename_i items hread
          rw [hread]
          rfl
        · cases h
    | integer =>
        obtain ⟨n, hread⟩ := Option.isSome_iff_exists.mp h
        simp only [turn, coerceInteger, hread]
        rfl
    | number =>
        simp only [takes, turn, coerceNumber] at h ⊢
        split at h
        · rfl
        · cases h
    | boolean =>
        simp only [takes, turn, coerceBoolean, List.contains_cons, List.contains_nil, Bool.or_false,
          Bool.or_eq_true, beq_iff_eq] at h ⊢
        split
        · rfl
        · rename_i htrue
          rw [if_pos (h.resolve_left htrue)]
          rfl
    | string => rfl
    | null | other => cases h
  · rcases matches_of_takes (fun t ht => hstr ⟨t, ht⟩) h with hmatches | ⟨d, n, rfl, rfl, hwhole⟩
    · rw [turn_of_matches hmatches]
      exact hmatches
    · simp only [turn, coerceInteger, hwhole]
      rfl

/-- What can be turned into neither a dictionary nor a list has no values in it. -/
theorem descend_of_scalar (h : jsonTypeMatches value name = true) (hobject : name ≠ .object)
    (harray : name ≠ .array) : schema.descend value = value := by
  cases value with
  | dict items => cases name <;> first | exact absurd rfl hobject | cases h
  | list items => cases name <;> first | exact absurd rfl harray | cases h
  | none | bool | int | float | str => rfl

theorem turn_of_not_takes (hobject : name ≠ .object) (harray : name ≠ .array)
    (h : takes name value = false) : turn name value = value := by
  cases name with
  | object => exact absurd rfl hobject
  | array => exact absurd rfl harray
  | integer =>
      simp only [turn, coerceInteger]
      split
      · rw [Option.isSome_eq_false_iff.mp h |> Option.isNone_iff_eq_none.mp]
      · rw [Option.isSome_eq_false_iff.mp h |> Option.isNone_iff_eq_none.mp]
      · rfl
  | number =>
      simp only [turn, coerceNumber]
      split
      · split
        · rename_i hread
          simp only [takes, hread] at h
          cases h
        · rfl
      · rfl
  | boolean =>
      simp only [turn, coerceBoolean]
      split
      · simp only [takes, List.contains_cons, List.contains_nil, Bool.or_false, Bool.or_eq_false_iff,
          beq_eq_false_iff_ne] at h
        rw [if_neg h.1, if_neg h.2]
      · rfl
  | string | null | other => rfl

/-- **What a coercion to one type does.** -/
theorem coerce_withType : coerceToolArgWithSchema (schema.withType name) value
    = if takes name value then schema.descend (turn name value) else value := by
  have hscalar : name ≠ .object → name ≠ .array →
      (if takes name value then schema.descend (turn name value) else value) = turn name value := by
    intro hobject harray
    split
    · rename_i htakes
      exact descend_of_scalar (matches_turn htakes) hobject harray
    · rename_i htakes
      exact (turn_of_not_takes hobject harray (Bool.eq_false_iff.mpr htakes)).symm
  rw [coerceToolArgWithSchema]
  cases name with
  | object =>
      simp only [Schema.withType]
      split
      · rename_i items hparsed
        rw [if_pos (takes_object.2 ⟨items, hparsed⟩), turn, hparsed, Option.getD_some]
        refine congrArg Value.dict (List.map_congr_left fun item _ => ?_)
        split
        · rename_i property hproperty
          exact (schema.coerceMember_some hproperty).symm
        · rename_i hproperty
          exact (schema.coerceMember_none hproperty).symm
      · rename_i hno
        rw [if_neg fun htakes => (takes_object.1 htakes).elim hno]
  | array =>
      simp only [Schema.withType]
      split
      · rename_i items hparsed
        rw [if_pos (takes_array.2 ⟨items, hparsed⟩), turn, hparsed, Option.getD_some, Schema.descend]
        split
        · rename_i item hitem
          rw [schema.coerceElement_some hitem]
        · rename_i hitem
          rw [schema.coerceElement_none hitem, List.map_id]
      · rename_i hno
        rw [if_neg fun htakes => (takes_array.1 htakes).elim hno]
  | integer | number | boolean | string | null | other =>
      simp only [Schema.withType]
      rw [hscalar (by simp) (by simp)]
      rfl

variable {α : Type}

/-- The loop over a list of types looks for the first that the value can be turned into. -/
theorem findSome?_candidates (p : TypeName → Bool) (f : TypeName → α)
    (candidates : List (Option TypeName)) :
    (candidates.findSome? fun candidate =>
      candidate.bind fun name => if p name then some (f name) else none)
      = (candidates.reduceOption.find? p).map f := by
  induction candidates with
  | nil => rfl
  | cons candidate candidates ih =>
      cases candidate with
      | none =>
          rw [List.reduceOption_cons_of_none]
          exact ih
      | some name =>
          rw [List.reduceOption_cons_of_some, List.findSome?_cons, List.find?_cons]
          cases hp : p name with
          | true => simp [hp]
          | false => simpa [hp] using ih

theorem candidate_eq :
    (if name = .null ∧ value.isNone then some Value.none
      else if jsonTypeMatches (coerceToolArgWithSchema (schema.withType name) value) name
        then some (coerceToolArgWithSchema (schema.withType name) value) else none)
      = if takes name value then some (schema.descend (turn name value)) else none := by
  split
  · rename_i hnull
    obtain ⟨rfl, hnone⟩ := hnull
    cases value <;> first | rfl | cases hnone
  · rw [coerce_withType]
    by_cases htakes : takes name value = true
    · rw [if_pos htakes, if_pos htakes, matches_descend, if_pos (matches_turn htakes)]
    · rw [if_neg htakes, if_neg htakes, if_neg fun h => htakes (takes_of_matches h)]

theorem coerce_anyOf (h : schema.type = .anyOf candidates) :
    coerceToolArgWithSchema schema value
      = ((choose candidates value).map fun name => schema.descend (turn name value)).getD value := by
  rw [coerceToolArgWithSchema]
  split
  · rename_i candidates' h'
    obtain rfl := SchemaType.anyOf.inj (h.symm.trans h')
    simp only [candidate_eq]
    rw [findSome?_candidates, choose]
  all_goals
    rename_i h'
    rw [h] at h'
    cases h'

theorem choose_takes (h : choose candidates value = some name) : takes name value = true := by
  have htakes := List.find?_some (p := fun name => takes name value) h
  exact htakes

theorem coerce_missing (h : schema.type = .missing) : coerceToolArgWithSchema schema value = value := by
  rw [coerceToolArgWithSchema]
  split <;> rename_i h' <;> first | rfl | cases h.symm.trans h'

theorem withType_self (h : schema.type = .one name) : schema.withType name = schema := by
  cases schema
  obtain rfl := h
  rfl

/-- A value that can be turned into the type it is meant for is turned, and what is in it coerced. -/
theorem coerce_of_takes (h : schema.target value = some name) (htakes : takes name value = true) :
    coerceToolArgWithSchema schema value = schema.descend (turn name value) := by
  unfold Schema.target at h
  split at h
  · cases h
  · rename_i name' htype
    obtain rfl := Option.some.inj h
    have hcoerce : coerceToolArgWithSchema (schema.withType name') value = _ := coerce_withType
    rw [withType_self htype, if_pos htakes] at hcoerce
    exact hcoerce
  · rename_i candidates htype
    rw [coerce_anyOf htype, h]
    rfl

theorem coerce_of_not_takes (h : ∀ name, schema.target value = some name → takes name value = false) :
    coerceToolArgWithSchema schema value = value := by
  cases htype : schema.type with
  | missing => exact coerce_missing htype
  | one name =>
      have htakes := h name (by rw [Schema.target, htype])
      have hcoerce : coerceToolArgWithSchema (schema.withType name) value = _ := coerce_withType
      rw [withType_self htype, htakes] at hcoerce
      exact hcoerce
  | anyOf candidates =>
      rw [coerce_anyOf htype]
      cases hchoose : choose candidates value with
      | none => rfl
      | some name =>
          have := h name (by rw [Schema.target, htype]; exact hchoose)
          rw [choose_takes hchoose] at this
          cases this

/-! ## What is changed -/

theorem map_eq_self_iff {f : α → α} {l : List α} : l.map f = l ↔ ∀ x ∈ l, f x = x := by
  conv_lhs => rhs; rw [← List.map_id l]
  exact List.map_inj_left

/-- Nothing in a value is changed when each of its values stays. -/
theorem descend_eq_self_iff : schema.descend value = value ↔
    (∀ item ∈ value.members, ∀ property, schema.property? item.1 = some property →
        coerceToolArgWithSchema property item.2 = item.2)
      ∧ ∀ x ∈ value.elements, ∀ item, schema.items = some item →
        coerceToolArgWithSchema item x = x := by
  cases value with
  | dict items =>
      rw [Schema.descend, Value.dict.injEq, map_eq_self_iff]
      constructor
      · intro h
        refine ⟨fun item hmem property hproperty => ?_, fun x hx => by cases hx⟩
        have hitem := h item hmem
        rw [schema.coerceMember_some hproperty] at hitem
        exact congrArg Prod.snd hitem
      · intro h item hmem
        cases hproperty : schema.property? item.1 with
        | none => exact schema.coerceMember_none hproperty
        | some property =>
            rw [schema.coerceMember_some hproperty, h.1 item hmem property hproperty]
  | list items =>
      rw [Schema.descend, Value.list.injEq, map_eq_self_iff]
      constructor
      · intro h
        refine ⟨(fun x hx => by cases hx), fun x hx item hitem => ?_⟩
        rw [← schema.coerceElement_some hitem]
        exact h x hx
      · intro h x hx
        cases hitem : schema.items with
        | none => rw [schema.coerceElement_none hitem, id]
        | some item =>
            rw [schema.coerceElement_some hitem]
            exact h.2 x hx item hitem
  | none | bool | int | float | str =>
      exact iff_of_true rfl ⟨(fun x hx => by cases hx), fun x hx => by cases hx⟩

/-- A value that has the type chosen for it changes only inside. -/
theorem unchanged_iff_of_matches (htyped : schema.type ≠ .missing)
    (htarget : schema.target value = some name) (hmatches : jsonTypeMatches value name = true)
    (hmembers : ∀ item ∈ value.members, ∀ property, schema.property? item.1 = some property →
      (coerceToolArgWithSchema property item.2 = item.2 ↔ Direct property item.2))
    (helements : ∀ x ∈ value.elements, ∀ item, schema.items = some item →
      (coerceToolArgWithSchema item x = x ↔ Direct item x)) :
    coerceToolArgWithSchema schema value = value ↔ Direct schema value := by
  rw [coerce_of_takes htarget (takes_of_matches hmatches), turn_of_matches hmatches,
    descend_eq_self_iff]
  constructor
  · intro h
    refine .typed (fun candidates name' htype hchoose => ?_) (fun item hmem property hproperty => ?_)
      fun x hx item hitem => ?_
    · rw [Schema.target, htype] at htarget
      obtain rfl := Option.some.inj (htarget.symm.trans hchoose)
      exact hmatches
    · exact (hmembers item hmem property hproperty).mp (h.1 item hmem property hproperty)
    · exact (helements x hx item hitem).mp (h.2 x hx item hitem)
  · intro h
    cases h with
    | untyped htype => exact absurd htype htyped
    | typed hfirst hmembers' helements' =>
        exact ⟨fun item hmem property hproperty =>
            (hmembers item hmem property hproperty).mpr (hmembers' item hmem property hproperty),
          fun x hx item hitem => (helements x hx item hitem).mpr (helements' x hx item hitem)⟩

/-- **What conforms is unchanged exactly when it is direct.** -/
theorem unchanged_iff (schema : Schema) : ∀ {value : Value}, Conforms schema value →
    (coerceToolArgWithSchema schema value = value ↔ Direct schema value) := by
  induction schema using Schema.induction with
  | h schema ihproperty ihitem =>
    intro value hconforms
    obtain ⟨hallows, hmembers, helements⟩ := hconforms
    have hinside : ∀ name, schema.type ≠ .missing → schema.target value = some name →
        jsonTypeMatches value name = true →
          (coerceToolArgWithSchema schema value = value ↔ Direct schema value) :=
      fun name htyped htarget hmatches => unchanged_iff_of_matches htyped htarget hmatches
        (fun item hmem property hproperty =>
          ihproperty _ property hproperty (hmembers item hmem property hproperty))
        fun x hx item hitem => ihitem item hitem (helements x hx item hitem)
    cases htype : schema.type with
    | missing => exact iff_of_true (coerce_missing htype) (.untyped htype)
    | one name =>
        rw [htype] at hallows
        exact hinside name (by rw [htype]; nofun) (by rw [Schema.target, htype]) hallows
    | anyOf candidates =>
        rw [htype] at hallows
        obtain ⟨name', hname', hmatches'⟩ := hallows
        obtain ⟨name, hchoose⟩ : ∃ name, choose candidates value = some name :=
          Option.isSome_iff_exists.mp
            (List.find?_isSome.mpr ⟨name', hname', takes_of_matches hmatches'⟩)
        have htarget : schema.target value = some name := by
          rw [Schema.target, htype]
          exact hchoose
        by_cases hmatches : jsonTypeMatches value name = true
        · exact hinside name (by rw [htype]; nofun) htarget hmatches
        · -- the value gets a type that it has not
          refine iff_of_false (fun h => ?_) fun h => ?_
          · have htakes := choose_takes hchoose
            rw [coerce_of_takes htarget htakes] at h
            have hturned : jsonTypeMatches (schema.descend (turn name value)) name = true :=
              (matches_descend).trans (matches_turn htakes)
            rw [h] at hturned
            exact hmatches hturned
          · cases h with
            | untyped htype' => rw [htype] at htype'; cases htype'
            | typed hfirst _ _ => exact hmatches (hfirst candidates name htype hchoose)

/-! ## What a second coercion changes -/

theorem coerceMember_fst (item : Text × Value) : (schema.coerceMember item).1 = item.1 := by
  cases hproperty : schema.property? item.1 with
  | none => rw [schema.coerceMember_none hproperty]
  | some property => rw [schema.coerceMember_some hproperty]

/-- Inside, a second coercion changes nothing when it changes none of the values there. -/
theorem descend_twice_iff : schema.descend (schema.descend value) = schema.descend value ↔
    (∀ item ∈ value.members, ∀ property, schema.property? item.1 = some property →
        coerceToolArgWithSchema property (coerceToolArgWithSchema property item.2)
          = coerceToolArgWithSchema property item.2)
      ∧ ∀ x ∈ value.elements, ∀ item, schema.items = some item →
        coerceToolArgWithSchema item (coerceToolArgWithSchema item x)
          = coerceToolArgWithSchema item x := by
  rw [descend_eq_self_iff]
  refine and_congr ?_ ?_
  · cases value with
    | dict items =>
        show (∀ item ∈ items.map schema.coerceMember, _) ↔ _
        rw [List.forall_mem_map]
        refine forall₂_congr fun item _ => ?_
        rw [coerceMember_fst]
        refine forall₂_congr fun property hproperty => ?_
        rw [schema.coerceMember_some hproperty]
    | none | bool | int | float | str | list =>
        exact iff_of_true (fun x hx => by cases hx) fun x hx => by cases hx
  · cases value with
    | list items =>
        show (∀ x ∈ items.map schema.coerceElement, _) ↔ _
        rw [List.forall_mem_map]
        refine forall₂_congr fun x _ => forall₂_congr fun item hitem => ?_
        rw [schema.coerceElement_some hitem]
    | none | bool | int | float | str | dict =>
        exact iff_of_true (fun x hx => by cases hx) fun x hx => by cases hx

/-- The two types that have values in them. -/
def TypeName.IsContainer (kind : TypeName) : Prop := kind = .object ∨ kind = .array

variable {kind : TypeName}

/-- What is turned into a container is read, and is one. -/
theorem takes_container (hkind : kind.IsContainer) :
    takes kind value = (parsed value).any fun read => jsonTypeMatches read kind := by
  cases value with
  | str t =>
      show takes kind (.str t) = (Value.loads t).any _
      rcases hkind with rfl | rfl
      all_goals
        simp only [takes]
        cases Value.loads t with
        | none => rfl
        | some read => cases read <;> rfl
  | none | bool | int | float | list | dict => rcases hkind with rfl | rfl <;> rfl

theorem not_matches_container (hkind : kind.IsContainer) (hne : name ≠ kind)
    (h : jsonTypeMatches value name = true) : jsonTypeMatches value kind = false := by
  rcases hkind with rfl | rfl
  all_goals
    cases value with
    | dict | list => cases name <;> first | rfl | exact absurd rfl hne | cases h
    | none | bool | int | float | str => rfl

/-- The values there are to coerce are those of the value when it has been turned. -/
theorem forall_inside_turn {inside : Value → List α} {Q : α → Prop}
    (hkind : kind.IsContainer)
    (hinside : ∀ value, jsonTypeMatches value kind = false → inside value = [])
    (htakes : takes name value = true) :
    (name = kind → ∀ read, parsed value = some read → ∀ x ∈ inside read, Q x)
      ↔ ∀ x ∈ inside (turn name value), Q x := by
  by_cases hname : name = kind
  · obtain rfl := hname
    rw [takes_container hkind, Option.any_eq_true] at htakes
    obtain ⟨read, hread, -⟩ := htakes
    have hturn : turn name value = read := by
      rcases hkind with rfl | rfl <;> rw [turn, hread, Option.getD_some]
    rw [hturn]
    exact ⟨fun h => h rfl read hread, fun h _ read' hread' =>
      Option.some.inj (hread.symm.trans hread') ▸ h⟩
  · rw [hinside _ (not_matches_container hkind hname (matches_turn htakes))]
    exact iff_of_true (fun h => absurd h hname) fun x hx => by cases hx

theorem members_eq_nil (h : jsonTypeMatches value .object = false) : value.members = [] := by
  cases value <;> first | rfl | cases h

theorem elements_eq_nil (h : jsonTypeMatches value .array = false) : value.elements = [] := by
  cases value <;> first | rfl | cases h

/-- What cannot be turned into a container is not read as one. -/
theorem inside_eq_nil {inside : Value → List α} (hkind : kind.IsContainer)
    (hinside : ∀ value, jsonTypeMatches value kind = false → inside value = [])
    (htakes : takes kind value = false) {read : Value} (hread : parsed value = some read) :
    inside read = [] := by
  rw [takes_container hkind, hread] at htakes
  exact hinside read htakes

/-! ## The choice among the types of a list -/

variable {d : Double}

theorem descend_float : schema.descend (.float d) = .float d := rfl

theorem takes_float (h : takes name (.float d) = true) :
    name = .integer ∨ name = .number := by
  cases name with
  | integer => exact .inl rfl
  | number => exact .inr rfl
  | object | array | string | boolean | null | other => cases h

/-- The doubles that strings are turned into are finite. -/
theorem turn_number_eq_float {t : Text} (h : turn .number (.str t) = .float d) :
    Numerals.readDouble t.strip = some d := by
  simp only [turn, coerceNumber] at h
  split at h
  · rename_i hread
    rw [hread, Value.float.inj h]
  · cases h

theorem choose_eq_some_iff : choose candidates value = some name ↔
    takes name value = true ∧ ∃ before after, candidates.reduceOption = before ++ name :: after
      ∧ ∀ name ∈ before, takes name value = false := by
  simp only [choose, List.find?_eq_some_iff_append, Bool.not_eq_true']

/-- A value that was turned is not turned once more, unless it reverts. -/
theorem matches_choose (h : choose candidates value = some name)
    (hreverts : ¬ Reverts candidates value) {name' : TypeName}
    (h' : choose candidates (schema.descend (turn name value)) = some name') :
    jsonTypeMatches (schema.descend (turn name value)) name' = true := by
  have hturned := matches_turn (choose_takes h)
  have htakes' := choose_takes h'
  rw [takes_descend] at htakes'
  -- what is not changed by the first choice is met by the same choice
  have hself : schema.descend (turn name value) = value →
      jsonTypeMatches (schema.descend (turn name value)) name' = true := fun hself => by
    rw [hself] at h'
    obtain rfl := Option.some.inj (h.symm.trans h')
    rw [matches_descend]
    exact hturned
  rw [matches_descend] at hself ⊢
  by_cases hstr : ∃ t, turn name value = .str t
  · obtain ⟨t, hstr⟩ := hstr
    refine hself ?_
    rw [hstr] at hturned ⊢
    cases name with
    | string => exact hstr.symm
    | object | array | integer | number | boolean | null | other => cases hturned
  · rcases matches_of_takes (fun t ht => hstr ⟨t, ht⟩) htakes' with hmatches | hinteger
    · exact hmatches
    · obtain ⟨d, n, hfloat, rfl, hwhole⟩ := hinteger
      rw [hfloat] at hturned
      obtain rfl : name = .number := by
        cases name with
        | number => rfl
        | object | array | string | integer | boolean | null | other => cases hturned
      cases value with
      | str t =>
          refine absurd ?_ hreverts
          obtain ⟨-, before, after, hnames, huntaken⟩ := choose_eq_some_iff.1 h
          refine .mk hnames huntaken ?_ (turn_number_eq_float hfloat) hwhole
          rw [hfloat] at h'
          rw [descend_float, choose, hnames, List.find?_append] at h'
          cases hbefore : before.find? fun name => takes name (.float d) with
          | some found =>
              rw [hbefore, Option.some_or] at h'
              obtain rfl := Option.some.inj h'
              exact List.mem_of_find?_eq_some hbefore
          | none =>
              rw [hbefore, Option.none_or, List.find?_cons_of_pos rfl] at h'
              cases h'
      | float d' =>
          refine hself ?_
          rw [hfloat]
          exact hfloat.symm
      | none | bool | int | list | dict => cases hfloat

/-- A string that reverts becomes a double, and then an integer. -/
theorem choose_of_reverts (h : Reverts candidates value) :
    choose candidates value = some .number ∧ ∃ d n, turn .number value = .float d
      ∧ d.integer? = some n ∧ choose candidates (.float d) = some .integer := by
  obtain @⟨t, d, n, before, after, hnames, huntaken, hfront, hread, hwhole⟩ := h
  obtain ⟨negative, magnitude, rfl⟩ : ∃ negative magnitude, d = .finite negative magnitude := by
    cases d with
    | finite negative magnitude => exact ⟨negative, magnitude, rfl⟩
    | infinite | nan => cases hwhole
  have hfloat : turn .number (.str t) = .float (.finite negative magnitude) := by
    simp only [turn, coerceNumber, hread]
  have htakes : takes .number (.str t) = true := by
    simp only [takes, hread]
  refine ⟨choose_eq_some_iff.2 ⟨htakes, before, after, hnames, huntaken⟩, _, n, hfloat, hwhole,
    ?_⟩
  have hinteger : takes .integer (.float (.finite negative magnitude)) = true := by
    show (Double.finite negative magnitude).integer?.isSome = true
    rw [hwhole]
    rfl
  obtain ⟨name, hname⟩ : ∃ name, before.find? (fun name =>
      takes name (.float (.finite negative magnitude))) = some name :=
    Option.isSome_iff_exists.mp (List.find?_isSome.mpr ⟨_, hfront, hinteger⟩)
  rw [choose, hnames, List.find?_append, hname, Option.some_or]
  have htakes' := List.find?_some hname
  rcases takes_float htakes' with rfl | rfl
  · rfl
  · rw [huntaken _ (List.mem_of_find?_eq_some hname)] at htakes
    cases htakes

/-- A value for which a type is chosen that it can be turned into. -/
theorem stable_iff_of_takes (htarget : schema.target value = some name)
    (htakes : takes name value = true)
    (hkept : ∀ candidates, schema.type = .anyOf candidates → ¬ Reverts candidates value)
    (hmembers : ∀ property value, (∃ key, schema.property? key = some property) →
      (coerceToolArgWithSchema property (coerceToolArgWithSchema property value)
        = coerceToolArgWithSchema property value ↔ Stable property value))
    (helements : ∀ item value, schema.items = some item →
      (coerceToolArgWithSchema item (coerceToolArgWithSchema item value)
        = coerceToolArgWithSchema item value ↔ Stable item value)) :
    coerceToolArgWithSchema schema (coerceToolArgWithSchema schema value)
      = coerceToolArgWithSchema schema value ↔ Stable schema value := by
  rw [coerce_of_takes htarget htakes]
  have hturned := matches_turn htakes
  -- the second coercion only goes inside once more
  have hagain : coerceToolArgWithSchema schema (schema.descend (turn name value))
      = schema.descend (schema.descend (turn name value)) := by
    obtain ⟨name', htarget', hmatches'⟩ : ∃ name',
        schema.target (schema.descend (turn name value)) = some name'
          ∧ jsonTypeMatches (schema.descend (turn name value)) name' = true := by
      unfold Schema.target at htarget ⊢
      split at htarget
      · cases htarget
      · obtain rfl := Option.some.inj htarget
        exact ⟨_, rfl, (matches_descend).trans hturned⟩
      · rename_i candidates htype
        have htakes' : takes name (schema.descend (turn name value)) = true :=
          (takes_descend).trans (takes_of_matches hturned)
        have hsome : (choose candidates (schema.descend (turn name value))).isSome :=
          List.find?_isSome.mpr ⟨name, List.mem_of_find?_eq_some htarget, htakes'⟩
        obtain ⟨name', hchoose⟩ := Option.isSome_iff_exists.mp hsome
        exact ⟨name', hchoose, matches_choose htarget (hkept candidates htype) hchoose⟩
    rw [coerce_of_takes htarget' (takes_of_matches hmatches'), turn_of_matches hmatches']
  rw [hagain, descend_twice_iff]
  have hobject : (name = .object → ∀ read, parsed value = some read → ∀ item ∈ read.members,
        ∀ property, schema.property? item.1 = some property → Stable property item.2)
      ↔ ∀ item ∈ (turn name value).members,
        ∀ property, schema.property? item.1 = some property → Stable property item.2 :=
    forall_inside_turn (.inl rfl) (fun _ => members_eq_nil) htakes
  have harray : (name = .array → ∀ read, parsed value = some read → ∀ x ∈ read.elements,
        ∀ item, schema.items = some item → Stable item x)
      ↔ ∀ x ∈ (turn name value).elements, ∀ item, schema.items = some item → Stable item x :=
    forall_inside_turn (.inr rfl) (fun _ => elements_eq_nil) htakes
  constructor
  · intro h
    refine .mk hkept (fun hname => ?_) fun hname => ?_
    · refine hobject.mpr (fun item hmem property hproperty => ?_)
        (Option.some.inj (htarget.symm.trans hname))
      exact (hmembers property item.2 ⟨item.1, hproperty⟩).mp (h.1 item hmem property hproperty)
    · refine harray.mpr (fun x hx item hitem => ?_) (Option.some.inj (htarget.symm.trans hname))
      exact (helements item x hitem).mp (h.2 x hx item hitem)
  · intro h
    obtain ⟨-, hmembers', helements'⟩ := h
    refine ⟨fun item hmem property hproperty => ?_, fun x hx item hitem => ?_⟩
    · have hall := hobject.mp fun hname => hmembers' (by rw [htarget, hname])
      exact (hmembers property item.2 ⟨item.1, hproperty⟩).mpr (hall item hmem property hproperty)
    · have hall := harray.mp fun hname => helements' (by rw [htarget, hname])
      exact (helements item x hitem).mpr (hall x hx item hitem)

/-- **What is coerced once stays exactly when it is stable.** -/
theorem idempotent_iff (schema : Schema) : ∀ value : Value,
    coerceToolArgWithSchema schema (coerceToolArgWithSchema schema value)
      = coerceToolArgWithSchema schema value ↔ Stable schema value := by
  induction schema using Schema.induction with
  | h schema ihproperty ihitem =>
    intro value
    by_cases hnone : ∀ name, schema.target value = some name → takes name value = false
    · -- nothing is done to the value, and nothing is asked of it
      rw [coerce_of_not_takes hnone, coerce_of_not_takes hnone]
      refine iff_of_true rfl (.mk (fun candidates htype hreverts => ?_) (fun hname read hread => ?_)
        fun hname read hread => ?_)
      · have hchoose := (choose_of_reverts hreverts).1
        have hnot := hnone .number (by rw [Schema.target, htype]; exact hchoose)
        rw [choose_takes hchoose] at hnot
        cases hnot
      · rw [inside_eq_nil (.inl rfl) (fun _ => members_eq_nil) (hnone _ hname) hread]
        exact fun item hmem => by cases hmem
      · rw [inside_eq_nil (.inr rfl) (fun _ => elements_eq_nil) (hnone _ hname) hread]
        exact fun x hx => by cases hx
    · obtain ⟨name, hname⟩ := not_forall.mp hnone
      obtain ⟨htarget, htakes⟩ := Classical.not_imp.mp hname
      rw [Bool.not_eq_false] at htakes
      by_cases hkept : ∀ candidates, schema.type = .anyOf candidates → ¬ Reverts candidates value
      · exact stable_iff_of_takes htarget htakes hkept
          (fun property value hkey => ihproperty hkey.choose property hkey.choose_spec value)
          fun item value hitem => ihitem item hitem value
      · obtain ⟨candidates, hkept⟩ := not_forall.mp hkept
        obtain ⟨htype, hreverts⟩ := Classical.not_imp.mp hkept
        rw [not_not] at hreverts
        -- a double the first time, an integer the second
        obtain ⟨hchoose, d, n, hfloat, hwhole, hagain⟩ := choose_of_reverts hreverts
        refine iff_of_false (fun h => ?_) fun h => ?_
        · have hfirst : coerceToolArgWithSchema schema value = .float d := by
            rw [coerce_anyOf htype, hchoose, Option.map_some, Option.getD_some, hfloat, descend_float]
          have hsecond : coerceToolArgWithSchema schema (.float d) = .int n := by
            rw [coerce_anyOf htype, hagain, Option.map_some, Option.getD_some]
            simp only [turn, coerceInteger, hwhole]
            rfl
          rw [hfirst, hsecond] at h
          cases h
        · obtain ⟨hkept', -, -⟩ := h
          exact hkept' candidates htype hreverts

/--
**When coercion respects the schema.** A value that conforms is unchanged, and what was coerced is
not changed by a second coercion, exactly when every list of types that a conforming value meets has
a type the value has as the first that it can be turned into, and no string that is met reverts.
-/
theorem respected_iff (schema : Schema) (value : Value) :
    ((Conforms schema value → coerceToolArgWithSchema schema value = value)
        ∧ coerceToolArgWithSchema schema (coerceToolArgWithSchema schema value)
          = coerceToolArgWithSchema schema value)
      ↔ (Conforms schema value → Direct schema value) ∧ Stable schema value :=
  and_congr (forall_congr' fun hconforms => unchanged_iff schema hconforms)
    (idempotent_iff schema value)

/-- An integer or a string. -/
def integerOrString : Schema := { type := .anyOf [some .integer, some .string] }

/-- The string is one the schema allows, and becomes an integer. -/
theorem not_forall_unchanged : ¬ ∀ (schema : Schema) (value : Value),
    (Conforms schema value → coerceToolArgWithSchema schema value = value)
      ∧ coerceToolArgWithSchema schema (coerceToolArgWithSchema schema value)
        = coerceToolArgWithSchema schema value := by
  intro h
  have hconforms : Conforms integerOrString (.str (Text.of "5")) :=
    .mk ⟨.string, by decide, rfl⟩ (fun item hmem => by cases hmem) fun x hx => by cases hx
  have hunchanged := (h integerOrString (.str (Text.of "5"))).1 hconforms
  have hchoose : choose [some .integer, some .string] (.str (Text.of "5")) = some .integer := by decide
  have hturn : turn .integer (.str (Text.of "5")) = .int 5 := by
    have hread : Numerals.readInteger (Text.of "5").strip = some 5 := by decide
    simp only [turn, coerceInteger, hread]
  rw [coerce_anyOf rfl, hchoose, Option.map_some, Option.getD_some, hturn] at hunchanged
  cases hunchanged

end Exo.Parsers
