import Skiff.Compiler.TypeRef

/-!
# Assignability of types

`type_assignable` of the type resolution model (`compiler/source/src/type_resolution_model.rs`).
Assignability is reflexive, and a union is assigned by its members. It is not transitive: a record
may leave fields out on its way, and `Json` looks at the fields that are left. Where no record
reaches a `Json` with a field that `Json` would not take, two assignments make one.
-/

namespace Skiff.Compiler

open BuiltinShape TypeRefIr List

variable {fields : List (String × TypeRefIr)} {name : String} {item : TypeRefIr}

namespace TypeRefIr

def isUnion : TypeRefIr → Bool
  | .union _ => true
  | _ => false

/-- The type of a field of a record. -/
def fieldType (fields : List (String × TypeRefIr)) (name : String) : Option TypeRefIr :=
  (fields.find? (·.1 = name)).map (·.2)

theorem mem_of_fieldType {ty : TypeRefIr}
    (h : fieldType fields name = some ty) : (name, ty) ∈ fields := by
  rw [fieldType, Option.map_eq_some_iff] at h
  obtain ⟨field, hfind, rfl⟩ := h
  have hname : field.1 = name := by simpa using find?_some hfind
  rw [← hname]
  exact mem_of_find?_eq_some hfind

theorem sizeOf_fieldType {ty : TypeRefIr}
    (h : (name, ty) ∈ fields) : sizeOf ty < sizeOf (record fields) := by
  have hlt := sizeOf_lt_of_mem h
  rw [Prod.mk.sizeOf_spec] at hlt
  rw [record.sizeOf_spec]
  omega

theorem sizeOf_item {items : List TypeRefIr} (h : item ∈ items) :
    sizeOf item < sizeOf (union items) := by
  have hlt := sizeOf_lt_of_mem h
  rw [union.sizeOf_spec]
  omega

end TypeRefIr

open TypeRefIr (fieldType)

/-! ## The checks -/

def literalAssignableTo : TypeRefIr → TypeRefIr → Bool
  | .literal (.string _), .builtin name _ => name == string.name
  | .literal .null, .builtin name _ => name == BuiltinShape.null.name
  | _, _ => false

/-- The builtins without arguments of their own that `Json` takes. -/
def isJsonBuiltin (name : String) : Bool :=
  match ofName name with
  | some .string => true
  | some .integer => true
  | some .number => true
  | some .bool => true
  | some .null => true
  | some .json => true
  | some .jsonObject => true
  | _ => false

def jsonAssignable : TypeRefIr → Bool
  | .builtin name args =>
    isJsonBuiltin name ||
      match args with
      | [item] => name == array.name && jsonAssignable item
      | [_, value] => name == map.name && jsonAssignable value
      | _ => false
  | .literal _ => true
  | .record fields => fields.attach.all fun field => jsonAssignable field.1.2
  | .nullable inner => jsonAssignable inner
  | .union items => items.attach.all fun item => jsonAssignable item.1
  | _ => false
termination_by ty => sizeOf ty
decreasing_by
  · simp +arith
  · simp +arith
  · exact sizeOf_fieldType field.2
  · simp +arith
  · exact sizeOf_item item.2

def jsonObjectAssignable : TypeRefIr → Bool
  | .builtin name _ => name == jsonObject.name
  | .record fields => fields.all fun field => jsonAssignable field.2
  | _ => false

/-- What a builtin takes beside itself and the literals of its own. -/
def builtinAssignable (name : String) (actual : TypeRefIr) : Bool :=
  if name = unknown.name then true
  else if name = void.name then isNullType actual
  else if name = stream.name then isNullType actual
  else if name = json.name then jsonAssignable actual
  else if name = jsonObject.name then jsonObjectAssignable actual
  else if name = number.name then
    match actual with
    | .builtin name _ => name == integer.name
    | _ => false
  else false

def typeAssignable (actual expected : TypeRefIr) : Bool :=
  if actual = expected then true
  else if literalAssignableTo actual expected then true
  else
    match actual, expected with
    | .union items, expected => items.attach.all fun item => typeAssignable item.1 expected
    | actual, .builtin name _ => builtinAssignable name actual
    | actual, .nullable inner => isNullType actual || typeAssignable actual inner
    | actual, .union items => items.attach.any fun item => typeAssignable actual item.1
    | .record actualFields, .record expectedFields =>
      expectedFields.attach.all fun field =>
        match _hfield : fieldType actualFields field.1.1 with
        | some actualTy => typeAssignable actualTy field.1.2
        | none => false
    | _, _ => false
termination_by sizeOf actual + sizeOf expected
decreasing_by
  · have hlt := sizeOf_item item.2
    omega
  · simp +arith
  · have hlt := sizeOf_item item.2
    omega
  have hactual := sizeOf_fieldType (mem_of_fieldType _hfield)
  have hexpected := sizeOf_fieldType field.2
  exact Nat.add_lt_add hactual hexpected

/-! ## Equations -/

theorem jsonAssignable_builtin {args : List TypeRefIr} :
    jsonAssignable (.builtin name args) = true ↔ isJsonBuiltin name = true ∨
      (name = array.name ∧ ∃ item, args = [item] ∧ jsonAssignable item = true) ∨
      name = map.name ∧ ∃ key value, args = [key, value] ∧ jsonAssignable value = true := by
  rw [jsonAssignable.eq_def]
  cases args with
  | nil => simp
  | cons first rest =>
    cases rest with
    | nil => simp
    | cons second rest => cases rest <;> simp

theorem jsonAssignable_record :
    jsonAssignable (.record fields) = true ↔ ∀ field ∈ fields, jsonAssignable field.2 = true := by
  rw [jsonAssignable, all_eq_true]
  simp

theorem jsonAssignable_union {items : List TypeRefIr} :
    jsonAssignable (.union items) = true ↔ ∀ item ∈ items, jsonAssignable item = true := by
  rw [jsonAssignable, all_eq_true]
  simp

section

variable {actual expected : TypeRefIr} {name : String} {args items : List TypeRefIr}
  {fields : List (String × TypeRefIr)}

@[simp] theorem typeAssignable_refl (ty : TypeRefIr) : typeAssignable ty ty = true := by
  rw [typeAssignable.eq_def, if_pos rfl]

theorem typeAssignable_union (hne : .union items ≠ expected) :
    typeAssignable (.union items) expected = true ↔
      ∀ item ∈ items, typeAssignable item expected = true := by
  rw [typeAssignable.eq_def, if_neg hne, if_neg (by simp [literalAssignableTo]), all_eq_true]
  simp

theorem typeAssignable_builtin (hunion : actual.isUnion = false)
    (hne : actual ≠ .builtin name args) :
    typeAssignable actual (.builtin name args) = true ↔
      literalAssignableTo actual (.builtin name args) = true ∨
        builtinAssignable name actual = true := by
  rw [typeAssignable.eq_def, if_neg hne]
  cases hliteral : literalAssignableTo actual (.builtin name args) with
  | true => simp
  | false => cases actual <;> simp_all [isUnion]

theorem literalAssignableTo_other (h : ∀ name args, expected ≠ .builtin name args) :
    literalAssignableTo actual expected = false := by
  unfold literalAssignableTo
  split
  · exact absurd rfl (h _ _)
  · exact absurd rfl (h _ _)
  · rfl

variable {inner : TypeRefIr}

theorem typeAssignable_nullable (hunion : actual.isUnion = false) (hne : actual ≠ .nullable inner) :
    typeAssignable actual (.nullable inner) = true ↔
      isNullType actual = true ∨ typeAssignable actual inner = true := by
  rw [typeAssignable.eq_def, if_neg hne, literalAssignableTo_other (by rintro _ _ ⟨⟩)]
  cases actual <;> simp_all [isUnion]

theorem typeAssignable_branch (hunion : actual.isUnion = false) :
    typeAssignable actual (.union items) = true ↔
      ∃ item ∈ items, typeAssignable actual item = true := by
  have hne : actual ≠ .union items := by
    rintro rfl
    cases hunion
  rw [typeAssignable.eq_def, if_neg hne, literalAssignableTo_other (by rintro _ _ ⟨⟩)]
  cases actual <;> simp_all [isUnion]

variable {actualFields : List (String × TypeRefIr)}

theorem typeAssignable_record :
    typeAssignable (.record actualFields) (.record fields) = true ↔
      actualFields = fields ∨ ∀ field ∈ fields, ∃ ty, fieldType actualFields field.1 = some ty ∧
        typeAssignable ty field.2 = true := by
  rw [typeAssignable.eq_def, literalAssignableTo_other (by rintro _ _ ⟨⟩)]
  by_cases heq : actualFields = fields
  · simp [heq]
  simp only [record.injEq, heq, Bool.false_eq_true, if_false, false_or, all_eq_true]
  constructor
  · intro h field hfield
    have hone := h ⟨field, hfield⟩ (mem_attach _ _)
    split at hone
    case h_1 ty hty => exact ⟨ty, hty, hone⟩
    case h_2 => cases hone
  rintro h ⟨field, hfield⟩ -
  obtain ⟨ty, hty, hassign⟩ := h field hfield
  split
  case h_1 other hother =>
    obtain rfl := Option.some.inj (hother.symm.trans hty)
    exact hassign
  case h_2 hnone =>
    rw [hty] at hnone
    cases hnone

theorem eq_of_typeAssignable (hunion : actual.isUnion = false)
    (h : typeAssignable actual expected = true) :
    actual = expected ∨ (∃ name args, expected = .builtin name args) ∨
      (∃ inner, expected = .nullable inner) ∨ (∃ items, expected = .union items) ∨
      ∃ actualFields fields, actual = .record actualFields ∧ expected = .record fields := by
  by_cases heq : actual = expected
  · exact .inl heq
  rw [typeAssignable.eq_def, if_neg heq] at h
  cases expected with
  | builtin name args => exact .inr (.inl ⟨name, args, rfl⟩)
  | nullable inner => exact .inr (.inr (.inl ⟨inner, rfl⟩))
  | union items => exact .inr (.inr (.inr (.inl ⟨items, rfl⟩)))
  | record fields => cases actual <;> simp_all [isUnion, literalAssignableTo]
  | _ => cases actual <;> simp_all [isUnion, literalAssignableTo]

/-! ## What a builtin takes -/

theorem builtinAssignable_cases (h : builtinAssignable name actual = true) :
    name = unknown.name ∨
    ((name = void.name ∨ name = stream.name) ∧ isNullType actual = true) ∨
    (name = json.name ∧ jsonAssignable actual = true) ∨
    (name = jsonObject.name ∧ jsonObjectAssignable actual = true) ∨
    (name = number.name ∧ ∃ args, actual = .builtin integer.name args) := by
  unfold builtinAssignable at h
  split at h
  case isTrue hname => exact .inl hname
  split at h
  case isTrue hname => exact .inr (.inl ⟨.inl hname, h⟩)
  split at h
  case isTrue hname => exact .inr (.inl ⟨.inr hname, h⟩)
  split at h
  case isTrue hname => exact .inr (.inr (.inl ⟨hname, h⟩))
  split at h
  case isTrue hname => exact .inr (.inr (.inr (.inl ⟨hname, h⟩)))
  split at h
  case isTrue hname =>
    refine .inr (.inr (.inr (.inr ⟨hname, ?_⟩)))
    cases actual <;> simp_all
  case isFalse => cases h

theorem builtinAssignable_unknown : builtinAssignable unknown.name actual = true := by
  rw [builtinAssignable.eq_def, if_pos rfl]

theorem builtinAssignable_null (hname : name = void.name ∨
    name = stream.name) (h : isNullType actual = true) :
    builtinAssignable name actual = true := by
  obtain rfl | rfl := hname <;> simpa [builtinAssignable, BuiltinShape.name] using h

theorem builtinAssignable_json (h : jsonAssignable actual = true) :
    builtinAssignable json.name actual = true := by
  simpa [builtinAssignable, BuiltinShape.name] using h

theorem builtinAssignable_jsonObject (h : jsonObjectAssignable actual = true) :
    builtinAssignable jsonObject.name actual = true := by
  simpa [builtinAssignable, BuiltinShape.name] using h

theorem typeAssignable_of_builtin (hunion : actual.isUnion = false)
    (h : builtinAssignable name actual = true) :
    typeAssignable actual (.builtin name args) = true := by
  by_cases heq : actual = .builtin name args
  · rw [heq, typeAssignable_refl]
  · exact (typeAssignable_builtin hunion heq).mpr (.inr h)

theorem isNullType_of_typeAssignable (hunion : actual.isUnion = false)
    (hnull : isNullType (.builtin name args) = true)
    (h : typeAssignable actual (.builtin name args) = true) : isNullType actual = true := by
  have hname : name = BuiltinShape.null.name := by
    simpa [isNullType, BuiltinShape.name] using hnull
  by_cases heq : actual = .builtin name args
  · rw [heq, hnull]
  obtain hliteral | hrule := (typeAssignable_builtin hunion heq).mp h
  · subst hname
    unfold literalAssignableTo at hliteral
    split at hliteral
    case h_1 hexpected =>
      cases hexpected
      simp [BuiltinShape.name] at hliteral
    case h_2 => rfl
    case h_3 => cases hliteral
  subst hname
  simp [builtinAssignable, BuiltinShape.name] at hrule

theorem jsonAssignable_of_null (h : isNullType actual = true) : jsonAssignable actual = true := by
  unfold isNullType at h
  split at h
  · rename_i name args
    obtain rfl : name = BuiltinShape.null.name := by simpa [BuiltinShape.name] using h
    rw [jsonAssignable_builtin]
    exact .inl rfl
  · rw [jsonAssignable]
  · cases h

theorem jsonAssignable_of_jsonObject (h : jsonObjectAssignable actual = true) :
    jsonAssignable actual = true := by
  unfold jsonObjectAssignable at h
  split at h
  · rename_i name args
    obtain rfl : name = jsonObject.name := by simpa using h
    rw [jsonAssignable_builtin]
    exact .inl rfl
  · rw [jsonAssignable_record]
    simpa using h
  · cases h

theorem typeAssignable_json {ty : TypeRefIr} (h : jsonAssignable ty = true) :
    typeAssignable ty (.builtin json.name args) = true := by
  match hty : ty with
  | .union items =>
    rw [typeAssignable_union (by rintro ⟨⟩)]
    intro item hitem
    have hlt := sizeOf_item hitem
    exact typeAssignable_json (jsonAssignable_union.mp h item hitem)
  | .builtin .. | .localType .. | .publicationType .. | .serviceSymbol .. | .packageSymbol ..
  | .packageSchema .. | .appliedNominal .. | .dbObjectSymbol .. | .record .. | .nullable ..
  | .literal .. | .typeParam .. | .anyInterface .. | .function .. =>
    exact typeAssignable_of_builtin rfl (builtinAssignable_json h)
termination_by sizeOf ty

/-! ## Two assignments -/

/-- A record of the actual type has a field that is not JSON, where the expected type has `Json`
or `JsonObject`. -/
inductive Escapes : TypeRefIr → TypeRefIr → Prop
  | json {fields : List (String × TypeRefIr)} {field : String × TypeRefIr} {name : String}
      {args : List TypeRefIr}
      (isJson : name = json.name ∨ name = jsonObject.name)
      (mem : field ∈ fields) (other : jsonAssignable field.2 = false) :
      Escapes (.record fields) (.builtin name args)
  | member {items : List TypeRefIr} {item expected : TypeRefIr} (mem : item ∈ items)
      (escapes : Escapes item expected) : Escapes (.union items) expected
  | field {actualFields fields : List (String × TypeRefIr)} {field : String × TypeRefIr}
      {ty : TypeRefIr} (mem : field ∈ fields) (found : fieldType actualFields field.1 = some ty)
      (escapes : Escapes ty field.2) : Escapes (.record actualFields) (.record fields)
  | nullable {actual inner : TypeRefIr} (escapes : Escapes actual inner) :
      Escapes actual (.nullable inner)
  | branch {actual item : TypeRefIr} {items : List TypeRefIr} (mem : item ∈ items)
      (escapes : Escapes actual item) : Escapes actual (.union items)

/-- Assigned, but for a record that escapes. -/
def AssignsOrEscapes (actual expected : TypeRefIr) : Prop :=
  typeAssignable actual expected = true ∨ Escapes actual expected

theorem AssignsOrEscapes.union (h : ∀ item ∈ items, AssignsOrEscapes item expected) :
    AssignsOrEscapes (.union items) expected := by
  by_cases heq : .union items = expected
  · rw [← heq]
    exact .inl (typeAssignable_refl _)
  by_cases hall : ∀ item ∈ items, typeAssignable item expected = true
  · exact .inl ((typeAssignable_union heq).mpr hall)
  push Not at hall
  obtain ⟨item, hitem, hnot⟩ := hall
  exact .inr (.member hitem ((h item hitem).resolve_left hnot))

theorem AssignsOrEscapes.nullable (hunion : actual.isUnion = false)
    (h : AssignsOrEscapes actual inner) : AssignsOrEscapes actual (.nullable inner) := by
  by_cases heq : actual = .nullable inner
  · rw [heq]
    exact .inl (typeAssignable_refl _)
  obtain h | h := h
  · exact .inl ((typeAssignable_nullable hunion heq).mpr (.inr h))
  · exact .inr (.nullable h)

theorem AssignsOrEscapes.branch (hunion : actual.isUnion = false)
    (hitem : item ∈ items) (h : AssignsOrEscapes actual item) :
    AssignsOrEscapes actual (.union items) := by
  obtain h | h := h
  · exact .inl ((typeAssignable_branch hunion).mpr ⟨item, hitem, h⟩)
  · exact .inr (.branch hitem h)

theorem AssignsOrEscapes.record
    (h : ∀ field ∈ fields, ∃ ty, fieldType actualFields field.1 = some ty ∧
      AssignsOrEscapes ty field.2) : AssignsOrEscapes (.record actualFields) (.record fields) := by
  by_cases hall : ∀ field ∈ fields, ∃ ty, fieldType actualFields field.1 = some ty ∧
      typeAssignable ty field.2 = true
  · exact .inl (typeAssignable_record.mpr (.inr hall))
  push Not at hall
  obtain ⟨field, hfield, hnot⟩ := hall
  obtain ⟨ty, hty, hassigns⟩ := h field hfield
  exact .inr (.field hfield hty (hassigns.resolve_left (hnot ty hty)))

theorem AssignsOrEscapes.json (hname : name = json.name ∨
    name = jsonObject.name) :
    AssignsOrEscapes (.record fields) (.builtin name args) := by
  by_cases hall : ∀ field ∈ fields, jsonAssignable field.2 = true
  · left
    obtain rfl | rfl := hname
    · exact typeAssignable_of_builtin rfl (builtinAssignable_json (jsonAssignable_record.mpr hall))
    refine typeAssignable_of_builtin rfl (builtinAssignable_jsonObject ?_)
    rw [jsonObjectAssignable, all_eq_true]
    exact hall
  push Not at hall
  obtain ⟨field, hfield, hnot⟩ := hall
  exact .inr (.json hname hfield (by simpa using hnot))

theorem literalAssignableTo_name {args : List TypeRefIr}
    (h : literalAssignableTo actual (.builtin name args) = true) :
    jsonAssignable actual = true ∧ (name = string.name ∨ name = BuiltinShape.null.name) := by
  unfold literalAssignableTo at h
  split at h
  case h_1 hexpected =>
    cases hexpected
    exact ⟨by rw [jsonAssignable], .inl (by simpa using h)⟩
  case h_2 hexpected =>
    cases hexpected
    exact ⟨by rw [jsonAssignable], .inr (by simpa using h)⟩
  case h_3 => cases h

theorem jsonAssignable_trans {middle : String} {margs : List TypeRefIr}
    (hrule : builtinAssignable middle actual = true)
    (hjson : jsonAssignable (.builtin middle margs) = true) : jsonAssignable actual = true := by
  obtain rfl | ⟨-, hnull⟩ | ⟨-, h⟩ | ⟨-, h⟩ | ⟨-, args, rfl⟩ := builtinAssignable_cases hrule
  · -- `unknown` is no JSON type
    rw [jsonAssignable_builtin] at hjson
    obtain hjson | ⟨hjson, -⟩ | ⟨hjson, -⟩ := hjson
    · cases hjson
    · exact absurd (name_injective hjson) (by rintro ⟨⟩)
    · exact absurd (name_injective hjson) (by rintro ⟨⟩)
  · exact jsonAssignable_of_null hnull
  · exact h
  · exact jsonAssignable_of_jsonObject h
  rw [jsonAssignable_builtin]
  exact .inl rfl

theorem typeAssignable_builtin_trans {middle : String} {margs : List TypeRefIr}
    (hunion : actual.isUnion = false)
    (hfirst : typeAssignable actual (.builtin middle margs) = true)
    (hsecond : builtinAssignable name (.builtin middle margs) = true) :
    typeAssignable actual (.builtin name args) = true := by
  by_cases heq : actual = .builtin middle margs
  · rw [heq]
    exact typeAssignable_of_builtin rfl hsecond
  have hrule := (typeAssignable_builtin hunion heq).mp hfirst
  apply typeAssignable_of_builtin hunion
  obtain rfl | ⟨hname, hnull⟩ | ⟨rfl, hjson⟩ | ⟨rfl, hjson⟩ | ⟨rfl, margs', hinteger⟩ :=
    builtinAssignable_cases hsecond
  · exact builtinAssignable_unknown
  · exact builtinAssignable_null hname (isNullType_of_typeAssignable hunion hnull hfirst)
  · apply builtinAssignable_json
    obtain hliteral | hrule := hrule
    · exact (literalAssignableTo_name hliteral).1
    · exact jsonAssignable_trans hrule hjson
  · apply builtinAssignable_jsonObject
    obtain rfl : middle = jsonObject.name := by
      simpa [jsonObjectAssignable] using hjson
    obtain hliteral | hrule := hrule
    · obtain ⟨-, hname | hname⟩ := literalAssignableTo_name hliteral <;>
        exact absurd (name_injective hname) (by rintro ⟨⟩)
    · simpa [builtinAssignable, BuiltinShape.name] using hrule
  -- nothing but `integer` goes to `integer`
  cases hinteger
  obtain hliteral | hrule := hrule
  · obtain ⟨-, hname | hname⟩ := literalAssignableTo_name hliteral <;>
      exact absurd (name_injective hname) (by rintro ⟨⟩)
  · simp [builtinAssignable, BuiltinShape.name] at hrule

section

variable (hunion : actual.isUnion = false)
variable (hunion' : expected.isUnion = false)
variable (hne : actual ≠ expected)
variable (h : typeAssignable actual expected = true)
include hunion hunion' hne h

/-- What takes another type than itself, beside a union. -/
theorem shape_of_typeAssignable :
    (∃ name args, expected = .builtin name args) ∨ (∃ inner, expected = .nullable inner) ∨
      ∃ actualFields fields, actual = .record actualFields ∧ expected = .record fields := by
  obtain heq | hbuiltin | hnullable | ⟨items, rfl⟩ | hrecord := eq_of_typeAssignable hunion h
  · exact absurd heq hne
  · exact .inl hbuiltin
  · exact .inr (.inl hnullable)
  · cases hunion'
  · exact .inr (.inr hrecord)

theorem isNullType_trans (hnull : isNullType expected = true) : isNullType actual = true := by
  obtain ⟨name, args, rfl⟩ | ⟨inner, rfl⟩ | ⟨actualFields, fields, -, rfl⟩ :=
    shape_of_typeAssignable hunion hunion' hne h
  · exact isNullType_of_typeAssignable hunion hnull h
  · cases hnull
  · cases hnull

end

theorem builtinAssignable_record (h : builtinAssignable name (.record fields) = true) :
    name = unknown.name ∨ name = json.name ∨ name = jsonObject.name := by
  obtain hname | ⟨-, hnull⟩ | ⟨hname, -⟩ | ⟨hname, -⟩ | ⟨-, margs, hinteger⟩ :=
    builtinAssignable_cases h
  · exact .inl hname
  · cases hnull
  · exact .inr (.inl hname)
  · exact .inr (.inr hname)
  · cases hinteger

theorem builtinAssignable_nullable (h : builtinAssignable name (.nullable inner) = true) :
    name = unknown.name ∨ name = json.name ∧ jsonAssignable inner = true := by
  obtain hname | ⟨-, hnull⟩ | ⟨hname, hjson⟩ | ⟨-, hobject⟩ | ⟨-, margs, hinteger⟩ :=
    builtinAssignable_cases h
  · exact .inl hname
  · cases hnull
  · exact .inr ⟨hname, by rwa [jsonAssignable] at hjson⟩
  · cases hobject
  · cases hinteger

/-- Two assignments are one, or a record escapes on the way. -/
theorem typeAssignable_trans {first middle last : TypeRefIr}
    (hfirst : typeAssignable first middle = true) (hlast : typeAssignable middle last = true) :
    AssignsOrEscapes first last := by
  by_cases hne : first = middle
  · rw [hne]
    exact .inl hlast
  by_cases hne' : middle = last
  · rw [← hne']
    exact .inl hfirst
  by_cases hunion : first.isUnion = true
  · obtain ⟨items, rfl⟩ : ∃ items, first = .union items := by
      cases first <;> simp_all [isUnion]
    refine .union fun item hitem => ?_
    have hlt := sizeOf_item hitem
    exact typeAssignable_trans ((typeAssignable_union hne).mp hfirst item hitem) hlast
  rw [Bool.not_eq_true] at hunion
  by_cases hmiddle : middle.isUnion = true
  · obtain ⟨items, rfl⟩ : ∃ items, middle = .union items := by
      cases middle <;> simp_all [isUnion]
    obtain ⟨item, hitem, hitem'⟩ := (typeAssignable_branch hunion).mp hfirst
    have hlt := sizeOf_item hitem
    exact typeAssignable_trans hitem' ((typeAssignable_union hne').mp hlast item hitem)
  rw [Bool.not_eq_true] at hmiddle
  have hshape := shape_of_typeAssignable hunion hmiddle hne hfirst
  obtain heq | ⟨name, args, rfl⟩ | ⟨inner, rfl⟩ | ⟨items, rfl⟩ | ⟨middleFields, fields, rfl, rfl⟩ :=
    eq_of_typeAssignable hmiddle hlast
  · exact absurd heq hne'
  · -- `last` is a builtin
    have hrule : builtinAssignable name middle = true := by
      refine ((typeAssignable_builtin hmiddle hne').mp hlast).resolve_left fun hliteral => ?_
      obtain ⟨_, _, rfl⟩ | ⟨_, rfl⟩ | ⟨_, _, -, rfl⟩ := hshape <;> cases hliteral
    obtain ⟨middleName, margs, rfl⟩ | ⟨inner, rfl⟩ | ⟨actualFields, fields, rfl, rfl⟩ := hshape
    · exact .inl (typeAssignable_builtin_trans hunion hfirst hrule)
    · obtain rfl | ⟨rfl, hjson⟩ := builtinAssignable_nullable hrule
      · exact .inl (typeAssignable_of_builtin hunion builtinAssignable_unknown)
      obtain hnull | hinner := (typeAssignable_nullable hunion hne).mp hfirst
      · have hjson := jsonAssignable_of_null hnull
        exact .inl (typeAssignable_of_builtin hunion (builtinAssignable_json hjson))
      · exact typeAssignable_trans hinner (typeAssignable_json hjson)
    obtain rfl | hname := builtinAssignable_record hrule
    · exact .inl (typeAssignable_of_builtin hunion builtinAssignable_unknown)
    · exact .json hname
  · obtain hnull | hinner := (typeAssignable_nullable hmiddle hne').mp hlast
    · left
      have hnull' := isNullType_trans hunion hmiddle hne hfirst hnull
      by_cases heq : first = .nullable inner
      · rw [heq, typeAssignable_refl]
      · exact (typeAssignable_nullable hunion heq).mpr (.inl hnull')
    · exact (typeAssignable_trans hfirst hinner).nullable hunion
  · obtain ⟨item, hitem, hitem'⟩ := (typeAssignable_branch hmiddle).mp hlast
    have hlt := sizeOf_item hitem
    exact (typeAssignable_trans hfirst hitem').branch hunion hitem
  -- records, field by field
  obtain ⟨_, _, ⟨⟩⟩ | ⟨_, ⟨⟩⟩ | ⟨firstFields, -, rfl, -⟩ := hshape
  have hfields := (typeAssignable_record.mp hlast).resolve_left fun heq => hne' (by rw [heq])
  have hfields' := (typeAssignable_record.mp hfirst).resolve_left fun heq => hne (by rw [heq])
  refine .record fun field hfield => ?_
  obtain ⟨middleTy, hmiddleTy, hassign⟩ := hfields field hfield
  have hmem := mem_of_fieldType hmiddleTy
  obtain ⟨ty, hty, hassign'⟩ := hfields' (field.1, middleTy) hmem
  have hlt := sizeOf_fieldType hmem
  have hlt' := sizeOf_fieldType (mem_of_fieldType hty)
  have hlt'' := @sizeOf_fieldType fields field.1 field.2 hfield
  exact ⟨ty, hty, typeAssignable_trans hassign' hassign⟩
termination_by sizeOf first + sizeOf middle + sizeOf last

/-! ## Unions and nullables -/

/-- A type that takes what is no union from another type takes everything from it. -/
theorem typeAssignable_weaken {actual expected wider : TypeRefIr}
    (hwider : ∀ ty, ty.isUnion = false → typeAssignable ty expected = true →
      typeAssignable ty wider = true)
    (h : typeAssignable actual expected = true) : typeAssignable actual wider = true := by
  by_cases hunion : actual.isUnion = true
  · obtain ⟨items, rfl⟩ : ∃ items, actual = .union items := by
      cases actual <;> simp_all [isUnion]
    by_cases heq : .union items = wider
    · rw [heq, typeAssignable_refl]
    rw [typeAssignable_union heq]
    intro item hitem
    have hlt := sizeOf_item hitem
    by_cases heq' : .union items = expected
    · -- a member of the union goes to the union
      have hmember : typeAssignable item (.union items) = true := by
        refine typeAssignable_weaken (fun ty hty hassign => ?_) (typeAssignable_refl item)
        exact (typeAssignable_branch hty).mpr ⟨item, hitem, hassign⟩
      rw [heq'] at hmember
      exact typeAssignable_weaken hwider hmember
    · exact typeAssignable_weaken hwider ((typeAssignable_union heq').mp h item hitem)
  rw [Bool.not_eq_true] at hunion
  exact hwider actual hunion h
termination_by sizeOf actual

theorem typeAssignable_of_inner (h : typeAssignable actual inner = true) :
    typeAssignable actual (.nullable inner) = true := by
  refine typeAssignable_weaken (fun ty hty hassign => ?_) h
  by_cases heq : ty = .nullable inner
  · rw [heq, typeAssignable_refl]
  · exact (typeAssignable_nullable hty heq).mpr (.inr hassign)

theorem typeAssignable_of_branch (hitem : item ∈ items)
    (h : typeAssignable actual item = true) : typeAssignable actual (.union items) = true := by
  refine typeAssignable_weaken (fun ty hty hassign => ?_) h
  exact (typeAssignable_branch hty).mpr ⟨item, hitem, hassign⟩

theorem typeAssignable_union_iff :
    typeAssignable (.union items) expected = true ↔
      ∀ item ∈ items, typeAssignable item expected = true := by
  by_cases heq : .union items = expected
  · rw [← heq]
    refine ⟨fun _ item hitem => ?_, fun _ => typeAssignable_refl _⟩
    exact typeAssignable_of_branch hitem (typeAssignable_refl item)
  · exact typeAssignable_union heq

theorem typeAssignable_unknown (ty : TypeRefIr) :
    typeAssignable ty (.builtin unknown.name args) = true := by
  refine typeAssignable_weaken (fun ty hty _ => ?_) (typeAssignable_refl ty)
  exact typeAssignable_of_builtin hty builtinAssignable_unknown

theorem isUnion_of_isNullType (h : isNullType actual = true) : actual.isUnion = false := by
  cases actual <;> first | rfl | cases h

theorem typeAssignable_null (h : isNullType actual = true) :
    typeAssignable actual (.nullable inner) = true := by
  by_cases heq : actual = .nullable inner
  · rw [heq, typeAssignable_refl]
  · exact (typeAssignable_nullable (isUnion_of_isNullType h) heq).mpr (.inl h)

theorem typeAssignable_of_nullable {inner expected : TypeRefIr}
    (h : typeAssignable (.nullable inner) expected = true) :
    typeAssignable inner expected = true ∧
      ∀ null, isNullType null = true → typeAssignable null expected = true := by
  obtain rfl | ⟨name, args, rfl⟩ | ⟨other, rfl⟩ | ⟨items, rfl⟩ | ⟨_, _, ⟨⟩, -⟩ :=
    eq_of_typeAssignable rfl h
  · exact ⟨typeAssignable_of_inner (typeAssignable_refl inner), fun null => typeAssignable_null⟩
  · have hrule := ((typeAssignable_builtin rfl (by rintro ⟨⟩)).mp h).resolve_left (by rintro ⟨⟩)
    obtain rfl | ⟨rfl, hjson⟩ := builtinAssignable_nullable hrule
    · exact ⟨typeAssignable_unknown inner, fun null _ => typeAssignable_unknown null⟩
    exact ⟨typeAssignable_json hjson, fun null hnull =>
      typeAssignable_json (jsonAssignable_of_null hnull)⟩
  · by_cases heq : inner = other
    · rw [heq]
      exact ⟨typeAssignable_of_inner (typeAssignable_refl other), fun null => typeAssignable_null⟩
    have hne : nullable inner ≠ .nullable other := by simpa using heq
    have hother := ((typeAssignable_nullable rfl hne).mp h).resolve_left (by rintro ⟨⟩)
    obtain ⟨hinner, -⟩ := typeAssignable_of_nullable hother
    exact ⟨typeAssignable_of_inner hinner, fun null => typeAssignable_null⟩
  obtain ⟨item, hitem, hitem'⟩ := (typeAssignable_branch rfl).mp h
  have hlt := sizeOf_item hitem
  obtain ⟨hinner, hnull⟩ := typeAssignable_of_nullable hitem'
  exact ⟨typeAssignable_of_branch hitem hinner,
    fun null h => typeAssignable_of_branch hitem (hnull null h)⟩
termination_by sizeOf expected

theorem typeAssignable_emptyRecord : typeAssignable (.record fields) (.record []) = true :=
  typeAssignable_record.mpr (.inr (forall_mem_nil _))

theorem jsonAssignable_of_typeAssignable
    (h : typeAssignable (.record fields) (.builtin json.name args) = true) :
    jsonAssignable (.record fields) = true := by
  have hrule := ((typeAssignable_builtin rfl (by rintro ⟨⟩)).mp h).resolve_left (by rintro ⟨⟩)
  simpa [builtinAssignable, BuiltinShape.name] using hrule

end

/-! ## The laws -/

/-- Assignability is reflexive, and transitive but for the records that escape. Any record with a
field that is not JSON does escape, by way of the empty record. A union goes where its members go,
and where a nullable goes its inner type goes, and null. -/
theorem typeAssignable_laws :
    (∀ ty, typeAssignable ty ty = true) ∧
    (∀ first middle last, typeAssignable first middle = true → typeAssignable middle last = true →
      ¬ Escapes first last → typeAssignable first last = true) ∧
    (∀ fields args, jsonAssignable (.record fields) = false →
      typeAssignable (.record fields) (.record []) = true ∧
      typeAssignable (.record []) (.builtin json.name args) = true ∧
      typeAssignable (.record fields) (.builtin json.name args) = false) ∧
    (∀ items expected, typeAssignable (.union items) expected = true ↔
      ∀ item ∈ items, typeAssignable item expected = true) ∧
    ∀ inner expected, typeAssignable (.nullable inner) expected = true →
      typeAssignable inner expected = true ∧
        ∀ null, isNullType null = true → typeAssignable null expected = true := by
  refine ⟨typeAssignable_refl, ?_, ?_, fun _ _ => typeAssignable_union_iff,
    fun _ _ => typeAssignable_of_nullable⟩
  · intro first middle last hfirst hlast hescapes
    exact (typeAssignable_trans hfirst hlast).resolve_right hescapes
  intro fields args hjson
  refine ⟨typeAssignable_emptyRecord, typeAssignable_json ?_, ?_⟩
  · exact jsonAssignable_record.mpr (forall_mem_nil _)
  · rw [← Bool.not_eq_true]
    intro h
    rw [jsonAssignable_of_typeAssignable h] at hjson
    cases hjson

/-- A string literal goes to `Json`, by way of `string`. -/
theorem typeAssignable_laws_literal :
    typeAssignable (.literal (.string "a")) (.builtin "Json" []) = true := by
  have hfirst : typeAssignable (.literal (.string "a")) (.builtin "string" []) = true :=
    (typeAssignable_builtin rfl (by rintro ⟨⟩)).mpr (.inl rfl)
  have hlast : typeAssignable (.builtin "string" []) (.builtin "Json" []) = true :=
    typeAssignable_json (jsonAssignable_builtin.mpr (.inl rfl))
  exact typeAssignable_laws.2.1 _ _ _ hfirst hlast (by rintro ⟨⟩)

/-- A record that holds a stream is a record without fields, and that is JSON. And `integer?` does
not go to `number?`, although `integer` and null do. -/
theorem typeAssignable_not_preorder :
    (¬ ∀ first middle last, typeAssignable first middle = true →
      typeAssignable middle last = true → typeAssignable first last = true) ∧
    ¬ ∀ inner expected, typeAssignable (.nullable inner) expected = true ↔
      typeAssignable inner expected = true ∧
        typeAssignable (.builtin "null" []) expected = true := by
  refine ⟨fun h => ?_, fun h => ?_⟩
  · have hjson := h (.record [("events", .builtin "Stream" [])]) (.record [])
      (.builtin json.name []) typeAssignable_emptyRecord
      (typeAssignable_json (jsonAssignable_record.mpr (forall_mem_nil _)))
    have hstream := jsonAssignable_record.mp (jsonAssignable_of_typeAssignable hjson) _
      (mem_singleton_self _)
    simp [jsonAssignable_builtin, isJsonBuiltin, ofName, BuiltinShape.name] at hstream
  have hinteger : typeAssignable (.builtin "integer" []) (.builtin "number" []) = true :=
    typeAssignable_of_builtin rfl rfl
  have hnullable := (h (.builtin "integer" []) (.nullable (.builtin "number" []))).mpr
    ⟨typeAssignable_of_inner hinteger, typeAssignable_null rfl⟩
  have hinner := ((typeAssignable_nullable rfl (by simp)).mp hnullable).resolve_left (by rintro ⟨⟩)
  have hrule := ((typeAssignable_builtin rfl (by rintro ⟨⟩)).mp hinner).resolve_left (by rintro ⟨⟩)
  simp [builtinAssignable, BuiltinShape.name] at hrule

end Skiff.Compiler
