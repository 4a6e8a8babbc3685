import Mathlib.Data.String.Basic
import Mathlib.Data.Rat.Defs

/-!
# Type references

The type references of the compiler (`artifact-model/src/types.rs`) and the builtin names that its
type models know (`compiler/core/src/type_ref.rs`). The fields of a record are listed by name, as
the source's ordered map has them.
-/

namespace Skiff.Compiler

/-- The number of a literal. Floats are compared by value. -/
inductive JsonNumber where
  | posInt (value : Nat)
  | negInt (value : Int)
  | float (value : Rat)
deriving DecidableEq

inductive LiteralIr where
  | null
  | bool (value : Bool)
  | number (value : JsonNumber)
  | string (value : String)
deriving DecidableEq

structure ServiceSymbolRef where
  modulePath : String
  symbol : String
deriving DecidableEq

def ServiceSymbolRef.symbolPath (ref : ServiceSymbolRef) : String :=
  ref.modulePath ++ "." ++ ref.symbol

inductive PackageRefIr where
  | packageId (packageId : String)
  | dependency (dependencyRef : String)
deriving DecidableEq

structure PackageSymbolRef where
  package : PackageRefIr
  symbolPath : String
  abiExpectation : Option String
deriving DecidableEq

inductive NominalTypeRefBaseIr where
  | localType (typeIndex : Nat)
  | publicationType (modulePath : String) (typeIndex : Nat)
  | serviceSymbol (symbol : ServiceSymbolRef)
  | packageSymbol (symbol : PackageSymbolRef)
  | packageSchema (packageId stableSchemaKey packageSchemaTypeId : String)
deriving DecidableEq

inductive TypeRefIr where
  | builtin (name : String) (args : List TypeRefIr)
  | localType (typeIndex : Nat)
  | publicationType (modulePath : String) (typeIndex : Nat)
  | serviceSymbol (symbol : ServiceSymbolRef)
  | packageSymbol (symbol : PackageSymbolRef)
  | packageSchema (packageId stableSchemaKey packageSchemaTypeId : String)
  | appliedNominal (base : NominalTypeRefBaseIr) (arguments : List TypeRefIr)
  | dbObjectSymbol (symbol : ServiceSymbolRef)
  | record (fields : List (String × TypeRefIr))
  | union (items : List TypeRefIr)
  | nullable (inner : TypeRefIr)
  | literal (value : LiteralIr)
  | typeParam (name : String)
  | anyInterface (interfaceAbiId : String) (canonicalTypeArgs : List TypeRefIr)
  | function (params : List (String × TypeRefIr)) (returnType : TypeRefIr)

namespace TypeRefIr

/-! ## Equality -/

mutual

def beq : TypeRefIr → TypeRefIr → Bool
  | .builtin name args, .builtin name' args' => name == name' && beqList args args'
  | .localType index, .localType index' => index == index'
  | .publicationType path index, .publicationType path' index' => path == path' && index == index'
  | .serviceSymbol symbol, .serviceSymbol symbol' => symbol == symbol'
  | .packageSymbol symbol, .packageSymbol symbol' => symbol == symbol'
  | .packageSchema id key type, .packageSchema id' key' type' =>
    id == id' && key == key' && type == type'
  | .appliedNominal base args, .appliedNominal base' args' =>
    base == base' && beqList args args'
  | .dbObjectSymbol symbol, .dbObjectSymbol symbol' => symbol == symbol'
  | .record fields, .record fields' => beqFields fields fields'
  | .union items, .union items' => beqList items items'
  | .nullable inner, .nullable inner' => beq inner inner'
  | .literal value, .literal value' => value == value'
  | .typeParam name, .typeParam name' => name == name'
  | .anyInterface id args, .anyInterface id' args' => id == id' && beqList args args'
  | .function params ret, .function params' ret' =>
    beqFields params params' && beq ret ret'
  | _, _ => false

def beqList : List TypeRefIr → List TypeRefIr → Bool
  | [], [] => true
  | a :: as, b :: bs => beq a b && beqList as bs
  | _, _ => false

def beqFields : List (String × TypeRefIr) → List (String × TypeRefIr) → Bool
  | [], [] => true
  | (n, a) :: as, (m, b) :: bs => n == m && beq a b && beqFields as bs
  | _, _ => false

end

mutual

theorem eq_of_beq : ∀ {a b : TypeRefIr}, beq a b = true → a = b
  | a, b, h => by
    cases a with
    | builtin name args | appliedNominal base arguments
    | anyInterface interfaceAbiId canonicalTypeArgs =>
      cases b <;> simp only [beq, Bool.and_eq_true, beq_iff_eq, Bool.false_eq_true] at h
      rw [h.1, eq_of_beqList h.2]
    | record fields =>
      cases b <;> simp only [beq, Bool.false_eq_true] at h
      rw [eq_of_beqFields h]
    | union items =>
      cases b <;> simp only [beq, Bool.false_eq_true] at h
      rw [eq_of_beqList h]
    | nullable inner =>
      cases b <;> simp only [beq, Bool.false_eq_true] at h
      rw [eq_of_beq h]
    | function params returnType =>
      cases b <;> simp only [beq, Bool.and_eq_true, Bool.false_eq_true] at h
      rw [eq_of_beqFields h.1, eq_of_beq h.2]
    | _ => cases b <;> simp_all [beq]

theorem eq_of_beqList :
    ∀ {as bs : List TypeRefIr}, beqList as bs = true → as = bs
  | [], [], _ => rfl
  | [], _ :: _, h => by simp [beqList] at h
  | _ :: _, [], h => by simp [beqList] at h
  | a :: as, b :: bs, h => by
    rw [beqList, Bool.and_eq_true] at h
    rw [eq_of_beq h.1, eq_of_beqList h.2]

theorem eq_of_beqFields :
    ∀ {as bs : List (String × TypeRefIr)}, beqFields as bs = true → as = bs
  | [], [], _ => rfl
  | [], _ :: _, h => by simp [beqFields] at h
  | _ :: _, [], h => by simp [beqFields] at h
  | (n, a) :: as, (m, b) :: bs, h => by
    rw [beqFields, Bool.and_eq_true, Bool.and_eq_true, beq_iff_eq] at h
    rw [h.1.1, eq_of_beq h.1.2, eq_of_beqFields h.2]

end

mutual

theorem beq_refl (a : TypeRefIr) : beq a a = true := by
  cases a with
  | builtin name args =>
    rw [beq, beqList_refl args]
    simp
  | appliedNominal base arguments =>
    rw [beq, beqList_refl arguments]
    simp
  | record fields => rw [beq, beqFields_refl fields]
  | union items => rw [beq, beqList_refl items]
  | nullable inner => rw [beq, beq_refl inner]
  | anyInterface interfaceAbiId canonicalTypeArgs =>
    rw [beq, beqList_refl canonicalTypeArgs]
    simp
  | function params returnType =>
    rw [beq, beqFields_refl params, beq_refl returnType]
    rfl
  | _ => simp [beq]

theorem beqList_refl (as : List TypeRefIr) : beqList as as = true := by
  cases as with
  | nil => rfl
  | cons a as =>
    rw [beqList, beq_refl a, beqList_refl as]
    rfl

theorem beqFields_refl (as : List (String × TypeRefIr)) : beqFields as as = true := by
  cases as with
  | nil => rfl
  | cons field as =>
    obtain ⟨name, a⟩ := field
    rw [beqFields, beq_refl a, beqFields_refl as]
    simp

end

instance : DecidableEq TypeRefIr := fun a b =>
  decidable_of_iff (beq a b = true)
    ⟨eq_of_beq, fun h => h ▸ beq_refl a⟩

end TypeRefIr

/-! ## Builtin names -/

inductive BuiltinShape where
  | array
  | stream
  | map
  | exception
  | catchResult
  | dbUpsertResult
  | json
  | jsonObject
  | null
  | void
  | never
  | unknown
  | string
  | integer
  | number
  | bool

namespace BuiltinShape

/-- The shape of a builtin name; three of them have a full name too. -/
def ofName (name : String) : Option BuiltinShape :=
  if name = "Array" ∨ name = "std.collection.Array" then some .array
  else if name = "Stream" ∨ name = "std.stream.Stream" then some .stream
  else if name = "Map" ∨ name = "std.collection.Map" then some .map
  else if name = "Exception" then some .exception
  else if name = "CatchResult" then some .catchResult
  else if name = "DbUpsertResult" then some .dbUpsertResult
  else if name = "Json" then some .json
  else if name = "JsonObject" then some .jsonObject
  else if name = "null" then some .null
  else if name = "void" then some .void
  else if name = "never" then some .never
  else if name = "unknown" then some .unknown
  else if name = "string" then some .string
  else if name = "integer" then some .integer
  else if name = "number" then some .number
  else if name = "bool" then some .bool
  else none

def name : BuiltinShape → String
  | .array => "Array"
  | .stream => "Stream"
  | .map => "Map"
  | .exception => "Exception"
  | .catchResult => "CatchResult"
  | .dbUpsertResult => "DbUpsertResult"
  | .json => "Json"
  | .jsonObject => "JsonObject"
  | .null => "null"
  | .void => "void"
  | .never => "never"
  | .unknown => "unknown"
  | .string => "string"
  | .integer => "integer"
  | .number => "number"
  | .bool => "bool"

@[simp] theorem ofName_name (shape : BuiltinShape) : ofName shape.name = some shape := by
  cases shape <;> rfl

theorem name_injective : Function.Injective name := by
  intro shape other h
  have hsome := congrArg ofName h
  rw [ofName_name, ofName_name] at hsome
  exact Option.some.inj hsome

end BuiltinShape

/-- The null builtin or the null literal. -/
def isNullType : TypeRefIr → Bool
  | .builtin name _ => name == "null"
  | .literal .null => true
  | _ => false

end Skiff.Compiler
