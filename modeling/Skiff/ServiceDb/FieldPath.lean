import Skiff.Data.Fields
import Skiff.Data.Mut
import Skiff.Runtime.TypePlan

/-!
# Field paths of database objects

The policy that decides which field names and paths business code may use
(`runtime/boundary/src/db.rs`). Names that start with `__skiff` belong to the
runtime: no business name and no segment of a business path may be one.
-/

namespace Skiff.ServiceDb

open Skiff.Runtime (trim)

inductive DbFieldPathPolicyError where
  | unsupportedFieldPath (field : String)
  | reservedBusinessMetadataName (field : String)
  | reservedBusinessMetadataPath (field : String)
  | undeclaredTopLevel (field typeName : String)
  | mutableKeyPath (field : String)

def reservedDbBusinessMetadataPrefix : String := "__skiff"

def mongoIdField : String := "_id"

def isReservedDbBusinessMetadataName (name : String) : Bool :=
  reservedDbBusinessMetadataPrefix.toList.isPrefixOf name.toList

def fieldPathHasReservedDbBusinessMetadata (field : String) : Bool :=
  (splitPath field).any isReservedDbBusinessMetadataName

def validateDbBusinessFieldName (field : String) : Except DbFieldPathPolicyError Unit :=
  if isReservedDbBusinessMetadataName field then .error (.reservedBusinessMetadataName field)
  else .ok ()

def validateDbBusinessFieldPathText (field : String) : Except DbFieldPathPolicyError Unit :=
  if trim field.toList = [] || '\x00' ∈ field.toList ||
      (splitPath field).any fun segment => segment.toList = [] || segment.toList.head? = some '$'
  then .error (.unsupportedFieldPath field)
  else if fieldPathHasReservedDbBusinessMetadata field then
    .error (.reservedBusinessMetadataPath field)
  else .ok ()

structure DbResolvedFieldPath where
  businessPath : String
  topLevel : String
  mongoPath : String

/-- The policy of a collection is its key field. -/
structure DbFieldPathPolicy where
  keyField : String

namespace DbFieldPathPolicy

variable (policy : DbFieldPathPolicy)

def isKeyOrMongoIdPath (field : String) : Bool :=
  field = policy.keyField ||
    (policy.keyField.toList ++ ['.']).isPrefixOf field.toList ||
    field = mongoIdField || "_id.".toList.isPrefixOf field.toList

def mongoPathForBusinessFieldPath (field : String) : String :=
  if field = policy.keyField then mongoIdField else field

def validateDeclaredBusinessFieldPath (field typeName : String)
    (isDeclaredTopLevel : String → Bool) : Except DbFieldPathPolicyError String := do
  validateDbBusinessFieldPathText field
  let top := topLevel field
  if top ≠ policy.keyField && !isDeclaredTopLevel top then
    .error (.undeclaredTopLevel field typeName)
  else .ok top

def resolveBusinessFieldPath (field typeName : String) (isDeclaredTopLevel : String → Bool) :
    Except DbFieldPathPolicyError DbResolvedFieldPath := do
  let top ← policy.validateDeclaredBusinessFieldPath field typeName isDeclaredTopLevel
  .ok ⟨field, top, policy.mongoPathForBusinessFieldPath field⟩

def resolveMutableBusinessFieldPath (field typeName : String)
    (isDeclaredTopLevel : String → Bool) : Except DbFieldPathPolicyError DbResolvedFieldPath :=
  if policy.isKeyOrMongoIdPath field then .error (.mutableKeyPath field)
  else policy.resolveBusinessFieldPath field typeName isDeclaredTopLevel

end DbFieldPathPolicy

/-! ## What the policy lets through -/

theorem validateDbBusinessFieldName_eq_ok {field : String} {u : Unit} :
    validateDbBusinessFieldName field = .ok u ↔ isReservedDbBusinessMetadataName field = false := by
  unfold validateDbBusinessFieldName
  split
  case isTrue h => simp [h]
  case isFalse h => simpa using h

theorem validateDbBusinessFieldPathText_topLevel {field : String} {u : Unit}
    (h : validateDbBusinessFieldPathText field = .ok u) :
    isReservedDbBusinessMetadataName (topLevel field) = false := by
  unfold validateDbBusinessFieldPathText at h
  split at h
  · cases h
  split at h
  · cases h
  case isFalse hreserved =>
    simp only [fieldPathHasReservedDbBusinessMetadata, List.any_eq_true, not_exists, not_and,
      Bool.not_eq_true] at hreserved
    exact hreserved _ (topLevel_mem_splitPath field)

namespace DbFieldPathPolicy

variable {policy : DbFieldPathPolicy} {field typeName : String} {declared : String → Bool}
  {resolved : DbResolvedFieldPath}

theorem resolveBusinessFieldPath_eq_ok
    (h : policy.resolveBusinessFieldPath field typeName declared = .ok resolved) :
    isReservedDbBusinessMetadataName (topLevel field) = false ∧
      (topLevel field = policy.keyField ∨ declared (topLevel field) = true) ∧
      resolved = ⟨field, topLevel field, policy.mongoPathForBusinessFieldPath field⟩ := by
  obtain ⟨top, htop, hresolved⟩ := bind_eq_ok.mp h
  obtain ⟨u, htext, htop⟩ := bind_eq_ok.mp htop
  dsimp only at htop
  split at htop
  · cases htop
  case isFalse hdeclared =>
    cases htop
    cases hresolved
    refine ⟨validateDbBusinessFieldPathText_topLevel htext, ?_, rfl⟩
    by_cases hkey : topLevel field = policy.keyField
    · exact .inl hkey
    right
    simpa [hkey] using hdeclared

end DbFieldPathPolicy

end Skiff.ServiceDb
