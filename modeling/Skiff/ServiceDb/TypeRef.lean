import Skiff.Compiler.TypeRef
import Skiff.Json.Value
import Skiff.ServiceDb.FieldPath

/-!
# Types of database fields

The three recursions over artifact types that the database layer rests on:

* which types are stored field by field and which as one opaque recoverable envelope
  (`schema_projectable_db_type_ref`, `runtime/boundary/src/db.rs`),
* the value plan a type gives, and how it is looked up under a dotted path
  (`field_plan_for_path`, same file),
* the paths of a collection that hold immutable files (`immutable_file_paths`,
  `runtime/service-db/src/metadata.rs`).
-/

namespace Skiff.ServiceDb

open Skiff.Runtime
open Compiler (TypeRefIr)

/-! ## Storage lanes -/

inductive RuntimeRecoverableStorageLane where
  | schemaProjectable
  | recoverableEnvelope
deriving DecidableEq

def isPlainDbStringKey : TypeRefIr → Bool
  | .builtin name [] => bareTypeName name = "string"
  | _ => false

/-- The builtins that are stored as they are, when they have no arguments. -/
def plainDbBuiltins : List String :=
  ["string", "integer", "number", "bool", "boolean", "null", "void", "Date", "bytes", "Bytes",
    "Json", "JsonObject"]

/-- The rule for builtins, given the answer for each argument. -/
def schemaProjectableBuiltin (name : String) (args : List TypeRefIr) (projectable : List Bool) :
    Bool :=
  let bare := bareTypeName name
  if bare ∈ plainDbBuiltins then args.isEmpty
  else if bare = "Array" then
    match projectable with
    | [item] => item
    | _ => false
  else if bare = "Map" then
    match args, projectable with
    | [key, _], [_, value] => isPlainDbStringKey key && value
    | _, _ => false
  else false

mutual

def schemaProjectableDbTypeRef : TypeRefIr → Bool
  | .builtin name args => schemaProjectableBuiltin name args (schemaProjectableItems args)
  | .record fields => schemaProjectableFields fields
  | .union items => (schemaProjectableItems items).all id
  | .nullable inner => schemaProjectableDbTypeRef inner
  | .literal _ => true
  | .localType _ | .publicationType _ _ | .serviceSymbol _ | .packageSymbol _
  | .packageSchema _ _ _ | .appliedNominal _ _ | .dbObjectSymbol _ | .typeParam _
  | .anyInterface _ _ | .function _ _ => false

def schemaProjectableItems : List TypeRefIr → List Bool
  | [] => []
  | item :: rest => schemaProjectableDbTypeRef item :: schemaProjectableItems rest

def schemaProjectableFields : List (String × TypeRefIr) → Bool
  | [] => true
  | (_, ty) :: rest => schemaProjectableDbTypeRef ty && schemaProjectableFields rest

end

def dbStorageLaneFromArtifactTypeRef (ty : TypeRefIr) : RuntimeRecoverableStorageLane :=
  if schemaProjectableDbTypeRef ty then .schemaProjectable else .recoverableEnvelope

/-! ## Value plans -/

/-- `RuntimeBuiltinShape::leaf_node` of a builtin's bare name. -/
def leafNode : String → RuntimeTypeNode
  | "Json" => .json
  | "JsonObject" => .jsonObject
  | "Date" => .date
  | "string" => .string
  | "TaskRef" => .taskRef
  | "TaskStatus" => taskUnionNode "std.task.TaskStatus"
      ["scheduled", "ready", "running", "succeeded", "failed", "platformFailed", "canceled",
        "expired"]
  | "TaskCancelResult" => taskUnionNode "std.task.TaskCancelResult"
      ["canceled", "alreadyStarted", "alreadyTerminal", "expired"]
  | "integer" => .integer
  | "number" => .number
  | "bool" => .bool
  | "boolean" => .bool
  | "bytes" => .bytes
  | "null" => .null
  | "void" => .null
  | _ => .unknown
where
  /-- A union discriminated by its `kind`. -/
  taskUnionNode (name : String) (kinds : List String) : RuntimeTypeNode :=
    .union <| kinds.map fun kind =>
      .mk (name ++ "[" ++ kind ++ "]") none
        (.record [.mk "kind" (.mk ("\"" ++ kind ++ "\"") none (.literalString kind)) true])

def runtimeBuiltinTypeNode (name : String) (args : List RuntimeTypePlan) : RuntimeTypeNode :=
  match bareTypeName name, args with
  | "Array", [item] => .array item
  | "Map", [key, value] => .map key value
  | "Stream", [item] => .stream item
  | bare, _ => leafNode bare

def isNullable : TypeRefIr → Bool
  | .nullable _ => true
  | _ => false

mutual

def runtimeTypePlanFromArtifactTypeRef : TypeRefIr → RuntimeTypePlan
  | .builtin name args =>
    .mk "builtin" (some name) (runtimeBuiltinTypeNode name (runtimeTypePlans args))
  | .localType _ => .mk "localType" none .unknown
  | .publicationType _ _ => .mk "publicationType" none .unknown
  | .serviceSymbol _ => .mk "serviceSymbol" none .unknown
  | .packageSymbol _ => .mk "packageSymbol" none .unknown
  | .packageSchema _ _ _ => .mk "packageSchema" none .unknown
  | .appliedNominal _ _ => .mk "appliedNominal" none .unknown
  | .dbObjectSymbol _ => .mk "dbObjectSymbol" none .unknown
  | .record fields => .mk "record" none (.record (runtimeRecordFieldPlans fields))
  | .union items => .mk "union" none (.union (runtimeTypePlans items))
  | .nullable inner => .mk "nullable" none (.nullable (runtimeTypePlanFromArtifactTypeRef inner))
  | .literal (.string value) => .mk "literal" none (.literalString value)
  | .literal _ => .mk "literal" none .unknown
  | .typeParam _ => .mk "typeParam" none .unknown
  | .anyInterface _ _ => .mk "anyInterface" none .unknown
  | .function _ _ => .mk "function" none .unknown

def runtimeTypePlans : List TypeRefIr → List RuntimeTypePlan
  | [] => []
  | item :: rest => runtimeTypePlanFromArtifactTypeRef item :: runtimeTypePlans rest

def runtimeRecordFieldPlans : List (String × TypeRefIr) → List RuntimeRecordFieldPlan
  | [] => []
  | (name, ty) :: rest =>
    .mk name (runtimeTypePlanFromArtifactTypeRef ty)
      (!isNullable ty) :: runtimeRecordFieldPlans rest

end

/-- The plan of a declared field or key. The recoverable codec is given the shape of
the result plan, so the plan itself stands for it. -/
structure DbBoundaryValuePlan where
  typeRef : TypeRefIr
  storageLane : RuntimeRecoverableStorageLane
  writeProjectionPlan : RuntimeTypePlan
  resultDecodePlan : RuntimeTypePlan
  recoverableExpectedPlan : RuntimeTypePlan

def DbBoundaryValuePlan.fromArtifactTypeRef (typeRef : TypeRefIr) : DbBoundaryValuePlan where
  typeRef := typeRef
  storageLane := dbStorageLaneFromArtifactTypeRef typeRef
  writeProjectionPlan := runtimeTypePlanFromArtifactTypeRef typeRef
  resultDecodePlan := runtimeTypePlanFromArtifactTypeRef typeRef
  recoverableExpectedPlan := runtimeTypePlanFromArtifactTypeRef typeRef

def DbBoundaryValuePlan.isRecoverableEnvelopeLane (plan : DbBoundaryValuePlan) : Bool :=
  plan.storageLane = .recoverableEnvelope

/-- A plan inside a declared plan, with the lane of the latter. -/
structure DbBoundaryValuePlanRef where
  plan : RuntimeTypePlan
  storageLane : RuntimeRecoverableStorageLane
  recoverableExpected : RuntimeTypePlan

def DbBoundaryValuePlan.writeProjectionRef (plan : DbBoundaryValuePlan) : DbBoundaryValuePlanRef :=
  ⟨plan.writeProjectionPlan, plan.storageLane, plan.recoverableExpectedPlan⟩

def DbBoundaryValuePlan.resultDecodeRef (plan : DbBoundaryValuePlan) : DbBoundaryValuePlanRef :=
  ⟨plan.resultDecodePlan, plan.storageLane, plan.recoverableExpectedPlan⟩

structure DbRecordProjection where
  fields : List RuntimeRecordFieldPlan
  recoverableExpected : RuntimeTypePlan

def DbRecordProjection.field (projection : DbRecordProjection) (name : String) :
    Option DbBoundaryValuePlanRef :=
  (projection.fields.find? fun field => field.name = name).map fun field =>
    ⟨field.ty, .schemaProjectable, projection.recoverableExpected⟩

inductive DbValueProjection where
  | recoverableEnvelope
  | date
  | record (projection : DbRecordProjection)
  | array (item : DbBoundaryValuePlanRef)
  | scalar

namespace DbBoundaryValuePlanRef

def nonNullablePlan (ref : DbBoundaryValuePlanRef) : RuntimeTypePlan :=
  match ref.plan.node with
  | .nullable inner => inner
  | _ => ref.plan

def projection (ref : DbBoundaryValuePlanRef) : DbValueProjection :=
  if ref.storageLane = .recoverableEnvelope then .recoverableEnvelope
  else
    match ref.nonNullablePlan.node with
    | .date => .date
    | .record fields => .record ⟨fields, ref.recoverableExpected⟩
    | .array item => .array ⟨item, ref.storageLane, ref.recoverableExpected⟩
    | _ => .scalar

/-- The plan below a plan, along the segments of a path. An envelope has no inside. -/
def descendPath (ref : DbBoundaryValuePlanRef) : List String → Option DbBoundaryValuePlanRef
  | [] => some ref
  | segment :: segments =>
    if ref.storageLane = .recoverableEnvelope then none
    else
      match ref.nonNullablePlan.node with
      | .record fields =>
        match fields.find? fun field => field.name = segment with
        | some field => descendPath ⟨field.ty, ref.storageLane, ref.recoverableExpected⟩ segments
        | none => none
      | _ => none

end DbBoundaryValuePlanRef

/-- The plan of a field path: the key's for the key field and `_id`, the declared
field's otherwise, followed along the rest of the path. -/
def fieldPlanForPathWith (field keyField : String) (keyPlan : Option DbBoundaryValuePlan)
    (fieldPlan : String → Option DbBoundaryValuePlan)
    (valueRef : DbBoundaryValuePlan → DbBoundaryValuePlanRef) : Option DbBoundaryValuePlanRef :=
  let top := topLevel field
  let root := if top = mongoIdField ∨ top = keyField then keyPlan else fieldPlan top
  root.bind fun plan => (valueRef plan).descendPath (splitPath field).tail

/-! ## Paths of immutable files -/

def isImmutableFileType : TypeRefIr → Bool
  | .builtin name _ => name = "std.file.ImmutableFile" || name = "ImmutableFile"
  | .serviceSymbol symbol => symbol.symbolPath = "std.file.ImmutableFile"
  | .dbObjectSymbol symbol => symbol.symbolPath = "std.file.ImmutableFile"
  | .packageSymbol symbol =>
    symbol.symbolPath = "std.file.ImmutableFile" ||
      (symbol.package = .packageId "std.file" && symbol.symbolPath = "ImmutableFile") ||
      (symbol.package = .packageId "std" && symbol.symbolPath = "file.ImmutableFile")
  | .nullable inner => isImmutableFileType inner
  | _ => false

mutual

def collectImmutableFilePaths (path : List String) : TypeRefIr → List (List String)
  | .nullable inner => collectImmutableFilePaths path inner
  | .record fields => collectFieldPaths path fields
  | ty => if isImmutableFileType ty then [path] else []

def collectFieldPaths (path : List String) : List (String × TypeRefIr) → List (List String)
  | [] => []
  | (field, ty) :: rest =>
    collectImmutableFilePaths (path ++ [field]) ty ++ collectFieldPaths path rest

end

/-- Files are no builtin of any other kind. -/
theorem schemaProjectableBuiltin_immutableFile {name : String} {args : List TypeRefIr}
    {projectable : List Bool} (h : bareTypeName name = "ImmutableFile") :
    schemaProjectableBuiltin name args projectable = false := by
  have hplain : "ImmutableFile" ∉ plainDbBuiltins := by simp [plainDbBuiltins]
  have harray : "ImmutableFile" ≠ "Array" := by simp
  have hmap : "ImmutableFile" ≠ "Map" := by simp
  unfold schemaProjectableBuiltin
  extract_lets bare
  have hbare : bare = "ImmutableFile" := h
  clear_value bare
  subst hbare
  refine (if_neg hplain).trans ?_
  refine (if_neg harray).trans ?_
  exact if_neg hmap

theorem bareTypeName_immutableFile {name : String}
    (h : name = "std.file.ImmutableFile" ∨ name = "ImmutableFile") :
    bareTypeName name = "ImmutableFile" := by
  obtain rfl | rfl := h
  · decide +kernel
  · decide +kernel

theorem schemaProjectable_of_isImmutableFileType {ty : TypeRefIr}
    (h : isImmutableFileType ty = true) : schemaProjectableDbTypeRef ty = false := by
  induction ty using isImmutableFileType.induct with
  | case1 name args =>
    rw [isImmutableFileType, Bool.or_eq_true, decide_eq_true_eq, decide_eq_true_eq] at h
    rw [schemaProjectableDbTypeRef]
    exact schemaProjectableBuiltin_immutableFile (bareTypeName_immutableFile h)
  | case2 | case3 | case4 => rw [schemaProjectableDbTypeRef]
  | case5 inner ih =>
    rw [schemaProjectableDbTypeRef]
    exact ih h
  | case6 ty hbuiltin hservice hdb hpackage hnullable =>
    rw [isImmutableFileType] at h
    · cases h
    all_goals assumption

/-- The one path of a type that is neither nullable nor a record. -/
theorem schemaProjectable_of_mem_leaf {ty : TypeRefIr} {path p : List String}
    (h : p ∈ if isImmutableFileType ty then [path] else []) :
    schemaProjectableDbTypeRef ty = false ∧ path <+: p := by
  split at h
  case isTrue hfile =>
    rw [List.mem_singleton] at h
    exact ⟨schemaProjectable_of_isImmutableFileType hfile, h ▸ List.prefix_refl _⟩
  · cases h

mutual

/-- A type below which a file path was found is stored as an envelope. -/
theorem schemaProjectable_of_mem_collect {path p : List String} :
    ∀ {ty : TypeRefIr}, p ∈ collectImmutableFilePaths path ty →
      schemaProjectableDbTypeRef ty = false ∧ path <+: p
  | .nullable inner, h => by
    rw [schemaProjectableDbTypeRef]
    exact @schemaProjectable_of_mem_collect _ _ inner h
  | .record fields, h => by
    rw [schemaProjectableDbTypeRef]
    exact @schemaProjectableFields_of_mem_collect _ _ fields h
  | .builtin name args, h | .localType _, h | .publicationType _ _, h | .serviceSymbol _, h
  | .packageSymbol _, h | .packageSchema _ _ _, h | .appliedNominal _ _, h | .dbObjectSymbol _, h
  | .union _, h | .literal _, h | .typeParam _, h | .anyInterface _ _, h | .function _ _, h =>
    schemaProjectable_of_mem_leaf h

theorem schemaProjectableFields_of_mem_collect {path p : List String} :
    ∀ {fields : List (String × TypeRefIr)}, p ∈ collectFieldPaths path fields →
      schemaProjectableFields fields = false ∧ path <+: p
  | [], h => by cases h
  | (field, ty) :: rest, h => by
    rw [collectFieldPaths, List.mem_append] at h
    rw [schemaProjectableFields]
    obtain h | h := h
    · obtain ⟨hty, hpath⟩ := schemaProjectable_of_mem_collect h
      refine ⟨?_, (List.prefix_append _ _).trans hpath⟩
      rw [hty, Bool.false_and]
    obtain ⟨hrest, hpath⟩ := schemaProjectableFields_of_mem_collect h
    refine ⟨?_, hpath⟩
    rw [hrest, Bool.and_false]

end

end Skiff.ServiceDb
