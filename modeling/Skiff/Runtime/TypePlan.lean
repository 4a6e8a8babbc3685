import Mathlib.Tactic.Common

/-!
# Runtime type plans

The plans that drive the payload codec (`runtime/model/src/type_plan.rs`), how the
boundary looks at them (`boundary_type_node`), and which plans may be the key of a map
(`runtime/boundary/src/map_key.rs`). A plan keeps its label and the name it was declared
under; the identity metadata is read by nothing here.
-/

namespace Skiff.Runtime

mutual

inductive RuntimeTypePlan where
  | mk (label : String) (namedTypeName : Option String) (node : RuntimeTypeNode)

inductive RuntimeTypeNode where
  | alias (target : RuntimeTypePlan)
  | nullable (inner : RuntimeTypePlan)
  | union (types : List RuntimeTypePlan)
  | literalString (literal : String)
  | representation (typeName : String) (payload : RuntimeTypePlan)
  | json
  | jsonObject
  | bytes
  | date
  | string
  | bool
  | number
  | integer
  | taskRef
  | null
  | stream (item : RuntimeTypePlan)
  | array (item : RuntimeTypePlan)
  | map (key value : RuntimeTypePlan)
  | record (fields : List RuntimeRecordFieldPlan)
  | unknown

inductive RuntimeRecordFieldPlan where
  | mk (name : String) (ty : RuntimeTypePlan) (required : Bool)

end

namespace RuntimeTypePlan

def label : RuntimeTypePlan → String
  | mk label _ _ => label

def node : RuntimeTypePlan → RuntimeTypeNode
  | mk _ _ node => node

end RuntimeTypePlan

namespace RuntimeRecordFieldPlan

def name : RuntimeRecordFieldPlan → String
  | mk name _ _ => name

def ty : RuntimeRecordFieldPlan → RuntimeTypePlan
  | mk _ ty _ => ty

def required : RuntimeRecordFieldPlan → Bool
  | mk _ _ required => required

end RuntimeRecordFieldPlan

/-! ## The boundary's view -/

inductive BoundaryTypeNode where
  | nullable (inner : RuntimeTypePlan)
  | union (types : List RuntimeTypePlan)
  | literalString (literal : String)
  | json
  | jsonObject
  | bytes
  | date
  | string
  | bool
  | number
  | integer
  | null
  | stream (item : RuntimeTypePlan)
  | array (item : RuntimeTypePlan)
  | map (key value : RuntimeTypePlan)
  | record (fields : List RuntimeRecordFieldPlan)
  | unknown

mutual

/-- Aliases and representations are transparent; a task reference is not encodable. -/
def boundaryTypeNode : RuntimeTypePlan → BoundaryTypeNode
  | .mk _ _ node => boundaryNode node

def boundaryNode : RuntimeTypeNode → BoundaryTypeNode
  | .alias target => boundaryTypeNode target
  | .nullable inner => .nullable inner
  | .union types => .union types
  | .literalString literal => .literalString literal
  | .representation _ payload => boundaryTypeNode payload
  | .json => .json
  | .jsonObject => .jsonObject
  | .bytes => .bytes
  | .date => .date
  | .string => .string
  | .taskRef => .unknown
  | .bool => .bool
  | .number => .number
  | .integer => .integer
  | .null => .null
  | .stream item => .stream item
  | .array item => .array item
  | .map key value => .map key value
  | .record fields => .record fields
  | .unknown => .unknown

end

mutual

/-- The plan under its aliases and representations. -/
def erasedBoundaryPlan : RuntimeTypePlan → RuntimeTypePlan
  | .mk label name node => erasedNode label name node

def erasedNode (label : String) (name : Option String) : RuntimeTypeNode → RuntimeTypePlan
  | .alias target => erasedBoundaryPlan target
  | .representation _ payload => erasedBoundaryPlan payload
  | node => .mk label name node

end

/-! ## Map keys -/

/-- The `White_Space` characters, which `str::trim` removes. -/
def isWhiteSpace (c : Char) : Bool :=
  c.toNat ∈ [0x20, 0x85, 0xA0, 0x1680, 0x2028, 0x2029, 0x202F, 0x205F, 0x3000] ||
    (0x09 ≤ c.toNat && c.toNat ≤ 0x0D) || (0x2000 ≤ c.toNat && c.toNat ≤ 0x200A)

def trim (text : List Char) : List Char :=
  ((text.dropWhile isWhiteSpace).reverse.dropWhile isWhiteSpace).reverse

/-- The name before its type arguments. -/
def typeNameRoot (name : List Char) : List Char := trim ((trim name).takeWhile (· ≠ '<'))

/-- The last segment of a dotted or colon-separated name. -/
def bareTypeName (name : String) : String :=
  let segment := (typeNameRoot name.toList).reverse.takeWhile fun c => c ≠ '.' && c ≠ ':'
  String.ofList (trim segment.reverse)

/-- `RuntimeBuiltinShape::of_name` finds a shape, other than `Stream`. -/
def isBuiltinNamedType (name : String) : Bool :=
  bareTypeName name ∈ ["Array", "Map", "Json", "JsonObject", "Date", "string", "TaskRef",
    "TaskStatus", "TaskCancelResult", "integer", "number", "bool", "boolean", "bytes", "null",
    "void", "DbInsertManyResult", "DbUpdateManyResult", "DbDeleteManyResult", "DbUpsertResult"]

mutual

def isStringKeyPayloadPlan : RuntimeTypePlan → Bool
  | .mk _ _ node => isStringKeyPayloadNode node

def isStringKeyPayloadNode : RuntimeTypeNode → Bool
  | .alias target => isStringKeyPayloadPlan target
  | .string => true
  | _ => false

end

/-- A declared name that is not a builtin stands for a string representation. -/
def orNamed (name : Option String) : Except String Unit → Except String Unit
  | .ok () => .ok ()
  | .error message =>
    match name with
    | some typeName => if isBuiltinNamedType typeName then .error message else .ok ()
    | none => .error message

mutual

/-- `RuntimeMapKeyShape::for_plan`. There is one shape, a plain string. -/
def mapKeyShapeForPlan : RuntimeTypePlan → Except String Unit
  | .mk _ name node => mapKeyShapeForNode name node

def mapKeyShapeForNode (name : Option String) : RuntimeTypeNode → Except String Unit
  | .string => .ok ()
  | .json => .ok ()
  | .representation _ payload =>
    if isStringKeyPayloadPlan payload then .ok ()
    else .error "Map key representation payload must be string"
  | .alias target => orNamed name (mapKeyShapeForPlan target)
  | _ => orNamed name (.error "Map key type must be string or representation over string")

end

def runtimeMapKeyShape (keyType : RuntimeTypePlan) : Except String Unit :=
  mapKeyShapeForPlan (erasedBoundaryPlan keyType)

/-! ## Plans that name each field once -/

/-- A plan occurs in another one. -/
inductive RuntimeTypePlan.Within : RuntimeTypePlan → RuntimeTypePlan → Prop where
  | refl {plan} : Within plan plan
  | alias {label name target plan} :
      Within target plan → Within (.mk label name (.alias target)) plan
  | representation {label name typeName payload plan} : Within payload plan →
      Within (.mk label name (.representation typeName payload)) plan
  | nullable {label name inner plan} : Within inner plan →
      Within (.mk label name (.nullable inner)) plan
  | union {label name types ty plan} : ty ∈ types → Within ty plan →
      Within (.mk label name (.union types)) plan
  | array {label name item plan} : Within item plan → Within (.mk label name (.array item)) plan
  | mapValue {label name key value plan} : Within value plan →
      Within (.mk label name (.map key value)) plan
  | record {label name fields field plan} : field ∈ fields →
      Within (RuntimeRecordFieldPlan.ty field) plan → Within (.mk label name (.record fields)) plan

/-- Every record in the plan lists each field name once. -/
def RuntimeTypePlan.DistinctFields (plan : RuntimeTypePlan) : Prop :=
  ∀ label name fields, plan.Within (.mk label name (.record fields)) →
    (fields.map RuntimeRecordFieldPlan.name).Nodup

/-- The same for what is directly below a boundary node. -/
def BoundaryTypeNode.Distinct : BoundaryTypeNode → Prop
  | .nullable inner => inner.DistinctFields
  | .union types => ∀ ty ∈ types, ty.DistinctFields
  | .array item => item.DistinctFields
  | .map _ value => value.DistinctFields
  | .record fields => (fields.map RuntimeRecordFieldPlan.name).Nodup ∧
      ∀ field ∈ fields, (RuntimeRecordFieldPlan.ty field).DistinctFields
  | _ => True

theorem RuntimeTypePlan.DistinctFields.of_within {plan inner : RuntimeTypePlan}
    (h : plan.DistinctFields)
    (hwithin : ∀ other, inner.Within other → plan.Within other) : inner.DistinctFields :=
  fun label name fields hrecord => h label name fields (hwithin _ hrecord)

theorem distinct_boundaryNode (label : String) (name : Option String) (node : RuntimeTypeNode)
    (h : (RuntimeTypePlan.mk label name node).DistinctFields) :
    BoundaryTypeNode.Distinct (boundaryNode node) := by
  -- The induction unwraps aliases and representations, under any label and name.
  refine @RuntimeTypeNode.rec
    (fun plan => plan.DistinctFields → (boundaryTypeNode plan).Distinct)
    (fun node => ∀ label name, (RuntimeTypePlan.mk label name node).DistinctFields →
      (boundaryNode node).Distinct)
    (fun _ => True) (fun _ => True) (fun _ => True) ?mk ?aliased ?nullable ?union ?literal
    ?representation ?json ?jsonObject ?bytes ?date ?string ?bool ?number ?integer ?taskRef ?null
    ?stream ?array ?map ?record ?unknown ?field ?nil ?cons ?nilFields ?consFields node label name h
  case mk =>
    intro label name node ih hplan
    exact ih label name hplan
  case aliased =>
    intro target ih label name hplan
    exact ih (hplan.of_within fun _ => .alias)
  case representation =>
    intro typeName payload ih label name hplan
    exact ih (hplan.of_within fun _ => .representation)
  case nullable =>
    intro inner ih label name hplan
    exact hplan.of_within fun _ => .nullable
  case union =>
    intro types ih label name hplan ty hty
    exact hplan.of_within fun _ => .union hty
  case array =>
    intro item ih label name hplan
    exact hplan.of_within fun _ => .array
  case map =>
    intro key value ihKey ihValue label name hplan
    exact hplan.of_within fun _ => .mapValue
  case record =>
    intro fields ih label name hplan
    refine ⟨hplan label name fields .refl, fun field hfield => ?_⟩
    exact hplan.of_within fun _ => .record hfield
  all_goals
    intros
    trivial

theorem distinct_boundaryTypeNode {plan : RuntimeTypePlan} (h : plan.DistinctFields) :
    (boundaryTypeNode plan).Distinct := by
  cases plan with
  | mk label name node => exact distinct_boundaryNode label name node h

end Skiff.Runtime
