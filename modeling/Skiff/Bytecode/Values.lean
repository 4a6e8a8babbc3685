import Skiff.Bytecode.TypeLinker

/-!
# Values of an instruction

The types and plans that an instruction expects on the operand stack and leaves there,
resolved against its operands, the frame, the tables of the image and the type linker.
-/

namespace Skiff.Bytecode

open Mut

/-- What the stack map of one function is computed from. -/
structure StackMapContext where
  function : ValidatedFunction
  /-- The row of the function that is linked, once the functions are numbered. -/
  functionIndex : Option FunctionIndex
  instructions : List LinkedInstruction
  frame : LinkedFrameLayout
  allFrames : List LinkedFrameLayout
  switchTables : List LinkedSwitchTable
  constants : List LinkedConstantEntry
  dispatchTables : LinkedDispatchTables
  resumeSites : List LinkedResumeSite
  interning : Interning

/-- The value, or the error when there is none. -/
def required {α : Type} (found : Option α) (error : LinkError) : Except LinkError α :=
  found.elim (.error error) .ok

/-- A row of the type linker, or the error when there is none. -/
def lookup {α : Type} (find : TypeLinker → Option α) (error : LinkError) : LinkM α :=
  read fun linker => required (find linker) error

/-! ## Operands -/

section

variable (instruction : LinkedInstruction) (role : OperandRole) (pc : Option Nat)

def operandWord : Except LinkError Nat :=
  required ((contractForOpcode instruction.opcode).operandWord role instruction.operands)
    (.unsatisfied pc s!"operand role {role.name} is absent")

def operandOrdinal : Except LinkError Nat :=
  required ((contractForOpcode instruction.opcode).operandPosition role)
    (.unsatisfied pc s!"operand role {role.name} is absent")

def constantTarget : Except LinkError Nat := do
  let ordinal ← operandOrdinal instruction role pc
  match instruction.target ordinal with
  | some (.constant constant) => .ok constant
  | _ => .error (.unsatisfied pc s!"constant operand role {role.name} is unresolved")

def branchTarget : Except LinkError Nat := do
  let ordinal ← operandOrdinal instruction role pc
  match instruction.target ordinal with
  | some (.branch target) => .ok target
  | _ => .error (.unsatisfied pc s!"branch operand role {role.name} has no instruction target")

def targetIndex : Except LinkError Nat := do
  let ordinal ← operandOrdinal instruction role pc
  match instruction.target ordinal with
  | some (.serviceOperation index) => .ok index
  | some (.actorMethod index) => .ok index
  | some (.interfaceTable index) => .ok index
  | some (.hostEffectAdapter index) => .ok index
  | some (.intrinsic index) => .ok index
  | some _ => .ok 0
  | none => .error (.unsatisfied pc s!"target operand role {role.name} is unresolved")

def isInterfaceTarget : Bool :=
  match (contractForOpcode instruction.opcode).operandPosition role with
  | some ordinal => instruction.resolvedOperands.any fun operand =>
    operand.operandOrdinal = ordinal && operand.target.kind = .interfaceTable
  | none => false

end

/-! ## Targets -/

section

variable (context : StackMapContext) (instruction : LinkedInstruction) (role : OperandRole)
    (pc : Option Nat)

def interfaceTable : Except LinkError LinkedInterfaceTable := do
  let index ← targetIndex instruction role pc
  required context.dispatchTables.interfaceTables[index]?
    (.unsatisfied pc s!"interface table {index} is absent")

/-- The frame of a local callee. -/
def localTarget : Except LinkError (Option LinkedFrameLayout) := do
  let ordinal ← operandOrdinal instruction role pc
  match instruction.target ordinal with
  | some (.function function) =>
    let frame ← required context.allFrames[function]?
      (.unsatisfied pc s!"function target {function} is absent")
    .ok (some frame)
  | _ => .ok none

def targetSignature : Except LinkError LinkedSignature := do
  let index ← targetIndex instruction role pc
  let ordinal ← operandOrdinal instruction role pc
  match instruction.target ordinal with
  | none => .error (.unsatisfied pc s!"target operand role {role.name} is unresolved")
  | some (.serviceOperation _) =>
    required context.dispatchTables.serviceOperations[index]?
      (.unsatisfied pc "service operation target is absent")
  | some (.actorMethod _) =>
    required context.dispatchTables.actorMethods[index]?
      (.unsatisfied pc "actor method target is absent")
  | some (.interfaceTable _) =>
    let table ← required context.dispatchTables.interfaceTables[index]?
      (.unsatisfied pc "interface table is absent")
    let methodOrdinal ← operandWord instruction .methodOrdinal pc
    required table.kind.methods[methodOrdinal]?
      (.unsatisfied pc s!"interface method ordinal {methodOrdinal} is absent")
  | some (.hostEffectAdapter _) =>
    required context.dispatchTables.hostEffectAdapters[index]?
      (.unsatisfied pc "host effect target is absent")
  | some (.intrinsic _) =>
    required context.dispatchTables.intrinsics[index]?
      (.unsatisfied pc "intrinsic target is absent")
  | some _ => .error (.unsatisfied pc "target is not callable")

/-- Types with their plans, one value each. -/
def valuesOf (types : List TypeIndex) (plans : List LinkedValueTransferPlan) :
    List LinkedStackValue :=
  List.zipWith LinkedStackValue.mk types plans

def parameterValue (frame : LinkedFrameLayout) (parameter : LinkedParameterSlot) :
    Except LinkError LinkedStackValue := do
  let ty ← required frame.slotTypes[parameter.slot]?
    (.unsatisfied pc "target parameter type is absent")
  .ok ⟨ty, parameter.plan⟩

def targetParameterValues : Except LinkError (List LinkedStackValue) := do
  match ← localTarget context instruction role pc with
  | some frame => frame.parameters.mapM (parameterValue pc frame)
  | none =>
    let signature ← targetSignature context instruction role pc
    if isInterfaceTarget instruction role then
      .ok (valuesOf (signature.parameterTypes.drop 1) (signature.parameterPlans.drop 1))
    else .ok (valuesOf signature.parameterTypes signature.parameterPlans)

def targetResultValues : Except LinkError (List LinkedStackValue) := do
  match ← localTarget context instruction role pc with
  | some frame => .ok (valuesOf frame.resultTypes frame.resultPlans)
  | none =>
    let signature ← targetSignature context instruction role pc
    .ok (valuesOf signature.resultTypes signature.resultPlans)

end

/-! ## Sources -/

section

variable (context : StackMapContext) (instruction : LinkedInstruction) (pc : Option Nat)

def valueWithLinkedPlan (ty : TypeIndex) : LinkM LinkedStackValue := do
  let plan ← lookup (·.linkedTypePlan ty) (.unavailable pc)
  pure ⟨ty, plan⟩

def scalarValue (name : String) : LinkM (List LinkedStackValue) := do
  let ty ← context.interning.internBuiltin name
  let value ← valueWithLinkedPlan pc ty
  pure [value]

def internedValue (ty : TypeRefIr) : LinkM (List LinkedStackValue) := do
  let index ← context.interning.internConcreteType ty
  let value ← valueWithLinkedPlan pc index
  pure [value]

def poolTypeValue (role : OperandRole) : LinkM (List LinkedStackValue) := do
  let entry ← ofExcept (operandWord instruction role pc)
  let ty ← context.interning.internPoolType entry
  let value ← valueWithLinkedPlan pc ty
  pure [value]

def slotValues (role : OperandRole) (missingType missingPlan : Nat → String) :
    Except LinkError (List LinkedStackValue) := do
  let slot ← operandWord instruction role pc
  let ty ← required context.frame.slotTypes[slot]? (.unsatisfied pc (missingType slot))
  let plan ← required context.frame.slotPlans[slot]? (.unsatisfied pc (missingPlan slot))
  .ok [⟨ty, plan⟩]

def poolShape (role : OperandRole) : LinkM LinkedShapeEntry := do
  let entry ← ofExcept (operandWord instruction role pc)
  let row ← context.interning.internPoolShape entry
  lookup (·.shapes.rows[row]?) (.unsatisfied pc "shape row is absent")

def writablePath (role : OperandRole) : LinkM LinkedWritablePathEntry := do
  let entry ← ofExcept (operandWord instruction role pc)
  let row ← context.interning.internWritablePath entry
  lookup (·.writablePaths.rows[row]?) (.unsatisfied pc "writable path row is absent")

/-- The selector of a path segment: an index is a number, whatever the element type. -/
def selectorValues : LinkedWritablePathSegment → LinkM (List LinkedStackValue)
  | .arrayIndex _ _ => scalarValue context pc "number"
  | .mapKey _ keyType _ => do
    let value ← valueWithLinkedPlan pc keyType
    pure [value]
  | .denseField _ _ => pure []

/-- A position of a container layout. -/
def containerPosition (key : Bool) (layout : LinkedContainerLayout) :
    Except LinkError (List LinkedStackValue) := do
  let position ← required (if key then layout.key else layout.element.or layout.value)
    (.unsatisfied pc "container position is absent")
  .ok [position]

def containerElement (inputs : List (List LinkedStackValue)) (group : Nat) (key : Bool) :
    LinkM (List LinkedStackValue) := do
  let container ← ofExcept (required (inputs[group]?.bind (·.head?))
    (.unsatisfied pc "container input is absent"))
  let layout ← lookup (·.containerLayout container.ty)
    (.unsatisfied pc "container input has no layout")
  ofExcept (containerPosition pc key layout)

def containerElementFromSlot (role : OperandRole) (key : Bool) : LinkM (List LinkedStackValue) := do
  let slot ← ofExcept (operandWord instruction role pc)
  let ty ← ofExcept (required context.frame.slotTypes[slot]?
    (.unsatisfied pc s!"container slot {slot} is absent"))
  let layout ← lookup (·.containerLayout ty) (.unsatisfied pc "container slot has no layout")
  ofExcept (containerPosition pc key layout)

def containerFromBuilder (inputs : List (List LinkedStackValue)) (builderInput : Nat) :
    Except LinkError (List LinkedStackValue) := do
  let builder ← required (inputs[builderInput]?.bind (·.head?))
    (.unsatisfied pc "container builder input is absent")
  .ok [builder]

/-- A resume site that belongs to this instruction of this function. -/
def exactResumeSite (expected : Opcode) : Except LinkError LinkedResumeSite := do
  if instruction.opcode ≠ expected then
    .error (.unsatisfied pc
      s!"{expected.name} value authority cannot be used by opcode {instruction.opcode.name}")
  else
    let ordinal ← required ((contractForOpcode expected).operandPosition .resumeRef)
      (.unsatisfied pc s!"{expected.name} has no resume operand")
    match instruction.target ordinal with
    | some (.resumeSite index) =>
      let site ← required context.resumeSites[index]?
        (.unsatisfied pc s!"resolved resume site {index} is absent")
      let function ← required context.functionIndex (.unavailable pc)
      if site.function ≠ function then
        .error (.unsatisfied pc
          s!"resume site {index} belongs to function {site.function}, expected {function}")
      else
        let position ← required (context.function.headerPcs.findIdx? (· = instruction.artifactPc))
          (.unsatisfied pc
            s!"instruction pc {instruction.artifactPc} is absent from its function headers")
        if site.site ≠ position then
          .error (.unsatisfied pc
            s!"resume site {index} belongs to instruction {site.site}, expected {position}")
        else .ok site
    | _ => .error (.unsatisfied pc s!"{expected.name} has no exact resolved resume site")

def streamNextItem : Except LinkError (List LinkedStackValue) := do
  let site ← exactResumeSite context instruction pc .streamNext
  match site.resultTypes, site.resultPlans with
  | [ty], [plan] => .ok [⟨ty, plan⟩]
  | _, _ =>
    .error (.unsatisfied pc "StreamNext resume site must carry exactly one result type and plan")

def functionStreamItem : LinkM (List LinkedStackValue) := do
  let site ← ofExcept (exactResumeSite context instruction pc .emitStream)
  let index ← ofExcept (required site.emitStreamItemShape
    (.unsatisfied pc "EmitStream resume site has no exact item shape"))
  let shape ← lookup (fun linker => linker.shapes.rows[index]?.filter fun shape =>
    shape.index = index)
    (.unsatisfied pc s!"EmitStream item shape {index} is absent")
  pure [⟨shape.nominalType, shape.plan⟩]

/-- The interface that a synthetic callback implements. -/
def callbackInterface (role : OperandRole) : Except LinkError String := do
  let index ← operandWord instruction role pc
  let relocation ← required context.function.relocations[index]?
    (.unsatisfied pc "callback relocation is absent")
  match relocation with
  | .syntheticCallbackRef functionKey =>
    let table ← required ((context.dispatchTables.syntheticCallbackIndex.get? functionKey).bind
      fun index => context.dispatchTables.syntheticCallbacks[index]?)
      (.unsatisfied pc "synthetic callback target is absent")
    let table ← required context.dispatchTables.interfaceTables[table]?
      (.unsatisfied pc "callback interface table is absent")
    .ok table.interface
  | .other => .error (.unsatisfied pc "callback target is not synthetic")

def mapBuilderValue (keyRole valueRole : OperandRole) : LinkM (List LinkedStackValue) := do
  let key ← ofExcept (operandWord instruction keyRole pc)
  let value ← ofExcept (operandWord instruction valueRole pc)
  let keyIndex ← context.interning.internPoolType key
  let valueIndex ← context.interning.internPoolType value
  let keyType ← lookup (·.linkedTypeRef keyIndex) (.unsatisfied pc "map key type is absent")
  let valueType ← lookup (·.linkedTypeRef valueIndex) (.unsatisfied pc "map value type is absent")
  internedValue context pc (.builtin "Map" [keyType, valueType])

def arrayBuilderValue (role : OperandRole) : LinkM (List LinkedStackValue) := do
  let entry ← ofExcept (operandWord instruction role pc)
  let element ← context.interning.internPoolType entry
  let elementType ← lookup (·.linkedTypeRef element)
    (.unsatisfied pc "container element type is absent")
  internedValue context pc (.builtin "Array" [elementType])

def representationPayloadValue (role : OperandRole) : LinkM (List LinkedStackValue) := do
  let entry ← ofExcept (operandWord instruction role pc)
  let ty ← context.interning.internPoolType entry
  let concrete ← lookup (·.linkedTypeRef ty) (.unsatisfied pc "representation type is absent")
  let payload ← ofExcept (context.interning.representationPayload concrete)
  internedValue context pc payload

def constantValue (role : OperandRole) : Except LinkError (List LinkedStackValue) := do
  let constant ← constantTarget instruction role pc
  let row ← required (context.constants[constant]?.filter fun row => row.index = constant)
    (.unsatisfied pc s!"constant target {constant} is out of bounds")
  .ok [⟨row.ty, row.plan⟩]

def interfaceReceiverValue (role : OperandRole) : LinkM (List LinkedStackValue) := do
  let table ← ofExcept (interfaceTable context instruction role pc)
  match table.kind with
  | .locally concreteType _ =>
    let value ← valueWithLinkedPlan pc concreteType
    pure [value]
  | _ => fail (.unsatisfied pc "interface receiver requires a local interface table")

def callbackCaptureValues (role : OperandRole) : LinkM (List LinkedStackValue) := do
  let entry ← ofExcept (operandWord instruction role pc)
  let row ← context.interning.internCallbackCaptureLayout entry
  lookup (·.callbackCaptureLayouts.rows[row]?) (.unsatisfied pc "callback capture layout is absent")

def shapeFieldValue (shapeRole ordinalRole : OperandRole) : LinkM (List LinkedStackValue) := do
  let entry ← ofExcept (operandWord instruction shapeRole pc)
  let row ← context.interning.internPoolShape entry
  let ordinal ← ofExcept (operandWord instruction ordinalRole pc)
  let field ← lookup (fun linker => linker.shapes.rows[row]?.bind fun shape =>
    shape.fields[ordinal]?)
    (.unsatisfied pc s!"shape field {ordinal} is absent")
  pure [field]

def selectorPathValues (role : OperandRole) : LinkM (List LinkedStackValue) := do
  let path ← writablePath context instruction pc role
  let values ← collect (selectorValues context pc) path.segments
  pure values.flatten

/-- The values of a source, given the stack inputs read so far. -/
def sourceValues (inputs : List (List LinkedStackValue)) :
    ValueSource → LinkM (List LinkedStackValue)
  | .bool => scalarValue context pc "bool"
  | .number => scalarValue context pc "number"
  | .collectionIndex => scalarValue context pc "number"
  | .constant operand => ofExcept (constantValue context instruction pc operand)
  | .slot operand =>
    ofExcept (slotValues context instruction pc operand
      (fun slot => s!"frame slot {slot} is out of bounds")
      fun slot => s!"frame slot plan {slot} is out of bounds")
  | .stackInput group =>
    ofExcept (required inputs[group]?
      (.unsatisfied pc s!"typed transition references missing stack input group {group}"))
  | .targetParameters target => ofExcept (targetParameterValues context instruction target pc)
  | .targetResults target => ofExcept (targetResultValues context instruction target pc)
  | .functionResults => pure (valuesOf context.frame.resultTypes context.frame.resultPlans)
  | .interfaceReceiver interface => interfaceReceiverValue context instruction pc interface
  | .interfaceCarrier interface => do
    let table ← ofExcept (interfaceTable context instruction interface pc)
    internedValue context pc (.nominal (.anyInterface table.interface))
  | .callbackCaptures layout => callbackCaptureValues context instruction pc layout
  | .callbackClosure target => do
    let interface ← ofExcept (callbackInterface context instruction pc target)
    internedValue context pc (.nominal (.anyInterface interface))
  | .shapeFields shape => do
    let row ← poolShape context instruction pc shape
    pure row.fields
  | .shapeValue shape => do
    let row ← poolShape context instruction pc shape
    pure [⟨row.nominalType, row.plan⟩]
  | .shapeField shape ordinal => shapeFieldValue context instruction pc shape ordinal
  | .writablePathSelectors path => selectorPathValues context instruction pc path
  | .writablePathLeaf path => do
    let entry ← writablePath context instruction pc path
    let value ← valueWithLinkedPlan pc entry.leafType
    pure [value]
  | .representationPayload ty => representationPayloadValue context instruction pc ty
  | .representationValue ty => poolTypeValue context instruction pc ty
  | .arrayBuilder elementType => arrayBuilderValue context instruction pc elementType
  | .arrayValue =>
      fail (.unsatisfied pc "input-only value source arrayValue cannot establish a stack output")
  | .mapValue =>
      fail (.unsatisfied pc "input-only value source mapValue cannot establish a stack output")
  | .arrayFromBuilder builderInput => ofExcept (containerFromBuilder pc inputs builderInput)
  | .arrayElement arrayInput => containerElement pc inputs arrayInput false
  | .arrayElementFromSlot operand => containerElementFromSlot context instruction pc operand false
  | .mapBuilder keyType valueType => mapBuilderValue context instruction pc keyType valueType
  | .mapFromBuilder builderInput => ofExcept (containerFromBuilder pc inputs builderInput)
  | .mapKey mapInput => containerElement pc inputs mapInput true
  | .mapElement mapInput => containerElement pc inputs mapInput false
  | .mapKeyFromSlot operand => containerElementFromSlot context instruction pc operand true
  | .mapElementFromSlot operand => containerElementFromSlot context instruction pc operand false
  | .streamItem _ => ofExcept (streamNextItem context instruction pc)
  | .functionStreamItem => functionStreamItem context instruction pc
  | .exceptionPayload operand => poolTypeValue context instruction pc operand
  | .exceptionEnvelope operand =>
    ofExcept (slotValues context instruction pc operand
      (fun slot => s!"exception envelope slot {slot} is absent")
      fun slot => s!"exception envelope slot plan {slot} is absent")
  | .anyStackValue =>
    fail (.unsatisfied pc "typed output source anyStackValue cannot establish a concrete value")
  | .taggedValue =>
      fail (.unsatisfied pc "typed output source taggedValue cannot establish a concrete value")
  | .comparablePair =>
    fail (.unsatisfied pc "typed output source comparablePair cannot establish a concrete value")
  | .inOutCallInputs _ _ => fail (.unavailable pc)

end

/-! ## Matching -/

mutual

/-- A type that is a branch of a union, at any depth. -/
def unionContainsLeaf (leaf : TypeRefIr) : TypeRefIr → Bool
  | .union items => anyContainsLeaf leaf items
  | other => other = leaf

def anyContainsLeaf (leaf : TypeRefIr) : List TypeRefIr → Bool
  | [] => false
  | item :: rest => unionContainsLeaf leaf item || anyContainsLeaf leaf rest

end

def unionBranchAssignableRefs (expected actual : TypeRefIr) : Bool :=
  match expected with
  | .union items => anyContainsLeaf actual items
  | _ => false

namespace TypeLinker

variable (linker : TypeLinker)

/-- A branch of an anonymous union may stand for the union when the plans agree. -/
def unionBranchValueMatches (expected actual : LinkedStackValue) : Bool :=
  match linker.linkedTypeRef expected.ty, linker.linkedTypeRef actual.ty with
  | some expectedRef, some actualRef =>
    unionBranchAssignableRefs expectedRef actualRef && expected.plan = actual.plan
  | _, _ => false

/-- The same concrete type and plan, each the one of its row. -/
def exactLinkedValueFactsMatch (expected : LinkedStackValue) (expectedType : TypeRefIr)
    (expectedRowPlan : LinkedValueTransferPlan) (actual : LinkedStackValue) (actualType : TypeRefIr)
    (actualRowPlan : LinkedValueTransferPlan) : Bool :=
  expected.plan = expectedRowPlan && actual.plan = actualRowPlan && expectedType = actualType &&
    expected.plan = actual.plan

def linkedValueMatches (expected actual : LinkedStackValue) : Bool :=
  match linker.linkedTypeRef expected.ty, linker.linkedTypeRef actual.ty,
    linker.linkedTypePlan expected.ty,
    linker.linkedTypePlan actual.ty with
  | some expectedType, some actualType, some expectedRowPlan, some actualRowPlan =>
    exactLinkedValueFactsMatch expected expectedType expectedRowPlan actual actualType
      actualRowPlan ||
      linker.unionBranchValueMatches expected actual
  | _, _, _, _ => false

def linkedValuesMatch : List LinkedStackValue → List LinkedStackValue → Bool
  | [], [] => true
  | expected :: rest, actual :: others =>
    linker.linkedValueMatches expected actual && linkedValuesMatch rest others
  | _, _ => false

end TypeLinker

/-- Go on only if the linker's rows satisfy a check. -/
def check (holds : TypeLinker → Bool) (error : TypeLinker → LinkError) : LinkM Unit :=
  read fun linker => if holds linker then .ok () else .error (error linker)

def isExactContainerType (ty : TypeRefIr) (expectedName : String) (expectedArity : Nat) : Bool :=
  match ty with
  | .builtin name args => name = expectedName && args.length = expectedArity
  | _ => false

def validateExactContainerValue (pc : Option Nat) (actual : List LinkedStackValue)
    (expectedName : String) (expectedArity : Nat) : LinkM Unit :=
  match actual with
  | [value] => do
    let ty ← lookup (·.linkedTypeRef value.ty)
      (.unsatisfied pc s!"linked container type {value.ty} is absent")
    let plan ← lookup (·.linkedTypePlan value.ty) (.unavailable pc)
    if isExactContainerType ty expectedName expectedArity then
      if value.plan = plan then pure ()
      else fail (.unsatisfied pc
        s!"linked {expectedName} value {value.ty} does not carry its exact type-row plan")
    else fail (.unsatisfied pc
      s!"linked stack value {value.ty} is not exact {expectedName}<{expectedArity}>")
  | _ => fail (.unsatisfied pc
      s!"{expectedName} input requires exactly one linked stack value, found {actual.length}")

/-- One expected value stands for all of a group. -/
def spread (expected actual : List LinkedStackValue) : List LinkedStackValue :=
  match expected with
  | [value] => if 1 < actual.length then actual.map fun _ => value else expected
  | _ => expected

def validateInputGroup (context : StackMapContext) (instruction : LinkedInstruction)
    (pc : Option Nat) (source : ValueSource) (actual : List LinkedStackValue)
    (inputs : List (List LinkedStackValue)) : LinkM Unit :=
  match source with
  | .anyStackValue => pure ()
  | .taggedValue => pure ()
  | .arrayValue => validateExactContainerValue pc actual "Array" 1
  | .mapValue => validateExactContainerValue pc actual "Map" 2
  | .comparablePair =>
    match actual with
    | [left, right] => check (·.linkedValueMatches left right) fun _ =>
        .unsatisfied pc "comparison inputs do not have one exact concrete type and plan"
    | _ => fail (.unsatisfied pc "comparison inputs do not have one exact concrete type and plan")
  | source => do
    let expected ← sourceValues context instruction pc inputs source
    check (·.linkedValuesMatch (spread expected actual) actual) fun _ =>
      .unsatisfied pc s!"typed stack input {source.name} differs from its exact concrete source"

end Skiff.Bytecode
