import Mathlib.Tactic.Common

/-!
# The instruction set

The contract table of the bytecode instructions: what an instruction takes from the operand
stack and leaves there, what it does to the frame slots, where control goes next and whether
it can raise. The rows keep the fields that the stack map and the dispatch loop read.
-/

namespace Skiff.Bytecode

/-- What an operand word means. -/
inductive OperandRole where
  | sourceSlot | destinationSlot | slot | branchTarget | switchTable | activeRegion
  | localTarget | serviceTarget | actorTarget | interfaceTarget | callbackTarget | hostTarget
  | intrinsicTarget | argCount | inputCount | resultCount | selectorCount | failureKind
  | captureCount | fieldCount | methodOrdinal | fieldOrdinal | constantRef | typeRef
  | elementTypeRef | keyTypeRef | valueTypeRef | shapeRef | writablePathRef
  | captureLayoutRef | resumeRef | callLoanLayout
deriving DecidableEq

def OperandRole.name : OperandRole → String
  | sourceSlot => "sourceSlot"
  | destinationSlot => "destinationSlot"
  | slot => "slot"
  | branchTarget => "branchTarget"
  | switchTable => "switchTable"
  | activeRegion => "activeRegion"
  | localTarget => "localTarget"
  | serviceTarget => "serviceTarget"
  | actorTarget => "actorTarget"
  | interfaceTarget => "interfaceTarget"
  | callbackTarget => "callbackTarget"
  | hostTarget => "hostTarget"
  | intrinsicTarget => "intrinsicTarget"
  | argCount => "argCount"
  | inputCount => "inputCount"
  | resultCount => "resultCount"
  | selectorCount => "selectorCount"
  | failureKind => "failureKind"
  | captureCount => "captureCount"
  | fieldCount => "fieldCount"
  | methodOrdinal => "methodOrdinal"
  | fieldOrdinal => "fieldOrdinal"
  | constantRef => "constantRef"
  | typeRef => "typeRef"
  | elementTypeRef => "elementTypeRef"
  | keyTypeRef => "keyTypeRef"
  | valueTypeRef => "valueTypeRef"
  | shapeRef => "shapeRef"
  | writablePathRef => "writablePathRef"
  | captureLayoutRef => "captureLayoutRef"
  | resumeRef => "resumeRef"
  | callLoanLayout => "callLoanLayout"

/-- What the deployment linker makes of an operand word. -/
inductive LinkedOperandKind where
  | immediate | instruction | frameSlot | switchTable | activeRegion | callLoanLayout | function
  | serviceOperation | actorMethod | interfaceTable | syntheticCallback | hostEffectAdapter
  | intrinsic | constant | type | shape | writablePath | callbackCaptureLayout | resumeSite
deriving DecidableEq

structure OperandSpec where
  role : OperandRole
  linkedKind : LinkedOperandKind

/-- How many values a stack group has. -/
inductive Arity where
  | fixed (count : Nat)
  | declared (role : OperandRole)
  | functionResultCount

/-- Where the type and the lifecycle plan of a value come from. -/
inductive ValueSource where
  | anyStackValue | bool | number | collectionIndex | taggedValue
  | constant (operand : OperandRole)
  | slot (operand : OperandRole)
  | stackInput (group : Nat)
  | targetParameters (target : OperandRole)
  | inOutCallInputs (target layout : OperandRole)
  | targetResults (target : OperandRole)
  | functionResults
  | interfaceReceiver (interface : OperandRole)
  | interfaceCarrier (interface : OperandRole)
  | callbackCaptures (layout : OperandRole)
  | callbackClosure (target : OperandRole)
  | shapeFields (shape : OperandRole)
  | shapeValue (shape : OperandRole)
  | shapeField (shape ordinal : OperandRole)
  | writablePathSelectors (path : OperandRole)
  | writablePathLeaf (path : OperandRole)
  | representationPayload (ty : OperandRole)
  | representationValue (ty : OperandRole)
  | arrayBuilder (elementType : OperandRole)
  | arrayValue
  | arrayFromBuilder (builderInput : Nat)
  | arrayElement (arrayInput : Nat)
  | arrayElementFromSlot (operand : OperandRole)
  | mapBuilder (keyType valueType : OperandRole)
  | mapValue
  | mapFromBuilder (builderInput : Nat)
  | mapKey (mapInput : Nat)
  | mapElement (mapInput : Nat)
  | mapKeyFromSlot (operand : OperandRole)
  | mapElementFromSlot (operand : OperandRole)
  | streamItem (endpointSlot : OperandRole)
  | functionStreamItem
  | exceptionPayload (operand : OperandRole)
  | exceptionEnvelope (operand : OperandRole)
  | comparablePair

def ValueSource.name : ValueSource → String
  | anyStackValue => "anyStackValue"
  | bool => "bool"
  | number => "number"
  | collectionIndex => "collectionIndex"
  | taggedValue => "taggedValue"
  | constant _ => "constant"
  | slot _ => "slot"
  | stackInput _ => "stackInput"
  | targetParameters _ => "targetParameters"
  | inOutCallInputs _ _ => "inOutCallInputs"
  | targetResults _ => "targetResults"
  | functionResults => "functionResults"
  | interfaceReceiver _ => "interfaceReceiver"
  | interfaceCarrier _ => "interfaceCarrier"
  | callbackCaptures _ => "callbackCaptures"
  | callbackClosure _ => "callbackClosure"
  | shapeFields _ => "shapeFields"
  | shapeValue _ => "shapeValue"
  | shapeField _ _ => "shapeField"
  | writablePathSelectors _ => "writablePathSelectors"
  | writablePathLeaf _ => "writablePathLeaf"
  | representationPayload _ => "representationPayload"
  | representationValue _ => "representationValue"
  | arrayBuilder _ => "arrayBuilder"
  | arrayValue => "arrayValue"
  | arrayFromBuilder _ => "arrayFromBuilder"
  | arrayElement _ => "arrayElement"
  | arrayElementFromSlot _ => "arrayElementFromSlot"
  | mapBuilder _ _ => "mapBuilder"
  | mapValue => "mapValue"
  | mapFromBuilder _ => "mapFromBuilder"
  | mapKey _ => "mapKey"
  | mapElement _ => "mapElement"
  | mapKeyFromSlot _ => "mapKeyFromSlot"
  | mapElementFromSlot _ => "mapElementFromSlot"
  | streamItem _ => "streamItem"
  | functionStreamItem => "functionStreamItem"
  | exceptionPayload _ => "exceptionPayload"
  | exceptionEnvelope _ => "exceptionEnvelope"
  | comparablePair => "comparablePair"

/-- Values of one source, bottom to top. -/
structure TypedStackGroup where
  arity : Arity
  value : ValueSource

inductive SlotAction where
  | read | readShare | take | write | drop | mutate
deriving DecidableEq

def SlotAction.name : SlotAction → String
  | read => "read"
  | readShare => "readShare"
  | take => "take"
  | write => "write"
  | drop => "drop"
  | mutate => "mutate"

structure SlotEffectContract where
  operand : OperandRole
  action : SlotAction
  value : ValueSource

inductive SlotContract where
  | none
  | effects (effects : List SlotEffectContract)
  | inOutCallLoans (target layout : OperandRole)

inductive ControlContract where
  | fallthrough
  | jump (target : OperandRole)
  | branch (target : OperandRole) (when : Bool)
  | switch (table : OperandRole)
  | functionReturn
  | tailCall
  | raise
  | rethrow

inductive ExceptionBehavior where
  | none
  | propagateTarget (target : OperandRole)
  | raiseAtCurrentSite
  | throwValue (operand : OperandRole)
  | preserveOriginal (operand : OperandRole)
deriving DecidableEq

structure OpcodeContract where
  mnemonic : String
  operands : List OperandSpec := []
  stackIn : List TypedStackGroup := []
  stackOut : List TypedStackGroup := []
  slots : SlotContract := .none
  control : ControlContract := .fallthrough
  exception : ExceptionBehavior := .none

inductive Opcode where
  | const | copySlot | moveSlot | storeSlot | drop | dup | loadSlot | takeSlot | pop
  | jump | jumpIfTrue | jumpIfFalse | switchTag | budgetCheckpoint | trap
  | callLocal | tailCallLocal | callService | callActor | callInterface | functionReturn
      | callLocalInOut
  | interfaceBoxLocal | interfaceBoxRemote | makeCallback | invokeCallback
  | newRecord | getDenseField | setWritablePath | representationWrap | takeDenseField
  | newArrayBuilder | arrayBuilderPush | freezeArray | arrayGet | arrayPushOwned
  | newMapBuilder | mapBuilderPut | freezeMap | mapGet | mapPutOwned | arrayLen | mapLen
      | mapEntryAt
  | streamNext | emitStream | throw | rethrow | enterRegion | leaveRegion
  | invokeHost | invokeIntrinsic
  | not | negate | add | subtract | multiply | divide | equal | notEqual
  | lessThan | lessOrEqual | greaterThan | greaterOrEqual
deriving DecidableEq

/-- One effect on the slot that an operand names, by its own value. -/
def slotEffect (operand : OperandRole) (action : SlotAction) : SlotEffectContract :=
  ⟨operand, action, .slot operand⟩

/-- The arguments and results that a boundary call declares. -/
def boundaryCall (mnemonic : String) (target : OperandRole) (kind : LinkedOperandKind) :
    OpcodeContract where
  mnemonic := mnemonic
  operands :=
    [⟨target, kind⟩, ⟨.argCount, .immediate⟩, ⟨.resultCount, .immediate⟩, ⟨.resumeRef, .resumeSite⟩]
  stackIn := [⟨.declared .argCount, .targetParameters target⟩]
  stackOut := [⟨.declared .resultCount, .targetResults target⟩]
  exception := .raiseAtCurrentSite

/-- A call through an interface takes the carrier below its arguments. -/
def interfaceCall (mnemonic : String) : OpcodeContract where
  mnemonic := mnemonic
  operands :=
    [⟨.interfaceTarget, .interfaceTable⟩, ⟨.methodOrdinal, .immediate⟩, ⟨.argCount, .immediate⟩,
    ⟨.resultCount, .immediate⟩, ⟨.resumeRef, .resumeSite⟩]
  stackIn := [⟨.fixed 1, .interfaceCarrier .interfaceTarget⟩,
    ⟨.declared .argCount, .targetParameters .interfaceTarget⟩]
  stackOut := [⟨.declared .resultCount, .targetResults .interfaceTarget⟩]
  exception := .raiseAtCurrentSite

/-- `inputs` values of one source give one value of another. -/
def pureOperation (mnemonic : String) (inputs : Nat) (input output : ValueSource) :
    OpcodeContract where
  mnemonic := mnemonic
  stackIn := [⟨.fixed inputs, input⟩]
  stackOut := [⟨.fixed 1, output⟩]

def fieldRead (mnemonic : String) : OpcodeContract where
  mnemonic := mnemonic
  operands := [⟨.shapeRef, .shape⟩, ⟨.fieldOrdinal, .immediate⟩]
  stackIn := [⟨.fixed 1, .shapeValue .shapeRef⟩]
  stackOut := [⟨.fixed 1, .shapeField .shapeRef .fieldOrdinal⟩]

def conditionalJump (mnemonic : String) (when : Bool) : OpcodeContract where
  mnemonic := mnemonic
  operands := [⟨.branchTarget, .instruction⟩]
  stackIn := [⟨.fixed 1, .bool⟩]
  control := .branch .branchTarget when

/-- The contract table. -/
def contractForOpcode : Opcode → OpcodeContract
  | .const => {
      mnemonic := "const"
      operands := [⟨.constantRef, .constant⟩]
      stackOut := [⟨.fixed 1, .constant .constantRef⟩] }
  | .copySlot => {
      mnemonic := "copy_slot"
      operands := [⟨.sourceSlot, .frameSlot⟩, ⟨.destinationSlot, .frameSlot⟩]
      slots := .effects
        [slotEffect .sourceSlot .readShare, ⟨.destinationSlot, .write, .slot .sourceSlot⟩] }
  | .moveSlot => {
      mnemonic := "move_slot"
      operands := [⟨.sourceSlot, .frameSlot⟩, ⟨.destinationSlot, .frameSlot⟩]
      slots :=
        .effects [slotEffect .sourceSlot .take, ⟨.destinationSlot, .write, .slot .sourceSlot⟩] }
  | .storeSlot => {
      mnemonic := "store_slot"
      operands := [⟨.destinationSlot, .frameSlot⟩]
      stackIn := [⟨.fixed 1, .anyStackValue⟩]
      slots := .effects [⟨.destinationSlot, .write, .stackInput 0⟩] }
  | .drop => {
      mnemonic := "drop"
      operands := [⟨.slot, .frameSlot⟩]
      slots := .effects [slotEffect .slot .drop] }
  | .dup => {
      mnemonic := "dup"
      stackIn := [⟨.fixed 1, .anyStackValue⟩]
      stackOut := [⟨.fixed 2, .stackInput 0⟩] }
  | .loadSlot => {
      mnemonic := "load_slot"
      operands := [⟨.sourceSlot, .frameSlot⟩]
      stackOut := [⟨.fixed 1, .slot .sourceSlot⟩]
      slots := .effects [slotEffect .sourceSlot .readShare] }
  | .takeSlot => {
      mnemonic := "take_slot"
      operands := [⟨.sourceSlot, .frameSlot⟩]
      stackOut := [⟨.fixed 1, .slot .sourceSlot⟩]
      slots := .effects [slotEffect .sourceSlot .take] }
  | .pop => { mnemonic := "pop", stackIn := [⟨.fixed 1, .anyStackValue⟩] }
  | .jump => {
      mnemonic := "jump"
      operands := [⟨.branchTarget, .instruction⟩]
      control := .jump .branchTarget }
  | .jumpIfTrue => conditionalJump "jump_if_true" true
  | .jumpIfFalse => conditionalJump "jump_if_false" false
  | .switchTag => {
      mnemonic := "switch_tag"
      operands := [⟨.switchTable, .switchTable⟩]
      stackIn := [⟨.fixed 1, .taggedValue⟩]
      control := .switch .switchTable }
  | .budgetCheckpoint => { mnemonic := "budget_checkpoint" }
  | .trap => {
      mnemonic := "trap"
      operands := [⟨.failureKind, .immediate⟩]
      stackIn := [⟨.fixed 1, .bool⟩] }
  | .callLocal => {
      mnemonic := "call_local"
      operands := [⟨.localTarget, .function⟩, ⟨.argCount, .immediate⟩, ⟨.resultCount, .immediate⟩]
      stackIn := [⟨.declared .argCount, .targetParameters .localTarget⟩]
      stackOut := [⟨.declared .resultCount, .targetResults .localTarget⟩]
      exception := .propagateTarget .localTarget }
  | .tailCallLocal => {
      mnemonic := "tail_call_local"
      operands := [⟨.localTarget, .function⟩, ⟨.argCount, .immediate⟩]
      stackIn := [⟨.declared .argCount, .targetParameters .localTarget⟩]
      control := .tailCall
      exception := .propagateTarget .localTarget }
  | .callService => boundaryCall "call_service" .serviceTarget .serviceOperation
  | .callActor => boundaryCall "call_actor" .actorTarget .actorMethod
  | .callInterface => interfaceCall "call_interface"
  | .functionReturn => {
      mnemonic := "return"
      stackIn := [⟨.functionResultCount, .functionResults⟩]
      control := .functionReturn }
  | .callLocalInOut => {
      mnemonic := "call_local_inout"
      operands := [⟨.localTarget, .function⟩, ⟨.inputCount, .immediate⟩, ⟨.resultCount, .immediate⟩,
        ⟨.callLoanLayout, .callLoanLayout⟩]
      stackIn := [⟨.declared .inputCount, .inOutCallInputs .localTarget .callLoanLayout⟩]
      stackOut := [⟨.declared .resultCount, .targetResults .localTarget⟩]
      slots := .inOutCallLoans .localTarget .callLoanLayout
      exception := .propagateTarget .localTarget }
  | .interfaceBoxLocal => {
      mnemonic := "interface_box_local"
      operands := [⟨.interfaceTarget, .interfaceTable⟩]
      stackIn := [⟨.fixed 1, .interfaceReceiver .interfaceTarget⟩]
      stackOut := [⟨.fixed 1, .interfaceCarrier .interfaceTarget⟩] }
  | .interfaceBoxRemote => {
      mnemonic := "interface_box_remote"
      operands := [⟨.interfaceTarget, .interfaceTable⟩]
      stackOut := [⟨.fixed 1, .interfaceCarrier .interfaceTarget⟩] }
  | .makeCallback => {
      mnemonic := "make_callback"
      operands :=
        [⟨.callbackTarget, .syntheticCallback⟩, ⟨.captureLayoutRef, .callbackCaptureLayout⟩,
        ⟨.captureCount, .immediate⟩]
      stackIn := [⟨.declared .captureCount, .callbackCaptures .captureLayoutRef⟩]
      stackOut := [⟨.fixed 1, .callbackClosure .callbackTarget⟩] }
  | .invokeCallback => interfaceCall "invoke_callback"
  | .newRecord => {
      mnemonic := "new_record"
      operands := [⟨.shapeRef, .shape⟩, ⟨.fieldCount, .immediate⟩]
      stackIn := [⟨.declared .fieldCount, .shapeFields .shapeRef⟩]
      stackOut := [⟨.fixed 1, .shapeValue .shapeRef⟩] }
  | .getDenseField => fieldRead "get_dense_field"
  | .setWritablePath => {
      mnemonic := "set_writable_path"
      operands :=
        [⟨.slot, .frameSlot⟩, ⟨.writablePathRef, .writablePath⟩, ⟨.selectorCount, .immediate⟩]
      stackIn := [⟨.declared .selectorCount, .writablePathSelectors .writablePathRef⟩,
        ⟨.fixed 1, .writablePathLeaf .writablePathRef⟩]
      slots := .effects [slotEffect .slot .mutate] }
  | .representationWrap => {
      mnemonic := "representation_wrap"
      operands := [⟨.typeRef, .type⟩]
      stackIn := [⟨.fixed 1, .representationPayload .typeRef⟩]
      stackOut := [⟨.fixed 1, .representationValue .typeRef⟩] }
  | .takeDenseField => fieldRead "take_dense_field"
  | .newArrayBuilder => {
      mnemonic := "new_array_builder"
      operands := [⟨.elementTypeRef, .type⟩]
      stackOut := [⟨.fixed 1, .arrayBuilder .elementTypeRef⟩] }
  | .arrayBuilderPush => {
      mnemonic := "array_builder_push"
      stackIn := [⟨.fixed 1, .anyStackValue⟩, ⟨.fixed 1, .arrayElement 0⟩]
      stackOut := [⟨.fixed 1, .stackInput 0⟩] }
  | .freezeArray => pureOperation "freeze_array" 1 .anyStackValue (.arrayFromBuilder 0)
  | .arrayGet => {
      mnemonic := "array_get"
      stackIn := [⟨.fixed 1, .arrayValue⟩, ⟨.fixed 1, .collectionIndex⟩]
      stackOut := [⟨.fixed 1, .arrayElement 0⟩] }
  | .arrayPushOwned => {
      mnemonic := "array_push_owned"
      operands := [⟨.slot, .frameSlot⟩]
      stackIn := [⟨.fixed 1, .arrayElementFromSlot .slot⟩]
      slots := .effects [slotEffect .slot .mutate] }
  | .newMapBuilder => {
      mnemonic := "new_map_builder"
      operands := [⟨.keyTypeRef, .type⟩, ⟨.valueTypeRef, .type⟩]
      stackOut := [⟨.fixed 1, .mapBuilder .keyTypeRef .valueTypeRef⟩] }
  | .mapBuilderPut => {
      mnemonic := "map_builder_put"
      stackIn := [⟨.fixed 1, .anyStackValue⟩, ⟨.fixed 1, .mapKey 0⟩, ⟨.fixed 1, .mapElement 0⟩]
      stackOut := [⟨.fixed 1, .stackInput 0⟩] }
  | .freezeMap => pureOperation "freeze_map" 1 .anyStackValue (.mapFromBuilder 0)
  | .mapGet => {
      mnemonic := "map_get"
      stackIn := [⟨.fixed 1, .mapValue⟩, ⟨.fixed 1, .mapKey 0⟩]
      stackOut := [⟨.fixed 1, .mapElement 0⟩] }
  | .mapPutOwned => {
      mnemonic := "map_put_owned"
      operands := [⟨.slot, .frameSlot⟩]
      stackIn := [⟨.fixed 1, .mapKeyFromSlot .slot⟩, ⟨.fixed 1, .mapElementFromSlot .slot⟩]
      slots := .effects [slotEffect .slot .mutate] }
  | .arrayLen => pureOperation "array_len" 1 .arrayValue .number
  | .mapLen => pureOperation "map_len" 1 .mapValue .number
  | .mapEntryAt => {
      mnemonic := "map_entry_at"
      stackIn := [⟨.fixed 1, .mapValue⟩, ⟨.fixed 1, .collectionIndex⟩]
      stackOut := [⟨.fixed 1, .mapKey 0⟩, ⟨.fixed 1, .mapElement 0⟩] }
  | .streamNext => {
      mnemonic := "stream_next"
      operands := [⟨.slot, .frameSlot⟩, ⟨.resumeRef, .resumeSite⟩]
      stackOut := [⟨.fixed 1, .streamItem .slot⟩]
      slots := .effects [slotEffect .slot .mutate]
      exception := .raiseAtCurrentSite }
  | .emitStream => {
      mnemonic := "emit_stream"
      operands := [⟨.resumeRef, .resumeSite⟩]
      stackIn := [⟨.fixed 1, .functionStreamItem⟩]
      exception := .raiseAtCurrentSite }
  | .throw => {
      mnemonic := "throw"
      operands := [⟨.typeRef, .type⟩]
      stackIn := [⟨.fixed 1, .exceptionPayload .typeRef⟩]
      control := .raise
      exception := .throwValue .typeRef }
  | .rethrow => {
      mnemonic := "rethrow"
      operands := [⟨.sourceSlot, .frameSlot⟩]
      slots := .effects [⟨.sourceSlot, .read, .exceptionEnvelope .sourceSlot⟩]
      control := .rethrow
      exception := .preserveOriginal .sourceSlot }
  | .enterRegion => { mnemonic := "enter_region", operands := [⟨.activeRegion, .activeRegion⟩] }
  | .leaveRegion => { mnemonic := "leave_region", operands := [⟨.activeRegion, .activeRegion⟩] }
  | .invokeHost => boundaryCall "invoke_host" .hostTarget .hostEffectAdapter
  | .invokeIntrinsic => {
      mnemonic := "invoke_intrinsic"
      operands :=
        [⟨.intrinsicTarget, .intrinsic⟩, ⟨.argCount, .immediate⟩, ⟨.resultCount, .immediate⟩]
      stackIn := [⟨.declared .argCount, .targetParameters .intrinsicTarget⟩]
      stackOut := [⟨.declared .resultCount, .targetResults .intrinsicTarget⟩]
      exception := .raiseAtCurrentSite }
  | .not => pureOperation "not" 1 .bool .bool
  | .negate => pureOperation "negate" 1 .number .number
  | .add => pureOperation "add" 2 .number .number
  | .subtract => pureOperation "subtract" 2 .number .number
  | .multiply => pureOperation "multiply" 2 .number .number
  | .divide => pureOperation "divide" 2 .number .number
  | .equal => pureOperation "equal" 2 .comparablePair .bool
  | .notEqual => pureOperation "not_equal" 2 .comparablePair .bool
  | .lessThan => pureOperation "less_than" 2 .number .bool
  | .lessOrEqual => pureOperation "less_or_equal" 2 .number .bool
  | .greaterThan => pureOperation "greater_than" 2 .number .bool
  | .greaterOrEqual => pureOperation "greater_or_equal" 2 .number .bool

def Opcode.name (opcode : Opcode) : String := (contractForOpcode opcode).mnemonic

namespace OpcodeContract

def operandPosition (contract : OpcodeContract) (role : OperandRole) : Option Nat :=
  contract.operands.findIdx? fun operand => operand.role = role

/-- The raw word of an operand. -/
def operandWord (contract : OpcodeContract) (role : OperandRole) (words : List Nat) : Option Nat :=
  (contract.operandPosition role).bind fun position => words[position]?

end OpcodeContract

end Skiff.Bytecode
