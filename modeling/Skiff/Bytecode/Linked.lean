import Mathlib.Data.String.Basic
import Skiff.Bytecode.Opcodes
import Skiff.Data.OrdMap

/-!
# Linked functions

The data that the deployment linker works on: value types and lifecycle plans, linked
instructions with their resolved operands, frame layouts and the tables that instructions
refer to. Rows of image tables are named by their index.

`LinkedInstruction` and `LinkedFrameLayout` carry the checks of their constructors.
-/

namespace Skiff.Bytecode

abbrev TypeIndex := Nat
abbrev ShapeIndex := Nat
abbrev FunctionIndex := Nat
abbrev InstructionIndex := Nat
abbrev FrameSlotIndex := Nat
abbrev ActiveRegionIndex := Nat
abbrev WritablePathIndex := Nat
abbrev ResumeSiteIndex := Nat

/-- References to named things, in canonical form. Only their identity is ever used. -/
inductive NominalRef where
  | packageSymbol (symbol : String)
  | anyInterface (interface : String)
  | other (canonical : String)
deriving DecidableEq

/-- A type expression. -/
inductive TypeRefIr where
  | builtin (name : String) (args : List TypeRefIr)
  | union (items : List TypeRefIr)
  | nominal (reference : NominalRef)

namespace TypeRefIr

mutual

protected def decEq : (a b : TypeRefIr) → Decidable (a = b)
  | .builtin name args, .builtin name' args' =>
    match String.decEq name name', TypeRefIr.decEqList args args' with
    | isTrue hname, isTrue hargs => isTrue (by rw [hname, hargs])
    | isFalse hname, _ => isFalse fun h => hname (TypeRefIr.builtin.inj h).1
    | _, isFalse hargs => isFalse fun h => hargs (TypeRefIr.builtin.inj h).2
  | .union items, .union items' =>
    match TypeRefIr.decEqList items items' with
    | isTrue hitems => isTrue (by rw [hitems])
    | isFalse hitems => isFalse fun h => hitems (TypeRefIr.union.inj h)
  | .nominal reference, .nominal reference' =>
    match instDecidableEqNominalRef reference reference' with
    | isTrue h => isTrue (by rw [h])
    | isFalse h => isFalse fun h' => h (TypeRefIr.nominal.inj h')
  | .builtin _ _, .union _ => isFalse fun h => nomatch h
  | .builtin _ _, .nominal _ => isFalse fun h => nomatch h
  | .union _, .builtin _ _ => isFalse fun h => nomatch h
  | .union _, .nominal _ => isFalse fun h => nomatch h
  | .nominal _, .builtin _ _ => isFalse fun h => nomatch h
  | .nominal _, .union _ => isFalse fun h => nomatch h

protected def decEqList : (a b : List TypeRefIr) → Decidable (a = b)
  | [], [] => isTrue rfl
  | [], _ :: _ => isFalse fun h => nomatch h
  | _ :: _, [] => isFalse fun h => nomatch h
  | a :: as, b :: bs =>
    match TypeRefIr.decEq a b, TypeRefIr.decEqList as bs with
    | isTrue ha, isTrue has => isTrue (by rw [ha, has])
    | isFalse ha, _ => isFalse fun h => ha (List.cons.inj h).1
    | _, isFalse has => isFalse fun h => has (List.cons.inj h).2

end

instance : DecidableEq TypeRefIr := TypeRefIr.decEq

end TypeRefIr

inductive LinkedValueDropPlan where
  | trivial
  | snapshotRelease
  | recursiveShape (shape : ShapeIndex)
  | nativeAdapter (adapter : Nat)
deriving DecidableEq

inductive LinkedResourceDropPlan where
  | resourceTableRelease
  | recursiveShape (shape : ShapeIndex)
  | nativeAdapter (adapter : Nat)
deriving DecidableEq

/-- How a value is copied, moved and dropped. -/
inductive LinkedValueTransferPlan where
  | snapshotShare (drop : LinkedValueDropPlan)
  | moveOnly (drop : LinkedValueDropPlan)
  | affineResource (drop : LinkedResourceDropPlan)
  | explicitCloneLease (cloneAdapter : Nat) (drop : LinkedResourceDropPlan)
deriving DecidableEq

/-- The type and plan of a value. -/
structure LinkedStackValue where
  ty : TypeIndex
  plan : LinkedValueTransferPlan
deriving DecidableEq

inductive LinkedSlotState where
  | uninitialized
  | moved
  | live (value : LinkedStackValue)
deriving DecidableEq

structure LinkedWritableLoanState where
  rootSlot : FrameSlotIndex
  path : WritablePathIndex
deriving DecidableEq

/-- The order of loans: by root slot, then by path. -/
def LinkedWritableLoanState.lt (a b : LinkedWritableLoanState) : Bool :=
  a.rootSlot < b.rootSlot || (a.rootSlot = b.rootSlot && a.path < b.path)

/-! ## Instructions -/

inductive LinkedInstructionTarget where
  | frameSlot (slot : FrameSlotIndex)
  | branch (target : InstructionIndex)
  | switchTable (table : Nat)
  | activeRegion (region : ActiveRegionIndex)
  | callLoanLayout (layout : Nat)
  | function (function : FunctionIndex)
  | serviceOperation (operation : Nat)
  | actorMethod (method : Nat)
  | interfaceTable (table : Nat)
  | syntheticCallback (callback : Nat)
  | hostEffectAdapter (adapter : Nat)
  | intrinsic (intrinsic : Nat)
  | constant (constant : Nat)
  | type (type : TypeIndex)
  | shape (shape : ShapeIndex)
  | writablePath (path : WritablePathIndex)
  | callbackCaptureLayout (layout : Nat)
  | resumeSite (site : ResumeSiteIndex)

def LinkedInstructionTarget.kind : LinkedInstructionTarget → LinkedOperandKind
  | frameSlot _ => .frameSlot
  | branch _ => .instruction
  | switchTable _ => .switchTable
  | activeRegion _ => .activeRegion
  | callLoanLayout _ => .callLoanLayout
  | function _ => .function
  | serviceOperation _ => .serviceOperation
  | actorMethod _ => .actorMethod
  | interfaceTable _ => .interfaceTable
  | syntheticCallback _ => .syntheticCallback
  | hostEffectAdapter _ => .hostEffectAdapter
  | intrinsic _ => .intrinsic
  | constant _ => .constant
  | type _ => .type
  | shape _ => .shape
  | writablePath _ => .writablePath
  | callbackCaptureLayout _ => .callbackCaptureLayout
  | resumeSite _ => .resumeSite

structure LinkedResolvedOperand where
  operandOrdinal : Nat
  target : LinkedInstructionTarget

/-- The positions that need a target, with its kind. -/
def OpcodeContract.resolvedKinds (contract : OpcodeContract) : List (Nat × LinkedOperandKind) :=
  contract.operands.zipIdx.filterMap fun (operand, ordinal) =>
    if operand.linkedKind = .immediate then none else some (ordinal, operand.linkedKind)

/-- A decoded instruction: one word for each operand of its contract, and a target of the
right kind for each operand that is not immediate. -/
structure LinkedInstruction where
  opcode : Opcode
  operands : List Nat
  resolvedOperands : List LinkedResolvedOperand
  artifactPc : Nat
  operandCount : operands.length = (contractForOpcode opcode).operands.length
  resolved : resolvedOperands.map (fun operand => (operand.operandOrdinal, operand.target.kind)) =
    (contractForOpcode opcode).resolvedKinds

/-- The target of an operand. -/
def LinkedInstruction.target (instruction : LinkedInstruction) (ordinal : Nat) :
    Option LinkedInstructionTarget :=
  (instruction.resolvedOperands.find? fun operand => operand.operandOrdinal = ordinal).map
    (·.target)

/-! ## Frames -/

inductive ParamMode where
  | value
  | inOut

structure LinkedParameterSlot where
  slot : FrameSlotIndex
  mode : ParamMode
  plan : LinkedValueTransferPlan

/-- The types and plans of the slots, parameters and results of a function. -/
structure LinkedFrameLayout where
  slotTypes : List TypeIndex
  parameters : List LinkedParameterSlot
  writableLocalSlots : List FrameSlotIndex
  resultTypes : List TypeIndex
  slotPlans : List LinkedValueTransferPlan
  resultPlans : List LinkedValueTransferPlan
  slotPlanCount : slotTypes.length = slotPlans.length
  resultPlanCount : resultTypes.length = resultPlans.length
  parameterSlots : ∀ parameter ∈ parameters, parameter.slot < slotTypes.length
  distinctParameters : (parameters.map (·.slot)).Nodup
  parameterPlans : ∀ parameter ∈ parameters, slotPlans[parameter.slot]? = some parameter.plan
  writableSlots : ∀ slot ∈ writableLocalSlots, slot < slotTypes.length ∧
    slot ∉ parameters.map (·.slot)
  writableOrder : writableLocalSlots.Pairwise (· < ·)

/-- The value that a slot is declared to hold. -/
def LinkedFrameLayout.slotValue (frame : LinkedFrameLayout) (slot : FrameSlotIndex) :
    Option LinkedStackValue :=
  match frame.slotTypes[slot]?, frame.slotPlans[slot]? with
  | some ty, some plan => some ⟨ty, plan⟩
  | _, _ => none

/-! ## Tables -/

/-- The parameters and results of a callable, in the order of its declaration. -/
structure LinkedSignature where
  parameterTypes : List TypeIndex
  parameterPlans : List LinkedValueTransferPlan
  resultTypes : List TypeIndex
  resultPlans : List LinkedValueTransferPlan

inductive LinkedInterfaceTableKind where
  | requirement (methods : List LinkedSignature)
  | callback (methods : List LinkedSignature)
  | locally (concreteType : TypeIndex) (methods : List LinkedSignature)
  | remote (methods : List LinkedSignature)

def LinkedInterfaceTableKind.methods : LinkedInterfaceTableKind → List LinkedSignature
  | requirement methods => methods
  | callback methods => methods
  | locally _ methods => methods
  | remote methods => methods

structure LinkedInterfaceTable where
  interface : String
  kind : LinkedInterfaceTableKind

structure LinkedDispatchTables where
  serviceOperations : List LinkedSignature
  actorMethods : List LinkedSignature
  hostEffectAdapters : List LinkedSignature
  intrinsics : List LinkedSignature
  interfaceTables : List LinkedInterfaceTable
  /-- The callback row of each synthetic function of the package. -/
  syntheticCallbackIndex : OrdMap String Nat
  /-- The interface table that each callback implements. -/
  syntheticCallbacks : List Nat

structure LinkedConstantEntry where
  index : Nat
  ty : TypeIndex
  plan : LinkedValueTransferPlan

structure LinkedSwitchCase where
  tagType : TypeIndex
  target : InstructionIndex

structure LinkedSwitchTable where
  cases : List LinkedSwitchCase
  defaultTarget : InstructionIndex

/-- Where a pending instruction goes on, and with what. -/
structure LinkedResumeSite where
  function : FunctionIndex
  site : InstructionIndex
  resume : InstructionIndex
  endResume : Option InstructionIndex
  expectedStackHeight : Nat
  resultTypes : List TypeIndex
  resultPlans : List LinkedValueTransferPlan
  emitStreamItemShape : Option ShapeIndex

inductive CatchMatcher where
  | typeRef (typeRef : Nat)
  | catchAll

/-- A protected range of the artifact, in words. -/
structure ExceptionRegion where
  startPc : Nat
  endPc : Nat
  handlerPc : Nat
  handlerStackHeight : Nat
  catchMatchers : List CatchMatcher
  catchSlot : FrameSlotIndex

inductive BytecodeRelocation where
  | syntheticCallbackRef (functionKey : String)
  | other

/-- The validated function that is linked: its instructions are at `instructionPcs`. -/
structure ValidatedFunction where
  instructionPcs : List Nat
  headerPcs : List Nat
  exceptionRegions : List ExceptionRegion
  relocations : List BytecodeRelocation
  maxOperandDepth : Nat

end Skiff.Bytecode
