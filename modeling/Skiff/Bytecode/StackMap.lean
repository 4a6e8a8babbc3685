import Skiff.Bytecode.Values
import Skiff.Data.Worklist

/-!
# Stack maps

The abstract interpretation that gives the operand stack, slot states, active regions and
writable loans before each instruction of a function. An instruction is applied to the state
before it; the result flows to its successors, and a state that reaches an instruction twice
is merged. The worklist of `Data.Worklist` runs until nothing changes.
-/

namespace Skiff.Bytecode

open Mut

/-- The abstract state before an instruction. Stacks, regions and loans grow at the end. -/
structure MachineState where
  stack : List LinkedStackValue
  slots : List LinkedSlotState
  activeRegions : List ActiveRegionIndex
  writableLoans : List LinkedWritableLoanState
deriving DecidableEq

/-! ## One instruction -/

section

variable (context : StackMapContext) (instruction : LinkedInstruction) (pc : Option Nat)

def resolveArity : Arity → Except LinkError Nat
  | .fixed value => .ok value
  | .declared role => operandWord instruction role pc
  | .functionResultCount => .ok context.frame.resultTypes.length

/-- Check the groups against the values taken from the stack, one after the other. -/
def readGroups :
    List (TypedStackGroup × Nat) → List LinkedStackValue → List (List LinkedStackValue) →
    LinkM (List (List LinkedStackValue))
  | [], _, inputs => pure inputs
  | (group, arity) :: rest, consumed, inputs => do
    if arity ≤ consumed.length then
      validateInputGroup context instruction pc group.value (consumed.take arity) inputs
      readGroups rest (consumed.drop arity) (inputs ++ [consumed.take arity])
    else fail (.unsatisfied pc "typed stack input groups exceed the consumed stack segment")

/-- The rest of the stack and the values of each group. -/
def takeStackInputs (groups : List TypedStackGroup) (stack : List LinkedStackValue) :
    LinkM (List LinkedStackValue × List (List LinkedStackValue)) := do
  let arities ← ofExcept (groups.mapM fun group => resolveArity context instruction pc group.arity)
  if stack.length < arities.sum then
    fail (.unsatisfied pc
      s!"instruction requires {arities.sum} stack values but only {stack.length} are available")
  else
    let height := stack.length - arities.sum
    let inputs ← readGroups context instruction pc (groups.zip arities) (stack.drop height) []
    pure (stack.take height, inputs)

def applyStackInputs (groups : List TypedStackGroup) (state : MachineState) :
    LinkM (MachineState × List (List LinkedStackValue)) := do
  let (stack, inputs) ← takeStackInputs context instruction pc groups state.stack
  pure ({ state with stack := stack }, inputs)

def requireLive (current : LinkedSlotState) (slot : Nat) (action : SlotAction) :
    Except LinkError Unit :=
  match current with
  | .live _ => .ok ()
  | _ => .error (.unsatisfied pc s!"slot {slot} is not live for {action.name}")

/-- The values that a slot write takes. -/
def slotWriteSource (source : ValueSource) (inputs : List (List LinkedStackValue))
    (before : List LinkedSlotState) :
    Except LinkError (List LinkedStackValue) :=
  match source with
  | .slot operand => do
    let source ← operandWord instruction operand pc
    match before[source]? with
    | some (.live value) => .ok [value]
    | _ => .error (.unsatisfied pc s!"source slot {source} is not live")
  | .stackInput group =>
    required inputs[group]?
      (.unsatisfied pc s!"slot write references missing stack input group {group}")
  | _ => .error (.unavailable pc)

def slotWriteValue (source : ValueSource) (inputs : List (List LinkedStackValue))
    (before : List LinkedSlotState) :
    Except LinkError LinkedStackValue := do
  match ← slotWriteSource instruction pc source inputs before with
  | [value] => .ok value
  | _ => .error (.unsatisfied pc "slot write source does not contain exactly one value")

/-- What a slot holds after a write: the branch of its union, or the declared value. -/
def validateSlotWrite (slot : Nat) (value : LinkedStackValue) : LinkM LinkedStackValue := do
  let ty ← ofExcept (required context.frame.slotTypes[slot]?
    (.unsatisfied pc s!"frame slot type {slot} is out of bounds"))
  let plan ← ofExcept (required context.frame.slotPlans[slot]?
    (.unsatisfied pc s!"frame slot plan {slot} is out of bounds"))
  let expected : LinkedStackValue := ⟨ty, plan⟩
  check (·.linkedValueMatches expected value) fun linker =>
    .slotWriteDiffers pc slot expected value (linker.linkedTypeRef ty)
      (linker.linkedTypeRef value.ty)
  let expectedRef ← lookup (·.linkedTypeRef expected.ty)
    (.unsatisfied pc "expected union slot type is absent from the linked image")
  let actualRef ← lookup (·.linkedTypeRef value.ty)
    (.unsatisfied pc "actual union-branch slot type is absent from the linked image")
  pure (if unionBranchAssignableRefs expectedRef actualRef then value else expected)

/-- The slots after an action that stores nothing. -/
def SlotAction.leave (action : SlotAction) (slot : Nat) (slots : List LinkedSlotState) :
    List LinkedSlotState :=
  match action with
  -- `slots` has as many slots as were checked, so the write is in bounds.
  | .take => slots.set slot .moved
  | .drop => slots.set slot .moved
  | _ => slots

/-- One effect. It reads the slots as they were before the instruction. -/
def applySlotEffect (inputs : List (List LinkedStackValue)) (before slots : List LinkedSlotState)
    (effect : SlotEffectContract) : LinkM (List LinkedSlotState) := do
  let slot ← ofExcept (operandWord instruction effect.operand pc)
  let current ← ofExcept
    (required before[slot]? (.unsatisfied pc s!"frame slot {slot} is out of bounds"))
  if effect.action = .write then
    let value ← ofExcept (slotWriteValue instruction pc effect.value inputs before)
    let value ← validateSlotWrite context pc slot value
    pure (slots.set slot (.live value))
  else
    ofExcept (requireLive pc current slot effect.action)
    pure (effect.action.leave slot slots)

def applyEffects (inputs : List (List LinkedStackValue)) (before : List LinkedSlotState) :
    List SlotEffectContract → List LinkedSlotState → LinkM (List LinkedSlotState)
  | [], slots => pure slots
  | effect :: rest, slots => do
    let slots ← applySlotEffect context instruction pc inputs before slots effect
    applyEffects inputs before rest slots

def applySlotContract (contract : SlotContract) (inputs : List (List LinkedStackValue))
    (slots : List LinkedSlotState) :
    LinkM (List LinkedSlotState) :=
  match contract with
  | .none => pure slots
  | .inOutCallLoans _ _ => fail (.unavailable pc)
  | .effects effects => applyEffects context instruction pc inputs slots effects slots

def applySlotEffects (contract : SlotContract) (inputs : List (List LinkedStackValue))
    (state : MachineState) :
    LinkM MachineState := do
  let slots ← applySlotContract context instruction pc contract inputs state.slots
  pure { state with slots := slots }

/-- The first operand target that has some form. -/
def firstTarget {α : Type} (select : LinkedInstructionTarget → Option α) : Option α :=
  instruction.resolvedOperands.findSome? fun operand => select operand.target

def activeRegionOf : LinkedInstructionTarget → Option ActiveRegionIndex
  | .activeRegion region => some region
  | _ => none

def frameSlotOf : LinkedInstructionTarget → Option FrameSlotIndex
  | .frameSlot slot => some slot
  | _ => none

def writablePathOf : LinkedInstructionTarget → Option WritablePathIndex
  | .writablePath path => some path
  | _ => none

def resumeSiteOf : LinkedInstructionTarget → Option ResumeSiteIndex
  | .resumeSite site => some site
  | _ => none

/-- Add a loan, in order and once. -/
def addLoan (loan : LinkedWritableLoanState) (loans : List LinkedWritableLoanState) :
    List LinkedWritableLoanState :=
  if loan ∈ loans then loans else ((loans ++ [loan]).mergeSort fun a b => !b.lt a).dedup

def applyRegionEffects (state : MachineState) : Except LinkError MachineState :=
  match instruction.opcode with
  | .enterRegion => do
    let region ← required (firstTarget instruction activeRegionOf)
      (.unsatisfied pc "enter_region has no active region target")
    .ok { state with activeRegions := state.activeRegions ++ [region] }
  | .leaveRegion => do
    let region ← required (firstTarget instruction activeRegionOf)
      (.unsatisfied pc "leave_region has no active region target")
    if state.activeRegions.getLast? = some region then
      .ok { state with activeRegions := state.activeRegions.dropLast }
    else .error (.unsatisfied pc "leave_region does not match the innermost active region")
  | .setWritablePath => do
    let rootSlot ← required (firstTarget instruction frameSlotOf)
      (.unsatisfied pc "set_writable_path has no root slot target")
    let path ← required (firstTarget instruction writablePathOf)
      (.unsatisfied pc "set_writable_path has no writable path target")
    .ok { state with writableLoans := addLoan ⟨rootSlot, path⟩ state.writableLoans }
  | _ => .ok state

def applyInstructionWithoutResults (state : MachineState) :
    LinkM (MachineState × List (List LinkedStackValue)) := do
  let contract := contractForOpcode instruction.opcode
  let (next, inputs) ← applyStackInputs context instruction pc contract.stackIn state
  let next ← applySlotEffects context instruction pc contract.slots inputs next
  let next ← ofExcept (applyRegionEffects instruction pc next)
  pure (next, inputs)

/-- As many values as a group declares; one value stands for several. -/
def repeatValue (source : ValueSource) (arity : Nat) (values : List LinkedStackValue) :
    Except LinkError (List LinkedStackValue) :=
  match values with
  | [value] => if 1 < arity then .ok (List.replicate arity value) else exactCount [value]
  | values => exactCount values
where
  exactCount (values : List LinkedStackValue) : Except LinkError (List LinkedStackValue) :=
    if values.length = arity then .ok values
    else .error (.unsatisfied pc
      s!"typed stack output {source.name} produces {values.length} values, expected {arity}")

/-- The values that one output group pushes. -/
def outputValues (inputs : List (List LinkedStackValue)) (group : TypedStackGroup) :
    LinkM (List LinkedStackValue) := do
  let arity ← ofExcept (resolveArity context instruction pc group.arity)
  let values ← sourceValues context instruction pc inputs group.value
  ofExcept (repeatValue pc group.value arity values)

def applyStackOutputs (inputs : List (List LinkedStackValue)) (state : MachineState) :
    LinkM MachineState := do
  let outputs ← collect (outputValues context instruction pc inputs)
    (contractForOpcode instruction.opcode).stackOut
  pure { state with stack := state.stack ++ outputs.flatten }

def applyInstruction (state : MachineState) : LinkM MachineState := do
  let (next, inputs) ← applyInstructionWithoutResults context instruction pc state
  applyStackOutputs context instruction pc inputs next

end

/-! ## Successors -/

section

variable (context : StackMapContext) (index : InstructionIndex) (instruction : LinkedInstruction)
    (pc : Option Nat)

def fallthrough : Except LinkError InstructionIndex :=
  if index + 1 < context.instructions.length then .ok (index + 1)
  else .error (.unsatisfied pc "fallthrough instruction is the final function instruction")

/-- In ascending order, each once. -/
def sortedTargets (targets : List InstructionIndex) : List InstructionIndex :=
  targets.foldr Worklist.insertPending []

def switchSuccessors (role : OperandRole) : Except LinkError (List InstructionIndex) := do
  let raw ← operandWord instruction role pc
  let table ← required context.switchTables[raw]?
    (.unsatisfied pc s!"switch table {raw} is out of bounds")
  .ok (sortedTargets (table.cases.map (·.target) ++ [table.defaultTarget]))

/-- The instructions that may run next, when nothing is raised. -/
def successors : ControlContract → Except LinkError (List InstructionIndex)
  | .fallthrough => do
    let next ← fallthrough context index pc
    .ok [next]
  | .jump target => do
    let target ← branchTarget instruction target pc
    .ok [target]
  | .branch target _ => do
    let next ← fallthrough context index pc
    let target ← branchTarget instruction target pc
    .ok (sortedTargets [next, target])
  | .switch table => switchSuccessors context instruction pc table
  | .functionReturn => .ok []
  | .tailCall => .ok []
  | .raise => .ok []
  | .rethrow => .ok []

def ExceptionRegion.contains (region : ExceptionRegion) (pc : Nat) : Bool :=
  region.startPc ≤ pc && pc < region.endPc

/-- The last declared region around an instruction. -/
def innermostExceptionRegion (regions : List ExceptionRegion) (pc : Nat) : Option ExceptionRegion :=
  regions.reverse.find? fun region => region.contains pc

/-- The state at the handler of a region: the stack is cut to the declared height and the
catch slot is live. -/
def handlerStateFrom (before : MachineState) (region : ExceptionRegion) :
    Except LinkError MachineState := do
  if before.stack.length < region.handlerStackHeight then
    .error (.unsatisfied pc
      s!"exception handler stack height {region.handlerStackHeight} exceeds source stack {before.stack.length}")
  else
    let ty ← required context.frame.slotTypes[region.catchSlot]?
      (.unsatisfied pc s!"exception catch slot {region.catchSlot} has no linked frame type")
    let plan ← required context.frame.slotPlans[region.catchSlot]?
      (.unsatisfied pc s!"exception catch slot {region.catchSlot} has no linked frame plan")
    if before.slots.length ≤ region.catchSlot then
      .error (.unsatisfied pc s!"exception catch slot {region.catchSlot} is out of bounds")
    else .ok {
      stack := before.stack.take region.handlerStackHeight
      slots := before.slots.set region.catchSlot (.live ⟨ty, plan⟩)
      activeRegions := []
      writableLoans := [] }

/-- The region whose handler an instruction may raise to, with the handler's index. -/
def exceptionalTarget (artifactPc : Nat) (behavior : ExceptionBehavior) :
    Except LinkError (Option (ExceptionRegion × InstructionIndex)) :=
  if behavior = .none then .ok none
  else match innermostExceptionRegion context.function.exceptionRegions artifactPc with
    | none => .ok none
    | some region => do
      let handler ← required (context.function.instructionPcs.findIdx? (· = region.handlerPc))
        (.unsatisfied pc s!"exception handler pc {region.handlerPc} has no decoded instruction")
      .ok (some (region, handler))

def exceptionalSuccessor (artifactPc : Nat) (before : MachineState) (behavior : ExceptionBehavior) :
    Except LinkError (List (InstructionIndex × MachineState)) := do
  match ← exceptionalTarget context pc artifactPc behavior with
  | none => .ok []
  | some (region, handler) =>
    let state ← handlerStateFrom context pc before region
    .ok [(handler, state)]

def checkOperandDepth (state : MachineState) : Except LinkError Unit :=
  if context.function.maxOperandDepth < state.stack.length then
    .error (.unsatisfied pc
      s!"computed operand depth {state.stack.length} exceeds declared max {context.function.maxOperandDepth}")
  else .ok ()

/-- Where a stream read goes on with an item, and at the end of the stream. -/
def streamNextTargets : Except LinkError (InstructionIndex × InstructionIndex) := do
  let site ← required ((firstTarget instruction resumeSiteOf).bind fun site =>
    context.resumeSites[site]?)
    (.unsatisfied pc "StreamNext resume target is absent")
  let endResume ← required site.endResume
    (.unsatisfied pc "StreamNext resume target has no end successor")
  .ok (site.resume, endResume)

/-- A stream read reaches one target with an item and the other without. -/
def streamNextSuccessors (state next : MachineState) :
    LinkM (List (InstructionIndex × MachineState)) := do
  let (resume, endResume) ← ofExcept (streamNextTargets context instruction pc)
  let (endNext, _) ← applyInstructionWithoutResults context instruction pc state
  ofExcept (checkOperandDepth context pc endNext)
  if resume < context.instructions.length ∧ endResume < context.instructions.length then
    pure [(resume, next), (endResume, endNext)]
  else fail (.unsatisfied pc "StreamNext successor target is out of bounds")

/-- A state flows to all successors; where there is none, the operand stack is empty. -/
def controlSuccessors (next : MachineState) :
    Except LinkError (List (InstructionIndex × MachineState)) := do
  let targets ← successors context index instruction pc
    (contractForOpcode instruction.opcode).control
  if targets = [] ∧ next.stack ≠ [] then
    .error (.unsatisfied pc "terminal instruction leaves values on the operand stack")
  else .ok (targets.map fun target => (target, next))

def normalSuccessors (state next : MachineState) : LinkM (List (InstructionIndex × MachineState)) :=
  if instruction.opcode = .streamNext then streamNextSuccessors context instruction pc state next
  else ofExcept (controlSuccessors context index instruction pc next)

end

/-- The artifact position and the linked instruction of an index. -/
def StackMapContext.instructionAt (context : StackMapContext) (index : InstructionIndex) :
    Except LinkError (Nat × LinkedInstruction) := do
  let artifactPc ← required context.function.instructionPcs[index]?
    (.unsatisfied none s!"decoded instruction {index} is out of bounds")
  let instruction ← required context.instructions[index]?
    (.unsatisfied none s!"linked instruction {index} is out of bounds")
  .ok (artifactPc, instruction)

/-- The states that an instruction passes on. -/
def transferProgramPoint (context : StackMapContext) (index : InstructionIndex)
    (state : MachineState) :
    LinkM (List (InstructionIndex × MachineState)) := do
  let (artifactPc, instruction) ← ofExcept (context.instructionAt index)
  let pc := some artifactPc
  let next ← applyInstruction context instruction pc state
  ofExcept (checkOperandDepth context pc next)
  let normal ← normalSuccessors context index instruction pc state next
  let exceptional ← ofExcept (exceptionalSuccessor context pc artifactPc state
    (contractForOpcode instruction.opcode).exception)
  pure (normal ++ exceptional)

/-! ## Merging -/

/-- A slot that is not live on one path is not live after the merge. -/
def mergeSlotState (left right : LinkedSlotState) : LinkedSlotState :=
  if left = right then left
  else match left, right with
    | .uninitialized, _ => .uninitialized
    | _, .uninitialized => .uninitialized
    | .moved, _ => .moved
    | _, .moved => .moved
    | .live left, .live _ => .live left

def mergeMachineStates (successorPc : Nat) (existing next : MachineState) :
    Except LinkError MachineState :=
  if existing = next then .ok existing
  else if existing.stack ≠ next.stack ∨ existing.activeRegions ≠ next.activeRegions ∨
      existing.writableLoans ≠ next.writableLoans then
    .error (.unsatisfied (some successorPc)
      "control-flow predecessors produce different concrete stack or slot states")
  else if existing.slots.length ≠ next.slots.length then
    .error (.unsatisfied (some successorPc)
      "control-flow predecessors produce different frame slot counts")
  else .ok { existing with slots := List.zipWith mergeSlotState existing.slots next.slots }

/-- The state of a successor after one more path reaches it. -/
def joinSuccessor (context : StackMapContext) (successor : InstructionIndex)
    (existing : Option MachineState) (next : MachineState) : Except LinkError MachineState := do
  let successorPc ← required context.function.instructionPcs[successor]?
    (.unsatisfied none s!"successor instruction {successor} is out of bounds")
  match existing with
  | some existing => mergeMachineStates successorPc existing next
  | none => .ok next

/-! ## The whole function -/

/-- Parameters are live, other slots are not initialized. -/
def initialState (frame : LinkedFrameLayout) : MachineState where
  stack := []
  slots := frame.parameters.foldl (fun slots parameter =>
    -- Parameter slots are in bounds and distinct in every frame layout.
    slots.set parameter.slot ((frame.slotTypes[parameter.slot]?).elim .uninitialized
      fun ty => .live ⟨ty, parameter.plan⟩)) (List.replicate frame.slotTypes.length .uninitialized)
  activeRegions := []
  writableLoans := []

def stackMapAnalysis (context : StackMapContext) :
    Worklist.Analysis TypeLinker LinkError MachineState where
  transfer := transferProgramPoint context
  join := joinSuccessor context
  missing index := .unsatisfied none s!"pending instruction {index} has no entry state"

def initialWork (context : StackMapContext) : Worklist MachineState where
  states := OrdMap.ofList [(0, initialState context.frame)]
  pending := [0]

/-- The states of all instructions; `none` when the rounds are used up. -/
def computeStates (context : StackMapContext) (rounds : Nat) :
    LinkM (Option (OrdMap InstructionIndex MachineState)) :=
  Worklist.run (stackMapAnalysis context) rounds (initialWork context)

structure LinkedProgramPointState where
  instruction : InstructionIndex
  stackBefore : List LinkedStackValue
  slotsBefore : List LinkedSlotState
  activeRegions : List ActiveRegionIndex
  writableLoans : List LinkedWritableLoanState

namespace LinkedProgramPointState

def ofState (index : InstructionIndex) (state : MachineState) : LinkedProgramPointState :=
  ⟨index, state.stack, state.slots, state.activeRegions, state.writableLoans⟩

/-- The first place where a list does not ascend. -/
def firstDescent {α : Type} (lt : α → α → Bool) : List α → Option (α × α)
  | a :: b :: rest => if lt a b then firstDescent lt (b :: rest) else some (a, b)
  | _ => none

def validate (entry : LinkedProgramPointState) (position slotCount maxOperandDepth : Nat) :
    Except String Unit :=
  if entry.instruction ≠ position then
    .error s!"program-point state {position} names instruction {entry.instruction}; expected {position}"
  else if entry.slotsBefore.length ≠ slotCount then
    .error s!"instruction {entry.instruction} has {entry.slotsBefore.length} slot states but frame has {slotCount} slots"
  else if maxOperandDepth < entry.stackBefore.length then
    .error (s!"instruction {entry.instruction} claims operand depth {entry.stackBefore.length}, " ++
      s!"exceeding declared max {maxOperandDepth}")
  else match firstDescent (fun a b => decide (a < b)) entry.activeRegions with
    | some (previous, current) =>
      .error s!"instruction {entry.instruction} active region {current} must sort after {previous}"
    | none => match firstDescent LinkedWritableLoanState.lt entry.writableLoans with
      | some (_, current) => .error (s!"instruction {entry.instruction} writable loan " ++
          s!"({current.rootSlot}, {current.path}) is duplicate or noncanonical")
      | none => .ok ()

end LinkedProgramPointState

def validateEntries (slotCount maxOperandDepth : Nat) :
    Nat → List LinkedProgramPointState → Except String Unit
  | _, [] => .ok ()
  | position, entry :: rest => do
    entry.validate position slotCount maxOperandDepth
    validateEntries slotCount maxOperandDepth (position + 1) rest

structure LinkedStackMapCandidate where
  entries : List LinkedProgramPointState

def LinkedStackMapCandidate.tryNew (entries : List LinkedProgramPointState)
    (instructionCount slotCount maxOperandDepth : Nat) : Except String LinkedStackMapCandidate := do
  if entries.length ≠ instructionCount then
    .error s!"function has {instructionCount} instructions but {entries.length} program-point states"
  else
    validateEntries slotCount maxOperandDepth 0 entries
    .ok ⟨entries⟩

def finishStackMap (context : StackMapContext) (states : OrdMap InstructionIndex MachineState) :
    Except LinkError LinkedStackMapCandidate := do
  if states.size ≠ context.instructions.length then
    .error (.unsatisfied none (if context.instructions.length < states.size then
      "computed more program-point states than admitted instructions"
      else s!"{context.instructions.length - states.size} admitted instructions are unreachable from the function entry"))
  else
    let entries ← (List.range context.instructions.length).mapM fun index => do
      let state ← required (states.get? index)
        (.unsatisfied none s!"instruction {index} has no computed entry state")
      .ok (LinkedProgramPointState.ofState index state)
    (LinkedStackMapCandidate.tryNew entries context.instructions.length
      context.frame.slotTypes.length
      context.function.maxOperandDepth).mapError fun error => .unsatisfied none error

def validateInstructionCoverage (context : StackMapContext) : Except LinkError Unit :=
  if context.instructions = [] then
    .error (.unsatisfied none "reachable function has no instruction entry")
  else if context.instructions.length ≠ context.function.instructionPcs.length then
    .error (.unsatisfied none
      "linked instruction coverage differs from the admitted decoded function")
  else .ok ()

/-- The stack map of a function, with a bound on the rounds of the worklist. -/
def buildStackMap (context : StackMapContext) (rounds : Nat) :
    LinkM (Option LinkedStackMapCandidate) := do
  ofExcept (validateInstructionCoverage context)
  match ← computeStates context rounds with
  | none => pure none
  | some states => do
    let candidate ← ofExcept (finishStackMap context states)
    pure (some candidate)

end Skiff.Bytecode
