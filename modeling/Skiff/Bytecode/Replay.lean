import Mathlib.Algebra.Group.Action.Defs
import Skiff.Bytecode.Monotone
import Skiff.Data.Run

/-!
# Replaying a path

A path of the instruction graph is replayed by applying the transfers along it, from the
parameters, without any merging. The stored states are below the replayed ones: the operand
stack, regions and loans are the same, and a slot that the map calls live is live on every
path. The worklist ends, since merging only lowers the ranks of slots.

The replay cannot fail as long as each copy out of a slot of union type is accepted. The map
itself does not ensure that: when two paths leave different branches of a union in a slot,
the merged state keeps the branch of the path that came first.
-/

namespace Skiff.Bytecode

open Mut (Stable)
open List Except

/-- One state for each successor, with the same successors above. -/
def SuccessorsBelow (low high : List (InstructionIndex × MachineState)) : Prop :=
  Forall₂ (fun a b => a.1 = b.1 ∧ a.2 ≤ b.2) low high

/-- A state of the frame, whose slots hold what they are declared to hold. -/
structure StateValid (context : StackMapContext) (linker : TypeLinker) (state : MachineState) :
    Prop where
  length : state.slots.length = context.frame.slotTypes.length
  framed : Framed linker context.frame state.slots

variable {state : MachineState} {artifactPc : Nat} {before : MachineState}

variable {state next : MachineState}

section

variable {context : StackMapContext} {index : InstructionIndex} {instruction : LinkedInstruction}
    {pc : Option Nat}
variable {linker linker' later : TypeLinker}

theorem StateValid.mono (h : StateValid context linker state) (hle : linker ≤ later) :
    StateValid context later state :=
  ⟨h.length, h.framed.mono hle⟩

/-! ## Handlers -/

theorem handlerStateFrom_eq_ok {before state : MachineState} {region : ExceptionRegion} :
    handlerStateFrom context pc before region = .ok state ↔
      region.handlerStackHeight ≤ before.stack.length ∧ region.catchSlot < before.slots.length ∧
      ∃ declared, context.frame.slotValue region.catchSlot = some declared ∧
        state = ⟨before.stack.take region.handlerStackHeight,
          before.slots.set region.catchSlot (.live declared), [], []⟩ := by
  unfold handlerStateFrom
  constructor
  · intro h
    split at h
    case isTrue => cases h
    case isFalse hheight =>
      obtain ⟨ty, hty, h⟩ := bind_eq_ok.mp h
      obtain ⟨plan, hplan, h⟩ := bind_eq_ok.mp h
      split at h
      case isTrue => cases h
      case isFalse hslot =>
        have hdeclared : context.frame.slotValue region.catchSlot = some ⟨ty, plan⟩ :=
          slotValue_eq_some.mpr ⟨required_eq_ok.mp hty, required_eq_ok.mp hplan⟩
        exact ⟨Nat.not_lt.mp hheight, Nat.not_le.mp hslot, ⟨ty, plan⟩, hdeclared, (ok.inj h).symm⟩
  rintro ⟨hheight, hslot, declared, hdeclared, rfl⟩
  obtain ⟨hty, hplan⟩ := slotValue_eq_some.mp hdeclared
  rw [if_neg (Nat.not_lt.mpr hheight)]
  refine bind_eq_ok.mpr ⟨declared.ty, required_eq_ok.mpr hty, ?_⟩
  refine bind_eq_ok.mpr ⟨declared.plan, required_eq_ok.mpr hplan, ?_⟩
  exact if_neg (Nat.not_le.mpr hslot)

variable {all : List (InstructionIndex × MachineState)} {behavior : ExceptionBehavior}

theorem exceptionalSuccessor_eq_ok :
    exceptionalSuccessor context pc artifactPc before behavior = .ok all ↔
      (exceptionalTarget context pc artifactPc behavior = .ok none ∧ all = []) ∨
      ∃ region handler state, exceptionalTarget context pc artifactPc behavior =
        .ok (some (region, handler)) ∧
        handlerStateFrom context pc before region = .ok state ∧ all = [(handler, state)] := by
  unfold exceptionalSuccessor
  constructor
  · intro h
    obtain ⟨target, htarget, h⟩ := bind_eq_ok.mp h
    cases target with
    | none => exact .inl ⟨htarget, (ok.inj h).symm⟩
    | some found =>
      obtain ⟨state, hstate, h⟩ := bind_eq_ok.mp h
      exact .inr ⟨found.1, found.2, state, htarget, hstate, (ok.inj h).symm⟩
  rintro (⟨htarget, rfl⟩ | ⟨region, handler, state, htarget, hstate, rfl⟩)
  · exact bind_eq_ok.mpr ⟨none, htarget, rfl⟩
  refine bind_eq_ok.mpr ⟨some (region, handler), htarget, ?_⟩
  exact bind_eq_ok.mpr ⟨state, hstate, rfl⟩

theorem exceptionalSuccessor_valid (hbefore : StateValid context linker before)
    (h : exceptionalSuccessor context pc artifactPc before behavior = .ok all) :
    ∀ successor ∈ all, StateValid context linker successor.2 := by
  obtain ⟨-, rfl⟩ | ⟨region, handler, state, -, hstate, rfl⟩ := exceptionalSuccessor_eq_ok.mp h
  · intro successor hmem
    cases hmem
  obtain ⟨-, -, declared, hdeclared, rfl⟩ := handlerStateFrom_eq_ok.mp hstate
  intro successor hmem
  obtain rfl := mem_singleton.mp hmem
  refine ⟨length_set.trans hbefore.length, hbefore.framed.set fun value heq => ?_⟩
  cases heq
  exact .inl hdeclared

theorem exceptionalSuccessor_mono {low high : MachineState} (hbelow : low ≤ high)
    (h : exceptionalSuccessor context pc artifactPc low behavior = .ok all) :
    ∃ all', exceptionalSuccessor context pc artifactPc high behavior = .ok all' ∧
    SuccessorsBelow all all' := by
  obtain ⟨htarget, rfl⟩ | ⟨region, handler, state, htarget, hstate, rfl⟩ :=
    exceptionalSuccessor_eq_ok.mp h
  · exact ⟨[], exceptionalSuccessor_eq_ok.mpr (.inl ⟨htarget, rfl⟩), .nil⟩
  obtain ⟨hheight, hslot, declared, hdeclared, rfl⟩ := handlerStateFrom_eq_ok.mp hstate
  obtain ⟨hstack, -, -, hslots⟩ := hbelow
  refine ⟨[(handler, _)], exceptionalSuccessor_eq_ok.mpr (.inr ⟨region, handler, _, htarget,
    handlerStateFrom_eq_ok.mpr
      ⟨hstack ▸ hheight, hslots.length_eq ▸ hslot, declared, hdeclared, rfl⟩, rfl⟩),
    .cons ⟨rfl, ?_, rfl, rfl, hslots.set _ (le_refl 2)⟩ .nil⟩
  show low.stack.take _ = high.stack.take _
  rw [hstack]

/-! ## Normal successors -/

theorem checkOperandDepth_eq_ok {result : Unit} :
    checkOperandDepth context pc state = .ok result ↔
      state.stack.length ≤ context.function.maxOperandDepth := by
  unfold checkOperandDepth
  split <;> simp <;> omega

theorem controlSuccessors_eq_ok {next : MachineState} :
    controlSuccessors context index instruction pc next = .ok all ↔
      ∃ targets, successors context index instruction pc
        (contractForOpcode instruction.opcode).control = .ok targets ∧
        (targets = [] → next.stack = []) ∧ all = targets.map fun target => (target, next) := by
  unfold controlSuccessors
  constructor
  · intro h
    obtain ⟨targets, htargets, h⟩ := bind_eq_ok.mp h
    split at h
    case isTrue => cases h
    case isFalse hempty =>
      refine ⟨targets, htargets, fun hnone => ?_, (ok.inj h).symm⟩
      by_contra hstack
      exact hempty ⟨hnone, hstack⟩
  rintro ⟨targets, htargets, hempty, rfl⟩
  refine bind_eq_ok.mpr ⟨targets, htargets, ?_⟩
  exact if_neg fun h => h.2 (hempty h.1)

theorem streamNextSuccessors_eq_ok :
    streamNextSuccessors context instruction pc state next linker = (.ok all, linker') ↔
      ∃ resume endResume endNext inputs, streamNextTargets context instruction pc =
        .ok (resume, endResume) ∧
        applyInstructionWithoutResults context instruction pc state linker =
          (.ok (endNext, inputs), linker') ∧
        endNext.stack.length ≤ context.function.maxOperandDepth ∧
        resume < context.instructions.length ∧ endResume < context.instructions.length ∧
        all = [(resume, next), (endResume, endNext)] := by
  unfold streamNextSuccessors
  constructor
  · intro h
    obtain ⟨⟨resume, endResume⟩, htargets, h⟩ := Mut.ofExcept_bind_eq_ok.mp h
    obtain ⟨⟨endNext, inputs⟩, middle, happly, h⟩ := Mut.bind_eq_ok.mp h
    obtain ⟨_, hdepth, h⟩ := Mut.ofExcept_bind_eq_ok.mp h
    split at h
    case isTrue hbounds =>
      obtain ⟨rfl, rfl⟩ := Mut.pure_eq_ok.mp h
      exact ⟨resume, endResume, endNext, inputs, htargets, happly,
        checkOperandDepth_eq_ok.mp hdepth, hbounds.1,
        hbounds.2, rfl⟩
    case isFalse => cases h
  rintro ⟨resume, endResume, endNext, inputs, htargets, happly, hdepth, hresume, hend, rfl⟩
  refine Mut.ofExcept_bind_eq_ok.mpr ⟨(resume, endResume), htargets, ?_⟩
  refine Mut.bind_eq_ok.mpr ⟨(endNext, inputs), linker', happly, ?_⟩
  refine Mut.ofExcept_bind_eq_ok.mpr ⟨(), checkOperandDepth_eq_ok.mpr hdepth, ?_⟩
  simp only [hresume, hend, and_self, if_true]
  exact Mut.pure_eq_ok.mpr ⟨rfl, rfl⟩

theorem normalSuccessors_valid
    (hstate : StateValid context linker state) (hnext : StateValid context linker next)
    (h : normalSuccessors context index instruction pc state next linker = (.ok all, linker')) :
    ∀ successor ∈ all, StateValid context linker' successor.2 := by
  unfold normalSuccessors at h
  split at h
  case isTrue =>
    obtain ⟨resume, endResume, endNext, inputs, -, happly, -, -, -, rfl⟩ :=
      streamNextSuccessors_eq_ok.mp h
    have hgrows := (applyInstructionWithoutResults_stable context instruction pc state).grows happly
    obtain ⟨hlength, hframed⟩ := applyInstructionWithoutResults_framed hstate.framed happly
    intro successor hmem
    obtain rfl | hmem := mem_cons.mp hmem
    · exact hnext.mono hgrows
    obtain rfl := mem_singleton.mp hmem
    exact ⟨hlength.trans hstate.length, hframed⟩
  case isFalse =>
    obtain ⟨hcontrol, rfl⟩ := Mut.ofExcept_eq_ok.mp h
    obtain ⟨targets, -, -, rfl⟩ := controlSuccessors_eq_ok.mp hcontrol
    intro successor hmem
    obtain ⟨target, -, rfl⟩ := mem_map.mp hmem
    exact hnext

theorem normalSuccessors_mono {low high next next' : MachineState} (hbelow : low ≤ high)
    (hnext : next ≤ next') (hlow : Framed later context.frame low.slots)
    (hhigh : Framed later context.frame high.slots)
    (haccepted : ∀ effect ∈ (contractForOpcode instruction.opcode).slots.effectList,
      WriteAccepted later context instruction pc high.slots effect)
    (h : normalSuccessors context index instruction pc low next linker = (.ok all, linker'))
    (hle : linker' ≤ later) :
    ∃ all', normalSuccessors context index instruction pc high next' later = (.ok all', later) ∧
      SuccessorsBelow all all' := by
  unfold normalSuccessors at h ⊢
  split at h
  case isTrue hstream =>
    rw [if_pos hstream]
    obtain ⟨resume, endResume, endNext, inputs, htargets, happly, hdepth, hresume, hend, rfl⟩ :=
      streamNextSuccessors_eq_ok.mp h
    obtain ⟨endNext', happly', hendNext⟩ :=
      applyInstructionWithoutResults_mono hbelow hlow hhigh haccepted happly hle
    refine ⟨[(resume, next'), (endResume, endNext')],
      streamNextSuccessors_eq_ok.mpr ⟨resume, endResume, endNext', inputs,
      htargets, happly', ?_, hresume, hend, rfl⟩, .cons ⟨rfl, hnext⟩ (.cons ⟨rfl, hendNext⟩ .nil)⟩
    rw [← hendNext.1]
    exact hdepth
  case isFalse hstream =>
    rw [if_neg hstream]
    obtain ⟨hcontrol, rfl⟩ := Mut.ofExcept_eq_ok.mp h
    obtain ⟨targets, htargets, hempty, rfl⟩ := controlSuccessors_eq_ok.mp hcontrol
    refine ⟨targets.map fun target =>
      (target, next'), Mut.ofExcept_eq_ok.mpr ⟨controlSuccessors_eq_ok.mpr
      ⟨targets, htargets, fun hnone => hnext.1 ▸ hempty hnone, rfl⟩, rfl⟩, ?_⟩
    refine forall₂_map_left_iff.mpr (forall₂_map_right_iff.mpr ?_)
    exact forall₂_same.mpr fun target _ => ⟨rfl, hnext⟩

end

/-! ## Program points -/

variable {pc : Option Nat}

section

variable {context : StackMapContext} {index : InstructionIndex} {linker linker' later : TypeLinker}
variable {all : List (InstructionIndex × MachineState)} {state : MachineState}

theorem transferProgramPoint_eq_ok :
    transferProgramPoint context index state linker = (.ok all, linker') ↔
      ∃ artifactPc instruction next middle normal exceptional,
        context.instructionAt index = .ok (artifactPc, instruction) ∧
        applyInstruction context instruction (some artifactPc) state linker = (.ok next, middle) ∧
        next.stack.length ≤ context.function.maxOperandDepth ∧
        normalSuccessors context index instruction (some artifactPc) state next middle =
          (.ok normal, linker') ∧
        exceptionalSuccessor context (some artifactPc) artifactPc state
          (contractForOpcode instruction.opcode).exception =
          .ok exceptional ∧
        all = normal ++ exceptional := by
  unfold transferProgramPoint
  constructor
  · intro h
    obtain ⟨⟨artifactPc, instruction⟩, hat, h⟩ := Mut.ofExcept_bind_eq_ok.mp h
    obtain ⟨next, middle, happly, h⟩ := Mut.bind_eq_ok.mp h
    obtain ⟨_, hdepth, h⟩ := Mut.ofExcept_bind_eq_ok.mp h
    obtain ⟨normal, last, hnormal, h⟩ := Mut.bind_eq_ok.mp h
    obtain ⟨exceptional, hexceptional, h⟩ := Mut.ofExcept_bind_eq_ok.mp h
    obtain ⟨rfl, rfl⟩ := Mut.pure_eq_ok.mp h
    exact ⟨artifactPc, instruction, next, middle, normal, exceptional, hat, happly,
      checkOperandDepth_eq_ok.mp hdepth,
      hnormal, hexceptional, rfl⟩
  rintro ⟨artifactPc, instruction, next, middle, normal, exceptional, hat, happly, hdepth, hnormal,
    hexceptional, rfl⟩
  refine Mut.ofExcept_bind_eq_ok.mpr ⟨(artifactPc, instruction), hat, ?_⟩
  refine Mut.bind_eq_ok.mpr ⟨next, middle, happly, ?_⟩
  refine Mut.ofExcept_bind_eq_ok.mpr ⟨(), checkOperandDepth_eq_ok.mpr hdepth, ?_⟩
  refine Mut.bind_eq_ok.mpr ⟨normal, linker', hnormal, ?_⟩
  exact Mut.ofExcept_bind_eq_ok.mpr ⟨exceptional, hexceptional, Mut.pure_eq_ok.mpr ⟨rfl, rfl⟩⟩

theorem transferProgramPoint_valid (hstate : StateValid context linker state)
    (h : transferProgramPoint context index state linker = (.ok all, linker')) :
    ∀ successor ∈ all, StateValid context linker' successor.2 := by
  obtain ⟨artifactPc, instruction, next, middle, normal, exceptional, -, happly, -, hnormal,
    hexceptional, rfl⟩ :=
    transferProgramPoint_eq_ok.mp h
  have hfirst := (applyInstruction_stable context instruction _ state).grows happly
  have hsecond := (normalSuccessors_stable context instruction _ index state next).grows hnormal
  obtain ⟨hlength, hframed⟩ := applyInstruction_framed hstate.framed happly
  intro successor hmem
  obtain hmem | hmem := mem_append.mp hmem
  · exact normalSuccessors_valid (hstate.mono hfirst)
      ⟨hlength.trans hstate.length, hframed⟩ hnormal successor hmem
  · exact exceptionalSuccessor_valid
      (hstate.mono (hfirst.trans hsecond)) hexceptional successor hmem

/-- A copy or move between slots. -/
def Opcode.copies : Opcode → Bool
  | .copySlot => true
  | .moveSlot => true
  | _ => false

/-- At a copy out of a slot of union type, the value in the slot is one that the destination
accepts. -/
def CopyAccepted (context : StackMapContext) (linker : TypeLinker) (index : InstructionIndex)
    (state : MachineState) :
    Prop :=
  ∀ instruction source destination value declared, context.instructions[index]? = some instruction →
    instruction.opcode.copies = true → instruction.operands = [source, destination] →
    DeclaresUnion linker context.frame source → state.slots[source]? = some (.live value) →
    context.frame.slotValue destination = some declared →
      linker.linkedValueMatches declared value = true

variable {effect : SlotEffectContract}

theorem copies_of_write_slot {opcode : Opcode} {operand : OperandRole}
    (hmem : effect ∈ (contractForOpcode opcode).slots.effectList) (hwrite : effect.action = .write)
    (hslot : effect.value = .slot operand) :
    opcode.copies = true ∧ operand = .sourceSlot ∧ effect.operand = .destinationSlot ∧
      (contractForOpcode opcode).operands =
        [⟨.sourceSlot, .frameSlot⟩, ⟨.destinationSlot, .frameSlot⟩] := by
  cases opcode <;>
    simp [contractForOpcode, SlotContract.effectList, slotEffect, conditionalJump, boundaryCall,
      interfaceCall,
      pureOperation, fieldRead] at hmem <;>
    rcases hmem with rfl | rfl <;> simp_all [Opcode.copies, contractForOpcode]

variable {instruction : LinkedInstruction}

theorem instructionAt_eq_ok :
    context.instructionAt index = .ok (artifactPc, instruction) ↔
      context.function.instructionPcs[index]? = some artifactPc ∧
        context.instructions[index]? = some instruction := by
  unfold StackMapContext.instructionAt
  constructor
  · intro h
    obtain ⟨found, hfound, h⟩ := bind_eq_ok.mp h
    obtain ⟨linked, hlinked, h⟩ := bind_eq_ok.mp h
    cases h
    exact ⟨required_eq_ok.mp hfound, required_eq_ok.mp hlinked⟩
  rintro ⟨hpc, hinstruction⟩
  refine bind_eq_ok.mpr ⟨artifactPc, required_eq_ok.mpr hpc, ?_⟩
  exact bind_eq_ok.mpr ⟨instruction, required_eq_ok.mpr hinstruction, rfl⟩

theorem operandWord_eq_ok {role : OperandRole} {word : Nat} :
    operandWord instruction role pc = .ok word ↔
      (contractForOpcode instruction.opcode).operandWord role instruction.operands = some word :=
  required_eq_ok

theorem writeAccepted_of_copyAccepted
    (hinstruction : context.instructions[index]? = some instruction)
    (h : CopyAccepted context linker index state)
    (hmem : effect ∈ (contractForOpcode instruction.opcode).slots.effectList) :
    WriteAccepted linker context instruction pc state.slots effect := by
  intro operand source destination value declared hwrite hslot hsource hdestination hunion hvalue
    hdeclared
  obtain ⟨hcopies, rfl, hoperand, hoperands⟩ := copies_of_write_slot hmem hwrite hslot
  rw [hoperand] at hdestination
  have hcount := instruction.operandCount
  rw [hoperands] at hcount
  obtain ⟨first, second, hwords⟩ := length_eq_two.mp hcount
  have hfirst := operandWord_eq_ok.mp hsource
  have hsecond := operandWord_eq_ok.mp hdestination
  simp [OpcodeContract.operandWord, OpcodeContract.operandPosition, hoperands, hwords,
    findIdx?_cons] at hfirst hsecond
  subst hfirst hsecond
  exact h instruction first second value declared hinstruction hcopies hwords hunion hvalue
    hdeclared

/-- A point that is transferred is transferred from above, when its copy is accepted. -/
theorem transferProgramPoint_mono {low high : MachineState} (hbelow : low ≤ high)
    (hlow : Framed later context.frame low.slots) (hhigh : Framed later context.frame high.slots)
    (haccepted : CopyAccepted context later index high)
    (h : transferProgramPoint context index low linker = (.ok all, linker'))
    (hle : linker' ≤ later) :
    ∃ all', transferProgramPoint context index high later = (.ok all', later) ∧
    SuccessorsBelow all all' := by
  obtain ⟨artifactPc, instruction, next, middle, normal, exceptional, hat, happly, hdepth, hnormal,
    hexceptional, rfl⟩ :=
    transferProgramPoint_eq_ok.mp h
  have hgrows := (normalSuccessors_stable context instruction _ index low next).grows hnormal
  have hwrites : ∀ effect ∈ (contractForOpcode instruction.opcode).slots.effectList,
      WriteAccepted later context instruction (some artifactPc) high.slots effect :=
    fun effect hmem => writeAccepted_of_copyAccepted (instructionAt_eq_ok.mp hat).2 haccepted hmem
  obtain ⟨next', happly', hnext⟩ :=
    applyInstruction_mono hbelow hlow hhigh hwrites happly (hgrows.trans hle)
  obtain ⟨normal', hnormal', hnormals⟩ :=
    normalSuccessors_mono hbelow hnext hlow hhigh hwrites hnormal hle
  obtain ⟨exceptional', hexceptional', hexceptionals⟩ :=
    exceptionalSuccessor_mono hbelow hexceptional
  refine ⟨normal' ++ exceptional',
    transferProgramPoint_eq_ok.mpr ⟨artifactPc, instruction, next', later, normal',
    exceptional', hat, happly', ?_, hnormal', hexceptional', rfl⟩,
      rel_append hnormals hexceptionals⟩
  rw [← hnext.1]
  exact hdepth

end

/-! ## The worklist -/

/-- The rank of a state: the sum over its slots. -/
def MachineState.rank (state : MachineState) : Nat := (state.slots.map LinkedSlotState.rank).sum

variable (left right : LinkedSlotState)

theorem mergeSlotState_rank_left :
    (mergeSlotState left right).rank ≤ left.rank ∧
      (mergeSlotState left right ≠ left → (mergeSlotState left right).rank < left.rank) := by
  unfold mergeSlotState
  cases left <;> cases right <;> simp [LinkedSlotState.rank]

theorem mergeSlotState_rank_right : (mergeSlotState left right).rank ≤ right.rank := by
  unfold mergeSlotState
  cases left <;> cases right <;> simp [LinkedSlotState.rank]

/-- A merged slot is live only if the first one is, and then as that. -/
theorem mergeSlotState_live {left right : LinkedSlotState} {value : LinkedStackValue}
    (h : mergeSlotState left right = .live value) : left = .live value := by
  unfold mergeSlotState at h
  cases left <;> cases right <;> simp at h ⊢
  exact h

variable {left right : List LinkedSlotState}

theorem zipWith_merge_below (hlength : left.length = right.length) :
    SlotsBelow (zipWith mergeSlotState left right) left ∧
      SlotsBelow (zipWith mergeSlotState left right) right := by
  induction left generalizing right with
  | nil =>
    obtain rfl := length_eq_zero_iff.mp hlength.symm
    exact ⟨.nil, .nil⟩
  | cons first rest ih =>
    obtain ⟨other, others, rfl⟩ := exists_cons_of_length_eq_add_one hlength.symm
    obtain ⟨hleft, hright⟩ := ih (Nat.succ.inj hlength)
    exact ⟨.cons (mergeSlotState_rank_left first other).1 hleft,
      .cons (mergeSlotState_rank_right first other) hright⟩

theorem SlotsBelow.sum_le {low high : List LinkedSlotState} (h : SlotsBelow low high) :
    (low.map LinkedSlotState.rank).sum ≤ (high.map LinkedSlotState.rank).sum := by
  induction h with
  | nil => exact le_refl _
  | cons hfirst _ ih =>
    simp only [map_cons, sum_cons]
    omega

theorem zipWith_merge_sum_lt (hlength : left.length = right.length)
    (hne : zipWith mergeSlotState left right ≠ left) :
    ((zipWith mergeSlotState left right).map LinkedSlotState.rank).sum < (left.map
      LinkedSlotState.rank).sum := by
  induction left generalizing right with
  | nil => exact absurd rfl hne
  | cons first rest ih =>
    obtain ⟨other, others, rfl⟩ := exists_cons_of_length_eq_add_one hlength.symm
    have hfirst := mergeSlotState_rank_left first other
    have hbelow := (zipWith_merge_below (Nat.succ.inj hlength)).1.sum_le
    simp only [zipWith_cons_cons, map_cons, sum_cons]
    by_cases hsame : mergeSlotState first other = first
    · have hrest : zipWith mergeSlotState rest others ≠ rest := by
        intro heq
        exact hne (by rw [zipWith_cons_cons, hsame, heq])
      have hless := ih (Nat.succ.inj hlength) hrest
      omega
    have hless := hfirst.2 hsame
    omega

variable {existing next merged : MachineState} {successorPc : Nat}

theorem mergeMachineStates_cases (h : mergeMachineStates successorPc existing next = .ok merged) :
    (existing = next ∧ merged = existing) ∨
      (existing.stack = next.stack ∧ existing.activeRegions = next.activeRegions ∧
        existing.writableLoans = next.writableLoans ∧ existing.slots.length = next.slots.length ∧
        merged = { existing with slots := zipWith mergeSlotState existing.slots next.slots }) := by
  unfold mergeMachineStates at h
  split at h
  case isTrue heq => exact .inl ⟨heq, (ok.inj h).symm⟩
  case isFalse =>
    split at h
    case isTrue => cases h
    case isFalse hsame =>
      split at h
      case isTrue => cases h
      case isFalse hlength =>
        simp only [not_or, not_not] at hsame
        exact .inr ⟨hsame.1, hsame.2.1, hsame.2.2, not_not.mp hlength, (ok.inj h).symm⟩

variable {context : StackMapContext}

theorem joinSuccessor_cases {successor : InstructionIndex} {known : Option MachineState}
    {next merged : MachineState} (h : joinSuccessor context successor known next = .ok merged) :
    successor < context.function.instructionPcs.length ∧
      ((known = none ∧ merged = next) ∨
        ∃ existing successorPc, known = some existing ∧
          mergeMachineStates successorPc existing next = .ok merged) := by
  obtain ⟨successorPc, hpc, h⟩ := bind_eq_ok.mp h
  refine ⟨(List.getElem?_eq_some_iff.mp (required_eq_ok.mp hpc)).1, ?_⟩
  cases known with
  | none => exact .inl ⟨rfl, (ok.inj h).symm⟩
  | some existing => exact .inr ⟨existing, successorPc, rfl, h⟩

theorem mergeMachineStates_le (h : mergeMachineStates successorPc existing next = .ok merged) :
    merged ≤ existing ∧ merged ≤ next := by
  obtain ⟨rfl, rfl⟩ | ⟨hstack, hactive, hloans, hlength, rfl⟩ := mergeMachineStates_cases h
  · exact ⟨le_refl _, le_refl _⟩
  obtain ⟨hleft, hright⟩ := zipWith_merge_below hlength
  exact ⟨⟨rfl, rfl, rfl, hleft⟩, hstack, hactive, hloans, hright⟩

theorem mergeMachineStates_valid {linker : TypeLinker}
    (hexisting : StateValid context linker existing)
    (h : mergeMachineStates successorPc existing next = .ok merged) :
    StateValid context linker merged := by
  obtain ⟨rfl, rfl⟩ | ⟨-, -, -, hlength, rfl⟩ := mergeMachineStates_cases h
  · exact hexisting
  refine ⟨((zipWith_merge_below hlength).1.length_eq).trans hexisting.length,
    fun slot value hvalue => ?_⟩
  obtain ⟨left, right, hleft, -, hmerged⟩ := getElem?_zipWith_eq_some.mp hvalue
  rw [mergeSlotState_live hmerged] at hleft
  exact hexisting.framed slot value hleft

theorem rank_le_two (slot : LinkedSlotState) : slot.rank ≤ 2 := by
  cases slot <;> simp [LinkedSlotState.rank]

theorem stackMapAnalysis_lawful (context : StackMapContext) :
    Worklist.Lawful (stackMapAnalysis context) (StateValid context) MachineState.rank
      context.function.instructionPcs.length (2 * context.frame.slotTypes.length) where
  stable := transferProgramPoint_stable context
  valid_mono hle h := h.mono hle
  transfer_valid hvalid h := transferProgramPoint_valid hvalid h
  join_point h := (joinSuccessor_cases h).1
  join_valid := by
    intro linker point known next merged hknown hnext h
    obtain ⟨-, ⟨rfl, rfl⟩ | ⟨existing, successorPc, rfl, hmerge⟩⟩ := joinSuccessor_cases h
    · exact hnext
    · exact mergeMachineStates_valid (hknown existing rfl) hmerge
  join_le := by
    intro point known next merged h
    obtain ⟨-, ⟨rfl, rfl⟩ | ⟨existing, successorPc, rfl, hmerge⟩⟩ := joinSuccessor_cases h
    · exact ⟨le_refl _, fun fact hfact => by cases hfact⟩
    obtain ⟨hleft, hright⟩ := mergeMachineStates_le hmerge
    refine ⟨hright, fun fact hfact => ?_⟩
    cases hfact
    exact hleft
  join_rank := by
    intro point existing next merged h hne
    change joinSuccessor context point (some existing) next = .ok merged at h
    obtain ⟨-, ⟨hnone, -⟩ | ⟨existing', successorPc, hsome, hmerge⟩⟩ := joinSuccessor_cases h
    · cases hnone
    cases hsome
    obtain ⟨-, rfl⟩ | ⟨-, -, -, hlength, rfl⟩ := mergeMachineStates_cases hmerge
    · exact absurd rfl hne
    refine zipWith_merge_sum_lt hlength fun heq => hne ?_
    rw [heq]
  rank_le := by
    intro linker state hvalid
    have hsum := sum_le_card_nsmul (state.slots.map LinkedSlotState.rank) 2 fun rank hrank => by
      obtain ⟨slot, -, rfl⟩ := mem_map.mp hrank
      exact rank_le_two slot
    rw [length_map, hvalid.length, smul_eq_mul] at hsum
    show (state.slots.map LinkedSlotState.rank).sum ≤ _
    omega

/-- The parameters are declared values. -/
theorem initialState_valid (context : StackMapContext) (linker : TypeLinker) :
    StateValid context linker (initialState context.frame) := by
  have hfold : ∀ (parameters : List LinkedParameterSlot) (slots : List LinkedSlotState),
      (∀ parameter ∈ parameters, context.frame.slotPlans[parameter.slot]? = some parameter.plan) →
      slots.length = context.frame.slotTypes.length → Framed linker context.frame slots →
      StateValid context linker
        ⟨[], parameters.foldl (fun slots parameter => slots.set parameter.slot
        ((context.frame.slotTypes[parameter.slot]?).elim .uninitialized fun ty =>
          .live ⟨ty, parameter.plan⟩)) slots, [], []⟩ := by
    intro parameters
    induction parameters with
    | nil =>
      intro slots _ hlength hframed
      exact ⟨hlength, hframed⟩
    | cons parameter rest ih =>
      intro slots hplans hlength hframed
      refine ih _ (fun other hother => hplans other (.tail _ hother))
        (length_set.trans hlength) (hframed.set fun value hvalue => .inl ?_)
      cases hty : context.frame.slotTypes[parameter.slot]? with
      | none =>
        rw [hty] at hvalue
        cases hvalue
      | some ty =>
        rw [hty] at hvalue
        cases hvalue
        exact slotValue_eq_some.mpr ⟨hty, hplans parameter (.head _)⟩
  refine hfold _ _ context.frame.parameterPlans length_replicate fun slot value hvalue => ?_
  have hmem := mem_of_getElem? hvalue
  cases eq_of_mem_replicate hmem

theorem initialWork_get? {point : InstructionIndex}
    (h : (initialWork context).states.get? point = some state) :
    point = 0 ∧ state = initialState context.frame := by
  simp only [initialWork, OrdMap.ofList, foldl_cons, foldl_nil, OrdMap.get?_insert] at h
  split at h
  case isTrue hpoint => exact ⟨hpoint, (Option.some.inj h).symm⟩
  case isFalse => cases h

theorem initialWork_invariant (context : StackMapContext) (linker : TypeLinker) :
    Worklist.Invariant (stackMapAnalysis context) (StateValid context)
    (initialWork context) linker where
  valid h := by
    obtain ⟨-, rfl⟩ := initialWork_get? h
    exact initialState_valid context linker
  settled h hpending := by
    obtain ⟨rfl, -⟩ := initialWork_get? h
    exact absurd (.head _) hpending

/-- Rounds that are enough: each instruction is taken once, and once more for each loss of a
slot. -/
def StackMapContext.roundBound (context : StackMapContext) : Nat :=
  context.function.instructionPcs.length * (2 * context.frame.slotTypes.length + 1) + 1

theorem potential_initialWork_le (context : StackMapContext) (linker : TypeLinker) :
    Worklist.potential MachineState.rank context.function.instructionPcs.length
      (2 * context.frame.slotTypes.length) (initialWork context) ≤ context.roundBound := by
  have hsum : ∑ point ∈ Finset.range context.function.instructionPcs.length,
      (((initialWork context).states.get? point).elim
        (2 * context.frame.slotTypes.length + 1) MachineState.rank) ≤
      (Finset.range context.function.instructionPcs.length).card •
        (2 * context.frame.slotTypes.length + 1) := by
    apply Finset.sum_le_card_nsmul
    intro point _
    cases hget : (initialWork context).states.get? point with
    | none => exact le_refl _
    | some state =>
      have hrank := (stackMapAnalysis_lawful context).rank_le
        ((initialWork_invariant context linker).valid hget)
      exact Nat.le_succ_of_le hrank
  rw [Finset.card_range, smul_eq_mul] at hsum
  exact Nat.add_le_add_right hsum 1

/-! ## Paths -/

/-- The instructions that run after a point when nothing is raised. -/
def normalTargets (context : StackMapContext) (index : InstructionIndex)
    (instruction : LinkedInstruction) (pc : Option Nat) :
    Except LinkError (List InstructionIndex) :=
  if instruction.opcode = .streamNext then do
    let (resume, endResume) ← streamNextTargets context instruction pc
    .ok [resume, endResume]
  else successors context index instruction pc (contractForOpcode instruction.opcode).control

/-- The edges out of a point: its successors, the end of its stream and its handler. -/
def graphTargets (context : StackMapContext) (index : InstructionIndex) :
    Except LinkError (List InstructionIndex) := do
  let (artifactPc, instruction) ← context.instructionAt index
  let normal ← normalTargets context index instruction (some artifactPc)
  let exceptional ← exceptionalTarget context (some artifactPc) artifactPc
    (contractForOpcode instruction.opcode).exception
  .ok (normal ++ (exceptional.map (·.2)).toList)

/-- Two points with an edge, given by its position. -/
def GraphEdge (context : StackMapContext) (source : InstructionIndex) (edge : Nat)
    (target : InstructionIndex) : Prop :=
  ∃ targets, graphTargets context source = .ok targets ∧ targets[edge]? = some target

/-- Apply the transfers along a path, given by the positions of its edges. -/
def replay (context : StackMapContext) (linker : TypeLinker) :
    InstructionIndex → MachineState → List Nat → Except LinkError (InstructionIndex × MachineState)
  | index, state, [] => .ok (index, state)
  | index, state, edge :: rest => do
    let all ← (transferProgramPoint context index state linker).1
    let (next, after) ← required all[edge]?
      (.unsatisfied none s!"instruction {index} has no edge {edge}")
    replay context linker next after rest

variable {all : List (InstructionIndex × MachineState)}

variable {index : InstructionIndex} {linker linker' : TypeLinker}

theorem normalSuccessors_targets {instruction : LinkedInstruction}
    (h : normalSuccessors context index instruction pc state next linker = (.ok all, linker')) :
    normalTargets context index instruction pc = .ok (all.map Prod.fst) := by
  unfold normalSuccessors at h
  unfold normalTargets
  split at h
  case isTrue hstream =>
    obtain ⟨resume, endResume, endNext, inputs, htargets, -, -, -, -, rfl⟩ :=
      streamNextSuccessors_eq_ok.mp h
    rw [if_pos hstream, htargets]
    rfl
  case isFalse hstream =>
    obtain ⟨targets, htargets, -, rfl⟩ := controlSuccessors_eq_ok.mp (Mut.ofExcept_eq_ok.mp h).1
    rw [if_neg hstream, htargets, map_map]
    exact congrArg ok (map_id targets).symm

theorem exceptionalSuccessor_targets {behavior : ExceptionBehavior}
    (h : exceptionalSuccessor context pc artifactPc before behavior = .ok all) :
    ∃ target, exceptionalTarget context pc artifactPc behavior = .ok target ∧
      all.map Prod.fst = (target.map (·.2)).toList := by
  obtain ⟨htarget, rfl⟩ | ⟨region, handler, state, htarget, -, rfl⟩ :=
    exceptionalSuccessor_eq_ok.mp h
  · exact ⟨none, htarget, rfl⟩
  · exact ⟨some (region, handler), htarget, rfl⟩

/-- A transfer passes a state along every edge. -/
theorem transferProgramPoint_targets
    (h : transferProgramPoint context index state linker = (.ok all, linker')) :
    graphTargets context index = .ok (all.map Prod.fst) := by
  obtain ⟨artifactPc, instruction, next, middle, normal, exceptional, hat, -, -, hnormal,
    hexceptional, rfl⟩ :=
    transferProgramPoint_eq_ok.mp h
  obtain ⟨target, htarget, htargets⟩ := exceptionalSuccessor_targets hexceptional
  refine bind_eq_ok.mpr ⟨(artifactPc, instruction), hat, ?_⟩
  refine bind_eq_ok.mpr ⟨normal.map Prod.fst, normalSuccessors_targets hnormal, ?_⟩
  refine bind_eq_ok.mpr ⟨target, htarget, ?_⟩
  rw [map_append, htargets]

section

variable {context : StackMapContext} {states : OrdMap InstructionIndex MachineState}
    {linker later : TypeLinker}
variable (hsettled : ∀ {point state}, states.get? point = some state →
  StateValid context linker state ∧
  Worklist.Settled (stackMapAnalysis context) states linker point state)
variable (hle : linker ≤ later)

include hsettled hle

/-- From above a stored state, a transfer succeeds and stays above along each edge. -/
theorem step_sound {stored state : MachineState} (hstored : states.get? index = some stored)
    (hbelow : stored ≤ state) (hvalid : StateValid context later state)
    (haccepted : CopyAccepted context later index state) :
    ∃ all, transferProgramPoint context index state later = (.ok all, later) ∧
      ∀ {edge target}, GraphEdge context index edge target →
        ∃ next after, all[edge]? = some (target, after) ∧
        states.get? target = some next ∧ next ≤ after ∧ StateValid context later after := by
  obtain ⟨hstoredValid, low, hlow, hknown⟩ := hsettled hstored
  change transferProgramPoint context index stored linker = (.ok low, linker) at hlow
  obtain ⟨all, hall, hbelows⟩ :=
    transferProgramPoint_mono hbelow (hstoredValid.mono hle).framed hvalid.framed haccepted
    hlow hle
  refine ⟨all, hall, fun {edge target} hedge => ?_⟩
  obtain ⟨targets, htargets, hposition⟩ := hedge
  rw [transferProgramPoint_targets hall] at htargets
  cases htargets
  rw [getElem?_map] at hposition
  obtain ⟨⟨found, after⟩, hafter, rfl⟩ := Option.map_eq_some_iff.mp hposition
  obtain ⟨hbound, hget⟩ := List.getElem?_eq_some_iff.mp hafter
  have hbound' : edge < low.length := (List.Forall₂.length_eq hbelows) ▸ hbound
  obtain ⟨hsame, hle'⟩ := List.Forall₂.get hbelows hbound' hbound
  obtain ⟨next, hnext, hnextLe⟩ := hknown _ (get_mem low ⟨edge, hbound'⟩)
  rw [get_eq_getElem, get_eq_getElem, hget] at hsame hle'
  rw [get_eq_getElem] at hnext hnextLe
  rw [hsame] at hnext
  exact ⟨next, after, hafter, hnext, hnextLe.trans hle',
    transferProgramPoint_valid hvalid hall _ (mem_of_getElem? hafter)⟩

/-- A replay follows the stored states. -/
theorem replay_sound {index target : InstructionIndex} {edges : List Nat}
    {stored state : MachineState} (hstored : states.get? index = some stored)
    (hbelow : stored ≤ state) (hvalid : StateValid context later state)
    (hpath : Run (GraphEdge context) index edges target)
    (haccepted : ∀ done, done <+: edges → ∀ point reached,
      replay context later index state done = .ok (point, reached) →
        CopyAccepted context later point reached) :
    ∃ next after, replay context later index state edges = .ok (target, after) ∧
      states.get? target = some next ∧ next ≤ after ∧ StateValid context later after := by
  induction edges generalizing index state stored with
  | nil =>
    obtain rfl := Run.nil_iff.mp hpath
    exact ⟨stored, state, rfl, hstored, hbelow, hvalid⟩
  | cons edge rest ih =>
    obtain ⟨middle, hedge, hrest⟩ := Run.cons_iff.mp hpath
    have hfirst := haccepted [] nil_prefix index state rfl
    obtain ⟨all, hall, hstep⟩ := step_sound hsettled hle hstored hbelow hvalid hfirst
    obtain ⟨next, after, hafter, hnext, hnextLe, hafterValid⟩ := hstep hedge
    have hunfold : ∀ done, replay context later index state (edge :: done) =
      replay context later middle after done := by
      intro done
      simp only [replay, hall, hafter, required, Option.elim, bind, Except.bind]
    obtain ⟨last, final, hreplay, hrest⟩ :=
      ih hnext hnextLe hafterValid hrest fun done hdone point reached hreached =>
      haccepted (edge :: done) (cons_prefix_cons.mpr ⟨rfl, hdone⟩) point reached
        ((hunfold done).trans hreached)
    exact ⟨last, final, (hunfold rest).trans hreplay, hrest⟩

end

end Skiff.Bytecode
