import Skiff.Bytecode.Replay

/-!
# What a stack map promises

The entries of an accepted map are the states of the worklist. So a replay of any path to an
instruction ends with the operand stack, regions and loans of its entry, within the declared
depth, and with every slot live that the entry calls live.
-/

namespace Skiff.Bytecode

open List

variable {index : InstructionIndex}

section

variable {context : StackMapContext} {linker linker' : TypeLinker}
    {candidate : LinkedStackMapCandidate}

variable {entry : LinkedProgramPointState}

theorem validateEntries_ok {slotCount maxOperandDepth position : Nat}
    {entries : List LinkedProgramPointState}
    (h : validateEntries slotCount maxOperandDepth position entries = .ok ()) {offset : Nat}
    (hentry : entries[offset]? = some entry) :
    entry.validate (position + offset) slotCount maxOperandDepth = .ok () := by
  induction entries generalizing position offset with
  | nil => cases hentry
  | cons first rest ih =>
    obtain ⟨_, hfirst, hrest⟩ := bind_eq_ok.mp h
    cases offset with
    | zero =>
      cases hentry
      exact hfirst
    | succ offset =>
      have hlater := ih hrest hentry
      rwa [Nat.add_right_comm, Nat.add_assoc] at hlater

theorem validate_depth {position slotCount maxOperandDepth : Nat}
    (h : entry.validate position slotCount maxOperandDepth = .ok ()) :
    entry.stackBefore.length ≤ maxOperandDepth := by
  unfold LinkedProgramPointState.validate at h
  by_contra hdepth
  rw [if_pos (Nat.not_le.mp hdepth)] at h
  split at h
  case isTrue => cases h
  case isFalse =>
    split at h
    case isTrue => cases h
    case isFalse => cases h

/-- The entry of an instruction is its state, and is within the declared depth. -/
theorem finishStackMap_spec {states : OrdMap InstructionIndex MachineState}
    (h : finishStackMap context states = .ok candidate) {state : MachineState}
    (hindex : index < context.instructions.length) (hstate : states.get? index = some state) :
    candidate.entries[index]? = some (.ofState index state) ∧
      state.stack.length ≤ context.function.maxOperandDepth := by
  unfold finishStackMap at h
  split at h
  case isTrue => cases h
  case isFalse =>
    obtain ⟨entries, hentries, h⟩ := bind_eq_ok.mp h
    have hentry : entries[index]? = some (.ofState index state) := by
      have hall := forall₂_of_mapM hentries
      have hlength : index < entries.length := by
        rw [← List.Forall₂.length_eq hall, length_range]
        exact hindex
      have hget := List.Forall₂.get hall (by rwa [length_range]) hlength
      simp only [get_eq_getElem, getElem_range, hstate, required, Option.elim, bind, Except.bind,
        Except.ok.injEq] at hget
      rw [getElem?_eq_getElem hlength, hget]
    cases hcandidate : LinkedStackMapCandidate.tryNew entries context.instructions.length
        context.frame.slotTypes.length context.function.maxOperandDepth with
    | error error =>
      rw [hcandidate] at h
      cases h
    | ok made =>
      rw [hcandidate] at h
      cases h
      unfold LinkedStackMapCandidate.tryNew at hcandidate
      split at hcandidate
      case isTrue => cases hcandidate
      case isFalse =>
        obtain ⟨_, hvalidated, hmade⟩ := bind_eq_ok.mp hcandidate
        cases hmade
        exact ⟨hentry, validate_depth (validateEntries_ok hvalidated hentry)⟩

theorem buildStackMap_cases {rounds : Nat} {result : Option LinkedStackMapCandidate}
    (h : buildStackMap context rounds linker = (.ok result, linker')) :
    ∃ states, computeStates context rounds linker = (.ok states, linker') ∧
      ((states = none ∧ result = none) ∨
        ∃ found candidate, states = some found ∧ finishStackMap context found = .ok candidate ∧
          result = some candidate) := by
  obtain ⟨_, -, h⟩ := Mut.ofExcept_bind_eq_ok.mp h
  obtain ⟨states, middle, hstates, h⟩ := Mut.bind_eq_ok.mp h
  cases states with
  | none =>
    obtain ⟨rfl, rfl⟩ := Mut.pure_eq_ok.mp h
    exact ⟨none, hstates, .inl ⟨rfl, rfl⟩⟩
  | some found =>
    obtain ⟨candidate, hcandidate, h⟩ := Mut.ofExcept_bind_eq_ok.mp h
    obtain ⟨rfl, rfl⟩ := Mut.pure_eq_ok.mp h
    exact ⟨some found, hstates, .inr ⟨found, candidate, rfl, hcandidate, rfl⟩⟩

end

/-- An entry describes a state: the same stack, regions and loans, and its live slots are
live there. -/
structure LinkedProgramPointState.Describes (entry : LinkedProgramPointState)
    (state : MachineState) : Prop where
  stack : state.stack = entry.stackBefore
  activeRegions : state.activeRegions = entry.activeRegions
  writableLoans : state.writableLoans = entry.writableLoans
  live : ∀ {slot : Nat} {value : LinkedStackValue}, entry.slotsBefore[slot]? = some (.live value) →
    ∃ held, state.slots[slot]? = some (.live held)

theorem ofState_describes {stored state : MachineState} (h : stored ≤ state) :
    (LinkedProgramPointState.ofState index stored).Describes state where
  stack := h.1.symm
  activeRegions := h.2.1.symm
  writableLoans := h.2.2.1.symm
  live hlive := h.2.2.2.live hlive

/-- The worklist ends. A replay from the parameters along any path succeeds, as long as it
meets no copy out of a slot of union type that the destination does not accept, and the entry
of the instruction it reaches describes the replayed state. -/
theorem stackMap_describes_replays (context : StackMapContext) (linker : TypeLinker) :
    (∀ rounds linker', context.roundBound ≤ rounds →
      buildStackMap context rounds linker ≠ (.ok none, linker')) ∧
    ∀ rounds candidate linker' later edges target,
      buildStackMap context rounds linker = (.ok (some candidate), linker') → linker' ≤ later →
      Run (GraphEdge context) 0 edges target →
      (∀ done, done <+: edges → ∀ point reached,
        replay context later 0 (initialState context.frame) done = .ok (point, reached) →
        CopyAccepted context later point reached) →
      ∃ entry state successors, candidate.entries[target]? = some entry ∧
        replay context later 0 (initialState context.frame) edges = .ok (target, state) ∧
        transferProgramPoint context target state later = (.ok successors, later) ∧
        entry.Describes state ∧ state.stack.length ≤ context.function.maxOperandDepth := by
  have hlaw := stackMapAnalysis_lawful context
  have hstart := initialWork_invariant context linker
  constructor
  · intro rounds linker' hrounds h
    obtain ⟨states, hstates, ⟨rfl, -⟩ | ⟨found, candidate, rfl, -, hsome⟩⟩ := buildStackMap_cases h
    · exact Worklist.run_ne_none hlaw hstart
        ((potential_initialWork_le context linker).trans hrounds) hstates
    · cases hsome
  intro rounds candidate linker' later edges target h hle hpath haccepted
  obtain ⟨states, hstates, ⟨-, hnone⟩ | ⟨found, made, rfl, hfinish, hmade⟩⟩ := buildStackMap_cases h
  · cases hnone
  cases hmade
  obtain ⟨hsettled, hbelow⟩ := Worklist.run_settled hlaw hstart hstates
  have hparameters : (initialWork context).states.get? 0 = some (initialState context.frame) := rfl
  obtain ⟨first, hfirst, hfirstLe⟩ := hbelow hparameters
  obtain ⟨stored, state, hreplay, hstored, hstoredLe, hvalid⟩ :=
    replay_sound hsettled hle hfirst hfirstLe
    (initialState_valid context later) hpath haccepted
  have hlast := haccepted edges (prefix_refl _) target state hreplay
  obtain ⟨successors, hsuccessors, -⟩ := step_sound hsettled hle hstored hstoredLe hvalid hlast
  obtain ⟨artifactPc, instruction, -, -, -, -, hat, -⟩ := transferProgramPoint_eq_ok.mp hsuccessors
  have hindex := (List.getElem?_eq_some_iff.mp (instructionAt_eq_ok.mp hat).2).1
  obtain ⟨hentry, hdepth⟩ := finishStackMap_spec hfinish hindex hstored
  refine ⟨_, state, successors, hentry, hreplay, hsuccessors, ofState_describes hstoredLe, ?_⟩
  rw [← hstoredLe.1]
  exact hdepth

/-! ## Two branches of a union -/

namespace UnionBranches

def release : LinkedValueTransferPlan := .snapshotShare .snapshotRelease

def typeRows : List LinkedTypeEntry :=
  [⟨0, .union [.builtin "string" [], .builtin "bytes" []], release, none⟩,
    ⟨1, .builtin "string" [], release, none⟩,
    ⟨2, .builtin "bytes" [], release, none⟩, ⟨3, .builtin "bool" [], .snapshotShare .trivial, none⟩]

def linker : TypeLinker where
  types := ⟨typeRows, OrdMap.ofList [(0, 0), (1, 1), (2, 2), (3, 3)]⟩
  shapes := ⟨[], ∅⟩
  writablePaths := ⟨[], ∅⟩
  callbackCaptureLayouts := ⟨[], ∅⟩

/-- The pool has only the four types above, all of them linked. -/
def interning : Interning where
  linkType _ := Mut.fail (.typeLinking "no such type")
  linkShape _ := Mut.fail (.typeLinking "no such shape")
  linkWritablePath _ := Mut.fail (.typeLinking "no such path")
  linkCallbackCaptureLayout _ := Mut.fail (.typeLinking "no such layout")
  findPoolType ty := .ok (typeRows.findIdx? (·.typeRef = ty))
  findPoolTypeAfterSubstitution ty := .ok (typeRows.findIdx? (·.typeRef = ty))
  representationPayload _ := .error (.typeLinking "no representation type")
  linkType_grows h := by cases h
  linkShape_grows h := by cases h
  linkWritablePath_grows h := by cases h
  linkCallbackCaptureLayout_grows h := by cases h

/-- A union slot, a string slot and the parameters: a string, bytes and a condition. -/
def frame : LinkedFrameLayout where
  slotTypes := [0, 1, 1, 2, 3]
  parameters := [⟨2, .value, release⟩, ⟨3, .value, release⟩, ⟨4, .value, .snapshotShare .trivial⟩]
  writableLocalSlots := [0, 1]
  resultTypes := []
  slotPlans := [release, release, release, release, .snapshotShare .trivial]
  resultPlans := []
  slotPlanCount := rfl
  resultPlanCount := rfl
  parameterSlots := by decide
  distinctParameters := by decide
  parameterPlans := by decide
  writableSlots := by decide
  writableOrder := by decide

/-- Store the string or the bytes in the union slot, then copy it to the string slot. -/
def instructions : List LinkedInstruction :=
  [⟨.loadSlot, [4], [⟨0, .frameSlot 4⟩], 0, rfl, by decide⟩,
    ⟨.jumpIfFalse, [10], [⟨0, .branch 5⟩], 2, rfl, by decide⟩,
    ⟨.loadSlot, [2], [⟨0, .frameSlot 2⟩], 4, rfl, by decide⟩,
    ⟨.storeSlot, [0], [⟨0, .frameSlot 0⟩], 6, rfl, by decide⟩,
    ⟨.jump, [14], [⟨0, .branch 7⟩], 8, rfl, by decide⟩,
    ⟨.loadSlot, [3], [⟨0, .frameSlot 3⟩], 10, rfl, by decide⟩,
    ⟨.storeSlot, [0], [⟨0, .frameSlot 0⟩], 12, rfl, by decide⟩,
    ⟨.copySlot, [0, 1], [⟨0, .frameSlot 0⟩, ⟨1, .frameSlot 1⟩], 14, rfl, by decide⟩,
    ⟨.functionReturn, [], [], 17, rfl, by decide⟩]

def pcs : List Nat := [0, 2, 4, 6, 8, 10, 12, 14, 17]

def context : StackMapContext where
  function := ⟨pcs, pcs, [], [], 1⟩
  functionIndex := some 0
  instructions := instructions
  frame := frame
  allFrames := [frame]
  switchTables := []
  constants := []
  dispatchTables := ⟨[], [], [], [], [], ∅, []⟩
  resumeSites := []
  interning := interning

theorem context_accepted :
    ∃ candidate, buildStackMap context context.roundBound linker = (.ok (some candidate), linker) :=
  ⟨_, rfl⟩

end UnionBranches

open UnionBranches in
/-- Both ways meet at the copy. The map keeps the string of the first one, so the copy is
accepted, but after the second one the slot holds bytes. -/
theorem stackMap_keeps_first_branch :
    (∃ candidate, buildStackMap context context.roundBound linker =
      (.ok (some candidate), linker)) ∧
    Run (GraphEdge context) 0 [0, 1, 0, 0, 0] 8 ∧
    replay context linker 0 (initialState frame) [0, 1, 0, 0, 0] =
      .error (.slotWriteDiffers (some 14) 1 ⟨1, release⟩ ⟨2, release⟩
        (some (.builtin "string" [])) (some (.builtin "bytes" []))) := by
  refine ⟨context_accepted, ?_, rfl⟩
  exact .cons ⟨[1], rfl, rfl⟩
    (.cons ⟨[2, 5], rfl, rfl⟩ (.cons ⟨[6], rfl, rfl⟩ (.cons ⟨[7], rfl, rfl⟩
    (.cons ⟨[8], rfl, rfl⟩ (.nil 8)))))

theorem copyAccepted_of_not_copies {context : StackMapContext} {linker : TypeLinker}
    {state : MachineState} {instruction : LinkedInstruction}
    (hinstruction : context.instructions[index]? = some instruction)
    (hcopies : instruction.opcode.copies = false) : CopyAccepted context linker index state := by
  intro other source destination value declared hother hcopy
  rw [hinstruction] at hother
  cases hother
  rw [hcopies] at hcopy
  cases hcopy

open UnionBranches in
/-- On the first way the copy is accepted. -/
theorem stackMap_describes_replays_firstBranch :
    (∀ linker', buildStackMap context context.roundBound linker ≠ (.ok none, linker')) ∧
    ∃ candidate entry state successors,
      buildStackMap context context.roundBound linker = (.ok (some candidate), linker) ∧
      candidate.entries[7]? = some entry ∧
      replay context linker 0 (initialState frame) [0, 0, 0, 0, 0] = .ok (7, state) ∧
      transferProgramPoint context 7 state linker = (.ok successors, linker) ∧
      entry.Describes state ∧ state.stack.length ≤ 1 := by
  obtain ⟨hends, hsound⟩ := stackMap_describes_replays context linker
  have hpath : Run (GraphEdge context) 0 [0, 0, 0, 0, 0] 7 :=
    .cons ⟨[1], rfl, rfl⟩ (.cons ⟨[2, 5], rfl, rfl⟩ (.cons ⟨[3], rfl, rfl⟩ (.cons ⟨[4], rfl, rfl⟩
      (.cons ⟨[7], rfl, rfl⟩ (.nil 7)))))
  have haccepted : ∀ done, done <+: [0, 0, 0, 0, 0] → ∀ point reached,
      replay context linker 0 (initialState frame) done = .ok (point, reached) →
      CopyAccepted context linker point reached := by
    intro done hdone point reached hreached
    simp only [prefix_cons_iff, prefix_nil] at hdone
    obtain rfl | ⟨_, rfl, rfl | ⟨_, rfl, rfl | ⟨_, rfl, rfl | ⟨_, rfl, rfl | ⟨_, rfl, rfl⟩⟩⟩⟩⟩ :=
      hdone
    all_goals cases hreached
    · exact copyAccepted_of_not_copies rfl rfl
    · exact copyAccepted_of_not_copies rfl rfl
    · exact copyAccepted_of_not_copies rfl rfl
    · exact copyAccepted_of_not_copies rfl rfl
    · exact copyAccepted_of_not_copies rfl rfl
    intro instruction source destination value declared hinstruction hcopies hoperands hunion hvalue
      hdeclared
    cases hinstruction
    obtain ⟨rfl, hrest⟩ := cons.inj hoperands
    cases hrest
    obtain rfl := LinkedSlotState.live.inj (Option.some.inj hvalue)
    cases hdeclared
    rfl
  obtain ⟨candidate, hbuilt⟩ := context_accepted
  obtain ⟨entry, state, successors, h⟩ :=
    hsound _ _ _ linker _ _ hbuilt (le_refl _) hpath haccepted
  exact ⟨fun linker' => hends _ linker' (le_refl _), candidate, entry, state, successors, hbuilt, h⟩

end Skiff.Bytecode
