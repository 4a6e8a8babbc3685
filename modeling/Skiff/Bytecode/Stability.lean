import Skiff.Bytecode.StackMap

/-!
# The stack map only adds type rows

Everything that the stack map asks of the type linker is `Mut.Stable`: rows are looked up or
added, and the same question asked later has the same answer. So a transfer that succeeded
while the map was computed succeeds with the same successors on the finished tables.
-/

namespace Skiff.Bytecode

open Mut (Stable)

variable {error : LinkError}

theorem required_eq_ok {α : Type} {found : Option α} {a : α} :
    required found error = .ok a ↔ found = some a := by
  cases found <;> simp [required]

/-- What a linker finds, later ones find too. -/
theorem lookup_stable {α : Type} {find : TypeLinker → Option α}
    (hfind : ∀ {linker later : TypeLinker} {a : α}, linker ≤ later → find linker = some a →
      find later = some a) :
    Stable (lookup find error) := by
  apply Stable.read
  intro linker later a h hle
  exact required_eq_ok.mpr (hfind hle (required_eq_ok.mp h))

theorem check_stable {holds : TypeLinker → Bool} {error : TypeLinker → LinkError}
    (hholds : ∀ {linker later : TypeLinker}, linker ≤ later → holds linker = true →
      holds later = true) :
    Stable (check holds error) := by
  apply Stable.read
  intro linker later a h hle
  split at h
  case isTrue hlinker => rw [if_pos (hholds hle hlinker)]
  case isFalse => cases h

/-! ## Rows -/

section

variable {linker later : TypeLinker} (hle : linker ≤ later)

include hle

theorem shape_mono {index : Nat} {row : LinkedShapeEntry}
    (h : linker.shapes.rows[index]? = some row) :
    later.shapes.rows[index]? = some row :=
  InternTable.getElem?_mono hle.2.1 h

theorem shapeField_mono {index ordinal : Nat} {field : LinkedStackValue}
    (h : (linker.shapes.rows[index]?.bind fun shape => shape.fields[ordinal]?) = some field) :
    (later.shapes.rows[index]?.bind fun shape => shape.fields[ordinal]?) = some field := by
  obtain ⟨row, hrow, hfield⟩ := Option.bind_eq_some_iff.mp h
  exact Option.bind_eq_some_iff.mpr ⟨row, shape_mono hle hrow, hfield⟩

theorem ownShape_mono {index : Nat} {row : LinkedShapeEntry}
    (h : (linker.shapes.rows[index]?.filter fun shape => shape.index = index) = some row) :
    (later.shapes.rows[index]?.filter fun shape => shape.index = index) = some row := by
  obtain ⟨hrow, hindex⟩ := Option.filter_eq_some_iff.mp h
  exact Option.filter_eq_some_iff.mpr ⟨shape_mono hle hrow, hindex⟩

variable {expected actual : LinkedStackValue}

/-- A match of values reads rows that later linkers keep. -/
theorem unionBranchValueMatches_mono (h : linker.unionBranchValueMatches expected actual = true) :
    later.unionBranchValueMatches expected actual = true := by
  unfold TypeLinker.unionBranchValueMatches at h ⊢
  split at h
  case h_1 expectedRef actualRef hexpected hactual =>
    rw [TypeLinker.linkedTypeRef_mono hle hexpected, TypeLinker.linkedTypeRef_mono hle hactual]
    exact h
  case h_2 => cases h

theorem linkedValueMatches_mono (h : linker.linkedValueMatches expected actual = true) :
    later.linkedValueMatches expected actual = true := by
  unfold TypeLinker.linkedValueMatches at h ⊢
  split at h
  case h_1 expectedRef actualRef expectedPlan actualPlan hexpected hactual hexpectedPlan
    hactualPlan =>
    rw [TypeLinker.linkedTypeRef_mono hle hexpected, TypeLinker.linkedTypeRef_mono hle hactual,
      TypeLinker.linkedTypePlan_mono hle hexpectedPlan,
        TypeLinker.linkedTypePlan_mono hle hactualPlan]
    obtain h | h := Bool.or_eq_true_iff.mp h
    · exact Bool.or_eq_true_iff.mpr (.inl h)
    · exact Bool.or_eq_true_iff.mpr (.inr (unionBranchValueMatches_mono hle h))
  case h_2 => cases h

theorem linkedValuesMatch_mono {expected actual : List LinkedStackValue}
    (h : linker.linkedValuesMatch expected actual = true) :
    later.linkedValuesMatch expected actual = true := by
  induction expected generalizing actual with
  | nil =>
    cases actual with
    | nil => rfl
    | cons => cases h
  | cons first rest ih =>
    cases actual with
    | nil => cases h
    | cons other others =>
      obtain ⟨hfirst, hrest⟩ := Bool.and_eq_true_iff.mp h
      exact Bool.and_eq_true_iff.mpr ⟨linkedValueMatches_mono hle hfirst, ih hrest⟩

end

variable (index : TypeIndex) (error : LinkError)

theorem linkedTypeRef_stable : Stable (lookup (·.linkedTypeRef index) error) :=
  lookup_stable fun hle h => TypeLinker.linkedTypeRef_mono hle h

theorem linkedTypePlan_stable : Stable (lookup (·.linkedTypePlan index) error) :=
  lookup_stable fun hle h => TypeLinker.linkedTypePlan_mono hle h

theorem containerLayout_stable : Stable (lookup (·.containerLayout index) error) :=
  lookup_stable fun hle h => TypeLinker.containerLayout_mono hle h

/-! ## Values -/

section

variable (context : StackMapContext) (instruction : LinkedInstruction) (pc : Option Nat)

theorem valueWithLinkedPlan_stable (ty : TypeIndex) : Stable (valueWithLinkedPlan pc ty) :=
  (linkedTypePlan_stable _ _).bind fun _ => .pure _

theorem scalarValue_stable (name : String) : Stable (scalarValue context pc name) :=
  (context.interning.internBuiltin_stable name).bind fun ty =>
    (valueWithLinkedPlan_stable pc ty).bind fun _ => .pure _

theorem internedValue_stable (ty : TypeRefIr) : Stable (internedValue context pc ty) :=
  (context.interning.internConcreteType_stable ty).bind fun index =>
    (valueWithLinkedPlan_stable pc index).bind fun _ => .pure _

variable (role : OperandRole)

theorem poolTypeValue_stable : Stable (poolTypeValue context instruction pc role) :=
  (Stable.ofExcept _).bind fun entry =>
    (context.interning.internPoolType_stable entry).bind fun ty =>
    (valueWithLinkedPlan_stable pc ty).bind fun _ => .pure _

theorem poolShape_stable : Stable (poolShape context instruction pc role) :=
  (Stable.ofExcept _).bind fun entry =>
    (context.interning.internPoolShape_stable entry).bind fun _ =>
    lookup_stable fun hle h => shape_mono hle h

theorem writablePath_stable : Stable (writablePath context instruction pc role) :=
  (Stable.ofExcept _).bind fun entry =>
    (context.interning.internWritablePath_stable entry).bind fun _ =>
    lookup_stable fun hle h => InternTable.getElem?_mono hle.2.2.1 h

theorem selectorValues_stable (segment : LinkedWritablePathSegment) :
    Stable (selectorValues context pc segment) := by
  cases segment with
  | denseField shape ordinal => exact .pure []
  | arrayIndex ordinal element => exact scalarValue_stable context pc "number"
  | mapKey ordinal keyType valueType =>
    exact (valueWithLinkedPlan_stable pc keyType).bind fun _ => .pure _

theorem selectorPathValues_stable : Stable (selectorPathValues context instruction pc role) :=
  (writablePath_stable context instruction pc role).bind fun _ =>
    (Stable.collect (selectorValues_stable context pc)).bind fun _ => .pure _

variable (inputs : List (List LinkedStackValue))

theorem containerElement_stable (group : Nat) (key : Bool) :
    Stable (containerElement pc inputs group key) :=
  (Stable.ofExcept _).bind fun _ => (containerLayout_stable _ _).bind fun _ => .ofExcept _

theorem containerElementFromSlot_stable (key : Bool) :
    Stable (containerElementFromSlot context instruction pc role key) :=
  (Stable.ofExcept _).bind fun _ => (Stable.ofExcept _).bind fun _ =>
    (containerLayout_stable _ _).bind fun _ => .ofExcept _

theorem functionStreamItem_stable : Stable (functionStreamItem context instruction pc) :=
  (Stable.ofExcept _).bind fun _ => (Stable.ofExcept _).bind fun _ =>
    (lookup_stable fun hle h => ownShape_mono hle h).bind fun _ => .pure _

theorem mapBuilderValue_stable (keyRole valueRole : OperandRole) :
    Stable (mapBuilderValue context instruction pc keyRole valueRole) :=
  (Stable.ofExcept _).bind fun key => (Stable.ofExcept _).bind fun value =>
    (context.interning.internPoolType_stable key).bind fun _ =>
    (context.interning.internPoolType_stable value).bind fun _ =>
    (linkedTypeRef_stable _ _).bind fun _ =>
    (linkedTypeRef_stable _ _).bind fun _ => internedValue_stable context pc _

theorem arrayBuilderValue_stable : Stable (arrayBuilderValue context instruction pc role) :=
  (Stable.ofExcept _).bind fun entry =>
    (context.interning.internPoolType_stable entry).bind fun _ =>
    (linkedTypeRef_stable _ _).bind fun _ => internedValue_stable context pc _

theorem representationPayloadValue_stable :
    Stable (representationPayloadValue context instruction pc role) :=
  (Stable.ofExcept _).bind fun entry =>
    (context.interning.internPoolType_stable entry).bind fun _ =>
    (linkedTypeRef_stable _ _).bind fun _ => (Stable.ofExcept _).bind fun _ =>
    internedValue_stable context pc _

theorem interfaceReceiverValue_stable :
    Stable (interfaceReceiverValue context instruction pc role) := by
  refine (Stable.ofExcept _).bind fun table => ?_
  split
  case h_1 concreteType methods _ =>
    exact (valueWithLinkedPlan_stable pc concreteType).bind fun _ => .pure _
  case h_2 => exact .fail _

theorem callbackCaptureValues_stable : Stable (callbackCaptureValues context instruction pc role) :=
  (Stable.ofExcept _).bind fun entry =>
    (context.interning.internCallbackCaptureLayout_stable entry).bind fun _ =>
    lookup_stable fun hle h => InternTable.getElem?_mono hle.2.2.2 h

theorem shapeFieldValue_stable (shapeRole ordinalRole : OperandRole) :
    Stable (shapeFieldValue context instruction pc shapeRole ordinalRole) :=
  (Stable.ofExcept _).bind fun entry =>
    (context.interning.internPoolShape_stable entry).bind fun _ =>
    (Stable.ofExcept _).bind fun _ =>
      (lookup_stable fun hle h => shapeField_mono hle h).bind fun _ => .pure _

/-- One case for each place a value can come from. -/
theorem sourceValues_stable (source : ValueSource) :
    Stable (sourceValues context instruction pc inputs source) := by
  cases source with
  | bool | number | collectionIndex => exact scalarValue_stable context pc _
  | constant operand | slot operand | stackInput group | targetParameters target
  | targetResults target | arrayFromBuilder group | mapFromBuilder group | streamItem role
  | exceptionEnvelope role => exact .ofExcept _
  | functionResults => exact .pure _
  | interfaceReceiver target => exact interfaceReceiverValue_stable context instruction pc target
  | interfaceCarrier target | callbackClosure target =>
    exact (Stable.ofExcept _).bind fun _ => internedValue_stable context pc _
  | callbackCaptures target => exact callbackCaptureValues_stable context instruction pc target
  | shapeFields role | shapeValue role =>
    exact (poolShape_stable context instruction pc role).bind fun _ => .pure _
  | shapeField role ordinal => exact shapeFieldValue_stable context instruction pc role ordinal
  | writablePathSelectors role => exact selectorPathValues_stable context instruction pc role
  | writablePathLeaf role =>
    exact (writablePath_stable context instruction pc role).bind fun _ =>
      (valueWithLinkedPlan_stable pc _).bind fun _ => .pure _
  | representationPayload role =>
    exact representationPayloadValue_stable context instruction pc role
  | representationValue role | exceptionPayload role =>
    exact poolTypeValue_stable context instruction pc role
  | arrayBuilder role => exact arrayBuilderValue_stable context instruction pc role
  | arrayValue | mapValue | anyStackValue | taggedValue | comparablePair
  | inOutCallInputs target layout => exact .fail _
  | arrayElement group | mapElement group => exact containerElement_stable pc inputs group false
  | arrayElementFromSlot role | mapElementFromSlot role =>
    exact containerElementFromSlot_stable context instruction pc role false
  | mapBuilder keyRole valueRole =>
    exact mapBuilderValue_stable context instruction pc keyRole valueRole
  | mapKey group => exact containerElement_stable pc inputs group true
  | mapKeyFromSlot role => exact containerElementFromSlot_stable context instruction pc role true
  | functionStreamItem => exact functionStreamItem_stable context instruction pc

theorem validateExactContainerValue_stable (actual : List LinkedStackValue) (name : String)
    (arity : Nat) :
    Stable (validateExactContainerValue pc actual name arity) := by
  unfold validateExactContainerValue
  split
  case h_1 value =>
    refine (linkedTypeRef_stable _ _).bind fun ty => (linkedTypePlan_stable _ _).bind fun plan => ?_
    split
    case isTrue =>
      split
      case isTrue => exact .pure _
      case isFalse => exact .fail _
    case isFalse => exact .fail _
  case h_2 => exact .fail _

theorem validateInputGroup_stable (source : ValueSource) (actual : List LinkedStackValue)
    (inputs : List (List LinkedStackValue)) :
    Stable (validateInputGroup context instruction pc source actual inputs) := by
  unfold validateInputGroup
  split
  case h_1 | h_2 => exact .pure _
  case h_3 => exact validateExactContainerValue_stable pc actual "Array" 1
  case h_4 => exact validateExactContainerValue_stable pc actual "Map" 2
  case h_5 =>
    split
    case h_1 => exact check_stable fun hle h => linkedValueMatches_mono hle h
    case h_2 => exact .fail _
  case h_6 =>
    exact (sourceValues_stable context instruction pc inputs _).bind fun _ =>
      check_stable fun hle h => linkedValuesMatch_mono hle h

/-! ## Instructions -/

/-- By induction on the groups, each taken below those before it. -/
theorem readGroups_stable (groups : List (TypedStackGroup × Nat)) (consumed : List LinkedStackValue)
    (inputs : List (List LinkedStackValue)) :
    Stable (readGroups context instruction pc groups consumed inputs) := by
  induction groups generalizing consumed inputs with
  | nil => exact .pure _
  | cons first rest ih =>
    obtain ⟨group, arity⟩ := first
    unfold readGroups
    split
    case isTrue =>
      exact (validateInputGroup_stable context instruction pc group.value _ inputs).bind fun _ =>
        ih _ _
    case isFalse => exact .fail _

variable (groups : List TypedStackGroup)

theorem takeStackInputs_stable (stack : List LinkedStackValue) :
    Stable (takeStackInputs context instruction pc groups stack) := by
  refine (Stable.ofExcept _).bind fun arities => ?_
  split
  case isTrue => exact .fail _
  case isFalse => exact (readGroups_stable context instruction pc _ _ _).bind fun _ => .pure _

theorem applyStackInputs_stable (state : MachineState) :
    Stable (applyStackInputs context instruction pc groups state) :=
  (takeStackInputs_stable context instruction pc groups state.stack).bind fun _ => .pure _

theorem validateSlotWrite_stable (slot : Nat) (value : LinkedStackValue) :
    Stable (validateSlotWrite context pc slot value) :=
  (Stable.ofExcept _).bind fun _ => (Stable.ofExcept _).bind fun _ =>
    (check_stable fun hle h => linkedValueMatches_mono hle h).bind fun _ =>
    (linkedTypeRef_stable _ _).bind fun _ =>
    (linkedTypeRef_stable _ _).bind fun _ => .pure _

theorem applySlotEffect_stable (before slots : List LinkedSlotState) (effect : SlotEffectContract) :
    Stable (applySlotEffect context instruction pc inputs before slots effect) := by
  refine (Stable.ofExcept _).bind fun slot => (Stable.ofExcept _).bind fun current => ?_
  split
  case isTrue =>
    exact (Stable.ofExcept _).bind fun value =>
      (validateSlotWrite_stable context pc slot value).bind fun _ => .pure _
  case isFalse => exact (Stable.ofExcept _).bind fun _ => .pure _

theorem applyEffects_stable (before : List LinkedSlotState)
    (effects : List SlotEffectContract) (slots : List LinkedSlotState) :
    Stable (applyEffects context instruction pc inputs before effects slots) := by
  induction effects generalizing slots with
  | nil => exact .pure _
  | cons effect rest ih =>
    exact (applySlotEffect_stable context instruction pc inputs before slots effect).bind fun _ =>
      ih _

theorem applySlotContract_stable (contract : SlotContract) (inputs : List (List LinkedStackValue))
    (slots : List LinkedSlotState) :
    Stable (applySlotContract context instruction pc contract inputs slots) := by
  cases contract with
  | none => exact .pure _
  | inOutCallLoans target layout => exact .fail _
  | effects effects => exact applyEffects_stable context instruction pc inputs slots effects slots

variable (state : MachineState)

theorem applyInstructionWithoutResults_stable :
    Stable (applyInstructionWithoutResults context instruction pc state) :=
  (applyStackInputs_stable context instruction pc _ state).bind fun taken =>
    ((applySlotContract_stable context instruction pc _ taken.2 taken.1.slots).bind fun _ =>
      .pure _).bind fun _ =>
    (Stable.ofExcept _).bind fun _ => .pure _

theorem outputValues_stable (group : TypedStackGroup) :
    Stable (outputValues context instruction pc inputs group) :=
  (Stable.ofExcept _).bind fun _ =>
    (sourceValues_stable context instruction pc inputs group.value).bind fun _ =>
    .ofExcept _

theorem applyStackOutputs_stable : Stable (applyStackOutputs context instruction pc inputs state) :=
  (Stable.collect (outputValues_stable context instruction pc inputs)).bind fun _ => .pure _

/-- The inputs, the slots and the results of an instruction. -/
theorem applyInstruction_stable : Stable (applyInstruction context instruction pc state) :=
  (applyInstructionWithoutResults_stable context instruction pc state).bind fun applied =>
    applyStackOutputs_stable context instruction pc applied.2 applied.1

theorem streamNextSuccessors_stable (state next : MachineState) :
    Stable (streamNextSuccessors context instruction pc state next) := by
  refine (Stable.ofExcept _).bind fun targets =>
    (applyInstructionWithoutResults_stable context instruction pc state).bind fun _ =>
    (Stable.ofExcept _).bind fun _ => ?_
  split
  case isTrue => exact .pure _
  case isFalse => exact .fail _

theorem normalSuccessors_stable (index : InstructionIndex) (state next : MachineState) :
    Stable (normalSuccessors context index instruction pc state next) := by
  unfold normalSuccessors
  split
  case isTrue => exact streamNextSuccessors_stable context instruction pc state next
  case isFalse => exact .ofExcept _

end

/-- A later linker transfers each point to the same states. -/
theorem transferProgramPoint_stable (context : StackMapContext) (index : InstructionIndex)
    (state : MachineState) :
    Stable (transferProgramPoint context index state) :=
  (Stable.ofExcept _).bind fun found =>
    (applyInstruction_stable context found.2 _ state).bind fun next =>
      (Stable.ofExcept _).bind fun _ =>
    (normalSuccessors_stable context found.2 _ index state next).bind fun _ =>
    (Stable.ofExcept _).bind fun _ => .pure _

end Skiff.Bytecode
