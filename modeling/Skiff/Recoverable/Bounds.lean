import Skiff.Recoverable.Decoder

/-!
# The decoder stays within its input and its depth

Whatever a run of the decoder returns, its offset is within the input. The levels of the recursion
are enough: with more of them every run is the same, so no run goes below the depth limit.
-/

namespace Skiff.Recoverable

/-- A run from an offset within the input, whatever it returns, ends at one. -/
def Within {α : Type} (input : Bytes) (read : DecodeM α) : Prop :=
  Mut.Contract (fun state : DecoderState => state.offset ≤ input.length) read
    (fun _ state => state.offset ≤ input.length) (fun state => state.offset ≤ input.length)

variable {input : Bytes} {limits : RecoverableValidationLimits} {path : String} {depth levels : Nat}

namespace Within

variable {α β : Type}

theorem bind {read : DecodeM α} {f : α → DecodeM β} (h : Within input read)
    (hf : ∀ a, Within input (f a)) : Within input (read >>= f) := Mut.Contract.bind h hf

theorem pure (a : α) : Within input (Pure.pure a) := Mut.Contract.pure a fun _ h => h

theorem refuse (path message : String) : Within input (refuse path message : DecodeM α) :=
  Mut.Contract.fail _ fun _ h => h

theorem ofExcept (x : Checked α) : Within input (Mut.ofExcept x) :=
  (Mut.Contract.ofExcept x fun _ h => h).consequence (fun _ h => h) (fun _ _ h => h.1) fun _ h => h

theorem look (f : DecoderState → Checked α) : Within input (Mut.read f) :=
  (Mut.Contract.read f fun _ h => h).consequence (fun _ h => h) (fun _ _ h => h.1) fun _ h => h

theorem guarded {condition : Prop} [Decidable condition] {read : DecodeM α} {path message : String}
    (h : Within input read) :
    Within input (if condition then Skiff.Recoverable.refuse path message else read) := by
  split
  · exact refuse path message
  · exact h

end Within

/-! ## Offsets -/

/-- The only reader that moves the offset, and it checks the length first. -/
theorem readExact_within (length : Nat) : Within input (readExact input path length) := by
  intro state hstate
  rw [readExact]
  split
  case isTrue =>
    refine ⟨fun a next h => ?_, fun error next h => ?_⟩
    · cases (Prod.mk.inj h).1
    cases h
    exact hstate
  case isFalse hlong =>
    refine ⟨fun a next h => ?_, fun error next h => ?_⟩
    · cases h
      exact Nat.le_of_not_lt hlong
    · cases (Prod.mk.inj h).1

theorem readU8_within : Within input (readU8 input path) :=
  (readExact_within 1).bind fun _ => .pure _

theorem readLen_within : Within input (readLen input path) :=
  (readExact_within 4).bind fun _ => .pure _

theorem readU64_within : Within input (readU64 input path) :=
  (readExact_within 8).bind fun _ => .pure _

theorem readBytes_within : Within input (readBytes input path) :=
  readLen_within.bind fun length => readExact_within length

theorem readString_within : Within input (readString input path) := by
  refine readBytes_within.bind fun bytes => ?_
  split
  · exact .pure _
  · exact .refuse _ _

theorem expectMagic_within : Within input (expectMagic input) :=
  (readExact_within 4).bind fun _ => .guarded (readU8_within.bind fun _ => .guarded (.pure _))

theorem readVariantIdentity_within : Within input (readVariantIdentity input path) := by
  refine readU8_within.bind fun tag => ?_
  split
  · exact .pure _
  · exact readString_within.bind fun _ => readString_within.bind fun _ => .pure _
  · exact .refuse _ _

theorem readPackage_within : Within input (readPackage input path) := by
  refine readU8_within.bind fun tag => ?_
  split
  · exact .pure _
  · exact readString_within.bind fun _ => readString_within.bind fun _ => .pure _
  · exact .refuse _ _

theorem readNativeOwner_within : Within input (readNativeOwner input path) := by
  refine readU8_within.bind fun tag => ?_
  split
  · exact .pure _
  · exact readString_within.bind fun _ => readString_within.bind fun _ =>
      readPackage_within.bind fun _ => .pure _
  · exact .refuse _ _

theorem readLocalConcreteOwner_within : Within input (readLocalConcreteOwner input path) := by
  refine readU8_within.bind fun tag => ?_
  split
  · exact .pure _
  · exact readString_within.bind fun _ => .pure _
  · exact .refuse _ _

theorem readCodeIdentity_within : Within input (readCodeIdentity input path) := by
  refine readU8_within.bind fun tag => ?_
  split
  · exact .pure _
  · exact readLocalConcreteOwner_within.bind fun _ => readString_within.bind fun _ => .pure _
  · exact readString_within.bind fun _ => readString_within.bind fun _ =>
      readNativeOwner_within.bind fun _ => readString_within.bind fun _ => .pure _
  · exact .refuse _ _

/-- By induction on the levels left. -/
theorem readMapKey_within : Within input (readMapKey input limits path levels depth) := by
  induction levels generalizing depth with
  | zero => exact .refuse _ _
  | succ levels ih =>
    refine (Within.ofExcept _).bind fun _ => readU8_within.bind fun tag => ?_
    split
    · exact readString_within.bind fun _ => .pure _
    · exact readString_within.bind fun _ => ih.bind fun _ => .pure _
    · exact .refuse _ _

theorem enterNode_within : Within input (enterNode limits path depth) := by
  intro state hstate
  rw [enterNode]
  refine ⟨fun a next h => ?_, fun error next h => ?_⟩ <;> split at h
  case isTrue => cases (Prod.mk.inj h).1
  case isFalse =>
    split at h <;> cases h
    exact hstate
  case isTrue =>
    cases h
    exact hstate
  case isFalse =>
    split at h <;> cases h
    exact hstate

variable {count index : Nat}

section children

variable {child : String → DecodeM RecoverableNode}

section

variable (hchild : ∀ path, Within input (child path))
include hchild

theorem readItems_within : Within input (readItems child path count index) := by
  induction count generalizing index with
  | zero => exact .pure _
  | succ count ih => exact (hchild _).bind fun _ => ih.bind fun _ => .pure _

theorem readEntries_within {previous : Option Bytes} :
    Within input (readEntries input limits child path levels depth count index previous) := by
  induction count generalizing index previous with
  | zero => exact .pure _
  | succ count ih =>
    exact readMapKey_within.bind fun _ => (Within.ofExcept _).bind fun _ =>
      .guarded ((hchild _).bind fun _ => ih.bind fun _ => .pure _)

theorem readFieldsAfter_within {count : Nat} {previous : Option String} :
    Within input (readFieldsAfter input child path count previous) := by
  induction count generalizing previous with
  | zero => exact .pure _
  | succ count ih =>
    exact readString_within.bind fun _ =>
      .guarded ((hchild _).bind fun _ => ih.bind fun _ => .pure _)

theorem readFields_within : Within input (readFields input limits child path) :=
  readLen_within.bind fun _ => (Within.look _).bind fun _ => readFieldsAfter_within hchild

/-- One case for each kind of state. -/
theorem readState_within (kind : RecoverableValueKind) :
    Within input (readState input limits child path levels depth kind) := by
  cases kind with
  | null => exact .pure _
  | bool =>
    refine readU8_within.bind fun tag => ?_
    split
    · exact .pure _
    · exact .pure _
    · exact .refuse _ _
  | number | date => exact readU64_within.bind fun _ => (Within.ofExcept _).bind fun _ => .pure _
  | string => exact readString_within.bind fun _ => .pure _
  | bytes => exact readBytes_within.bind fun _ => .pure _
  | array =>
    exact readLen_within.bind fun _ => (Within.look _).bind fun _ =>
      (readItems_within hchild).bind fun _ => .pure _
  | map =>
    exact readLen_within.bind fun _ => (Within.look _).bind fun _ =>
      (readEntries_within hchild).bind fun _ => .pure _
  | record => exact (readFields_within hchild).bind fun _ => .pure _
  | nominalObject =>
    refine readU8_within.bind fun tag => ?_
    split
    · exact (readFields_within hchild).bind fun _ => .pure _
    · exact (hchild _).bind fun _ => .pure _
    · exact .refuse _ _
  | interfaceValue =>
    refine readU8_within.bind fun tag => ?_
    split
    · exact (hchild _).bind fun _ => .pure _
    · exact .refuse _ _
  | nativeHandle => exact (hchild _).bind fun _ => .pure _

end

end children

theorem readNode_within : Within input (readNode input limits levels depth path) := by
  induction levels generalizing depth path with
  | zero => exact .refuse _ _
  | succ levels ih =>
    exact enterNode_within.bind fun _ => readU8_within.bind fun _ =>
      (Within.ofExcept _).bind fun _ => readVariantIdentity_within.bind fun _ =>
      readCodeIdentity_within.bind fun _ => (readState_within (fun _ => ih) _).bind fun _ =>
      .pure _

theorem readEnvelope_within : Within input (readEnvelope input limits levels) :=
  expectMagic_within.bind fun _ => readString_within.bind fun _ =>
    .guarded (readNode_within.bind fun _ => (Within.look _).bind fun _ =>
      (Within.ofExcept _).bind fun _ => .pure _)

/-! ## Levels -/

theorem readMapKey_deep (hdeep : limits.maxDepth < depth) :
    readMapKey input limits path levels depth =
      refuse path s!"recoverable depth exceeds {limits.maxDepth}" := by
  cases levels with
  | zero => rfl
  | succ levels =>
    have hvalidate : validateRecoverableDepth limits path depth =
        invalid path s!"recoverable depth exceeds {limits.maxDepth}" := if_pos hdeep
    rw [readMapKey, hvalidate]
    rfl

theorem readMapKey_levels {more : Nat} (hlevels : limits.maxDepth < levels + depth)
    (hmore : limits.maxDepth < more + depth) :
    readMapKey input limits path levels depth = readMapKey input limits path more depth := by
  induction levels generalizing depth more with
  | zero => rw [readMapKey_deep (by omega), readMapKey_deep (by omega)]
  | succ levels ih =>
    cases more with
    | zero => rw [readMapKey_deep (by omega), readMapKey_deep (by omega)]
    | succ more =>
      have hvalue : readMapKey input limits path levels (depth + 1) =
          readMapKey input limits path more (depth + 1) := ih (by omega) (by omega)
      rw [readMapKey, readMapKey, hvalue]

theorem readEntries_levels {more : Nat} (hlevels : limits.maxDepth < levels + (depth + 1))
    (hmore : limits.maxDepth < more + (depth + 1)) {child : String → DecodeM RecoverableNode}
    {previous : Option Bytes} :
    readEntries input limits child path levels depth count index previous =
      readEntries input limits child path more depth count index previous := by
  induction count generalizing index previous with
  | zero => rfl
  | succ count ih =>
    have hkey : ∀ path, readMapKey input limits path levels (depth + 1) =
        readMapKey input limits path more (depth + 1) := fun _ => readMapKey_levels hlevels hmore
    simp only [readEntries, hkey, ih]

theorem readNode_deep (hdeep : limits.maxDepth < depth) {state : DecoderState} :
    readNode input limits levels depth path state =
      (invalid path s!"recoverable depth exceeds {limits.maxDepth}", state) := by
  cases levels with
  | zero => rfl
  | succ levels =>
    have henter : enterNode limits path depth state =
        (invalid path s!"recoverable depth exceeds {limits.maxDepth}", state) := if_pos hdeep
    change Mut.bind (enterNode limits path depth) _ state = _
    rw [Mut.bind, henter]
    rfl

/-- With levels past the depth limit, the limit alone ends the recursion. -/
theorem readNode_levels {more : Nat} (hlevels : limits.maxDepth < levels + depth)
    (hmore : limits.maxDepth < more + depth) :
    readNode input limits levels depth path = readNode input limits more depth path := by
  induction levels generalizing depth more path with
  | zero =>
    funext state
    rw [readNode_deep (by omega), readNode_deep (by omega)]
  | succ levels ih =>
    cases more with
    | zero =>
      funext state
      rw [readNode_deep (by omega), readNode_deep (by omega)]
    | succ more =>
      have hchild : readNode input limits levels (depth + 1) =
          readNode input limits more (depth + 1) :=
        funext fun path => ih (by omega) (by omega)
      have hstate : ∀ kind, readState input limits (readNode input limits more (depth + 1)) path
          levels depth kind = readState input limits (readNode input limits more (depth + 1))
          path more depth kind := by
        intro kind
        cases kind with
        | map =>
          have hdepth : limits.maxDepth < levels + (depth + 1) := by omega
          have hdepth' : limits.maxDepth < more + (depth + 1) := by omega
          simp only [readState, readEntries_levels hdepth hdepth']
        | _ => rfl
      rw [readNode, readNode, hchild]
      simp only [hstate]

/-- Levels beyond the depth limit change nothing. -/
theorem readEnvelope_levels (hlevels : limits.maxDepth < levels) :
    readEnvelope input limits levels = readEnvelope input limits (limits.maxDepth + 1) := by
  have hnode : ∀ path, readNode input limits levels 0 path =
      readNode input limits (limits.maxDepth + 1) 0 path :=
    fun path => readNode_levels (by omega) (by omega)
  rw [readEnvelope, readEnvelope]
  simp only [hnode]

end Skiff.Recoverable
