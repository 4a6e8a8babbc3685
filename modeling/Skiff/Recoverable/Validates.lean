import Skiff.Recoverable.Writes

/-!
# What the validator accepts

The validator succeeds just if every node is valid at its depth and the nodes are not too many, and
then it has counted them.
-/

namespace Skiff.Recoverable

open Skiff.Runtime (isFinite)
open RecoverableState RecoverableField List

variable {limits : RecoverableValidationLimits} {path : String} {depth : Nat} {done : Unit}

/-! ## The checks of one node -/

variable {code : RecoverableCodeIdentity}

theorem codeIdentity_validate_path {other : String}
    (h : code.validate path = .ok ()) : code.validate other = .ok () := by
  cases code with
  | none => rfl
  | localConcrete owner concreteTypeIdentity =>
    simp only [RecoverableCodeIdentity.validate, checked_bind_eq_ok] at h ⊢
    obtain ⟨_, howner, hidentity⟩ := h
    refine ⟨(), ?_, ?_⟩
    · cases owner with
      | service => rfl
      | package packageId =>
        rw [LocalConcreteOwner.validate] at howner ⊢
        split at howner
        case isTrue => cases howner
        case isFalse hblank => rw [if_neg hblank]
    split at hidentity
    case isTrue => cases hidentity
    case isFalse hblank => rw [if_neg hblank]
  | nativeAdapter adapterIdentity adapterSchemaVersion owner nativeTypeIdentity =>
    simp only [RecoverableCodeIdentity.validate] at h ⊢
    split at h
    case isTrue => cases h
    case isFalse hblank =>
      rw [if_neg hblank]
      cases owner with
      | builtin => rfl
      | artifact artifactIdentity buildId package =>
        dsimp only at h ⊢
        split at h
        case isTrue => cases h
        case isFalse hartifact => rw [if_neg hartifact]

/-- The kind of a node is that of its state, and its code identity is one that the kind may have. -/
def Matches {N : Type} (kind : RecoverableValueKind) (code : RecoverableCodeIdentity)
    (state : RecoverableState N) : Prop :=
  validateStateMatchesKind "" kind code state = .ok ()

variable {kind : RecoverableValueKind} {N : Type}

variable {state : RecoverableState N}

theorem validateStateMatchesKind_path {other : String}
    (h : validateStateMatchesKind path kind code state = .ok ()) :
    validateStateMatchesKind other kind code state = .ok () := by
  rw [validateStateMatchesKind] at h ⊢
  split at h
  case isTrue => cases h
  case isFalse hkind =>
    rw [if_neg hkind]
    simp only [checked_bind_eq_ok] at h ⊢
    obtain ⟨_, hcode, hrules⟩ := h
    refine ⟨(), codeIdentity_validate_path hcode, ?_⟩
    split at hrules
    case isTrue => cases hrules
    case isFalse hinterface =>
      rw [if_neg hinterface]
      split at hrules
      case isTrue => cases hrules
      case isFalse hnative => rw [if_neg hnative]

theorem validateStateMatchesKind_eq_ok :
    validateStateMatchesKind path kind code state = .ok done ↔ Matches kind code state := by
  constructor
  · intro h
    exact validateStateMatchesKind_path h
  intro h
  exact validateStateMatchesKind_path h

theorem matches_iff_kind {N M : Type} {state : RecoverableState N} {other : RecoverableState M}
    (h : state.kind = other.kind) : Matches kind code state ↔ Matches kind code other := by
  rw [Matches, Matches, validateStateMatchesKind, validateStateMatchesKind, h]

theorem kind_eq_of_matches (h : Matches kind code state) : kind = state.kind := by
  rw [Matches, validateStateMatchesKind] at h
  split at h
  case isTrue => cases h
  case isFalse hkind => exact not_not.mp hkind

theorem recoverableNumberFromBits_eq_ok {bits : BitVec 64} :
    recoverableNumberFromBits path bits = .ok done ↔ isFinite bits = true := by
  rw [recoverableNumberFromBits]
  split
  case isTrue h => exact iff_of_true rfl h
  case isFalse h => exact iff_of_false invalid_ne_ok h

theorem validateRecoverableDate_eq_ok {millis : BitVec 64} :
    validateRecoverableDate path millis = .ok done ↔
      minDateEpochMillis ≤ millis.toInt ∧ millis.toInt ≤ maxDateEpochMillis := by
  rw [validateRecoverableDate]
  split
  case isTrue h => exact iff_of_true rfl h
  case isFalse h => exact iff_of_false invalid_ne_ok h

variable {count after : Nat}

theorem countNode_eq_ok :
    countNode limits path count = (.ok done, after) ↔
      after = count + 1 ∧ after ≤ limits.maxNodes := by
  rw [countNode]
  split
  case isTrue h =>
    constructor
    · intro heq
      cases (Prod.mk.inj heq).1
    rintro ⟨rfl, hle⟩
    omega
  case isFalse h =>
    constructor
    · intro heq
      cases heq
      exact ⟨rfl, by omega⟩
    rintro ⟨rfl, -⟩
    rfl

/-! ## Children -/

section children

variable {N : Type} {validate : N → NodeValidator} {F : N → Prop} {size : N → Nat}
  {count after : Nat}

/-- The validator accepts a child just if `F` holds of it and counts `size` nodes. -/
def Validates (limits : RecoverableValidationLimits) (depth : Nat) (validate : N → NodeValidator)
    (F : N → Prop) (size : N → Nat) (child : N) : Prop :=
  ∀ path count done after, count ≤ limits.maxNodes →
    (validate child path depth count = (.ok done, after) ↔
      F child ∧ after = count + size child ∧ after ≤ limits.maxNodes)

theorem validateItems_eq_ok {items : List N} {index : Nat} (hcount : count ≤ limits.maxNodes)
    (h : ∀ item ∈ items, Validates limits (depth + 1) validate F size item) :
    validateItems path depth index (items.map validate) count = (.ok done, after) ↔
      (∀ item ∈ items, F item) ∧ after = count + total (items.map size) ∧
        after ≤ limits.maxNodes := by
  induction items generalizing index count with
  | nil =>
    rw [map_nil, validateItems, Mut.pure_eq_ok]
    constructor
    · rintro ⟨-, rfl⟩
      exact ⟨by simp, rfl, hcount⟩
    rintro ⟨-, rfl, -⟩
    exact ⟨rfl, rfl⟩
  | cons item rest ih =>
    have hitem := h item (.head _)
    have hrest : ∀ other ∈ rest, Validates limits (depth + 1) validate F size other :=
      fun other hother => h other (.tail _ hother)
    rw [map_cons, validateItems, Mut.bind_eq_ok]
    simp only [forall_mem_cons, map_cons, total_cons]
    constructor
    · rintro ⟨_, middle, hfirst, hothers⟩
      obtain ⟨hF, rfl, hle⟩ := (hitem _ _ _ _ hcount).mp hfirst
      obtain ⟨hall, rfl, hle'⟩ := (ih hle hrest).mp hothers
      exact ⟨⟨hF, hall⟩, by omega, hle'⟩
    rintro ⟨⟨hF, hall⟩, rfl, hle⟩
    refine ⟨(), count + size item, (hitem _ _ _ _ hcount).mpr ⟨hF, rfl, by omega⟩, ?_⟩
    exact (ih (by omega) hrest).mpr ⟨hall, by omega, hle⟩

theorem validateEntries_eq_ok {entries : List (RecoverableMapKey × N)} {index : Nat}
    {keys : List Bytes} (hcount : count ≤ limits.maxNodes)
    (h : ∀ entry ∈ entries, Validates limits (depth + 1) validate F size entry.2) :
    validateEntries limits path depth index keys
        (entries.map fun entry => (entry.1, validate entry.2)) count = (.ok done, after) ↔
      ((∀ entry ∈ entries, entry.1.Fits limits (depth + 1)) ∧
        (∀ entry ∈ entries, mapKeyBytes entry.1 ∉ keys) ∧
        (entries.map fun entry => mapKeyBytes entry.1).Nodup) ∧
      (∀ entry ∈ entries, F entry.2) ∧
      after = count + total (entries.map fun entry => size entry.2) ∧ after ≤ limits.maxNodes := by
  induction entries generalizing index keys count with
  | nil =>
    rw [map_nil, validateEntries, Mut.pure_eq_ok]
    constructor
    · rintro ⟨-, rfl⟩
      exact ⟨by simp, by simp, rfl, hcount⟩
    rintro ⟨-, -, rfl, -⟩
    exact ⟨rfl, rfl⟩
  | cons entry rest ih =>
    have hrest : ∀ other ∈ rest, Validates limits (depth + 1) validate F size other.2 :=
      fun other hother => h other (.tail _ hother)
    obtain ⟨key, node⟩ := entry
    have hentry : Validates limits (depth + 1) validate F size node := h _ (.head _)
    rw [map_cons, validateEntries, Mut.ofExcept_bind_eq_ok]
    simp only [forall_mem_cons, map_cons, total_cons, nodup_cons,
      canonicalMapKeyBytes, writeMapKey_eq_ok]
    constructor
    · rintro ⟨_, ⟨hkey, rfl⟩, hothers⟩
      split at hothers
      case isTrue => cases hothers
      case isFalse hnone =>
        have hfresh : mapKeyBytes key ∉ keys := fun hmem => hnone (contains_iff_mem.mpr hmem)
        obtain ⟨_, middle, hfirst, hothers⟩ := Mut.bind_eq_ok.mp hothers
        obtain ⟨hF, rfl, hle⟩ := (hentry _ _ _ _ hcount).mp hfirst
        obtain ⟨⟨hkeys, hnew, hnodup⟩, hall, rfl, hle'⟩ := (ih hle hrest).mp hothers
        refine ⟨⟨⟨hkey, hkeys⟩, ⟨hfresh, ?_⟩, ?_, hnodup⟩, ⟨hF, hall⟩, by omega, hle'⟩
        · intro other hother hmem
          exact hnew other hother (.tail _ hmem)
        intro hmem
        obtain ⟨other, hother, heq⟩ := mem_map.mp hmem
        exact hnew other hother (heq ▸ (.head _))
    rintro ⟨⟨⟨hkey, hkeys⟩, ⟨hfresh, hnew⟩, hnot, hnodup⟩, ⟨hF, hall⟩, rfl, hle⟩
    refine ⟨_, ⟨hkey, rfl⟩, ?_⟩
    have hnone : ¬ keys.contains (mapKeyBytes key) = true :=
      fun hmem => hfresh (contains_iff_mem.mp hmem)
    rw [if_neg hnone, Mut.bind_eq_ok]
    refine ⟨(), count + size node, (hentry _ _ _ _ hcount).mpr ⟨hF, rfl, by omega⟩, ?_⟩
    refine (ih (by omega) hrest).mpr ⟨⟨hkeys, ?_, hnodup⟩, hall, by omega, hle⟩
    intro other hother hmem
    obtain heq | hmem := mem_cons.mp hmem
    · exact hnot (mem_map.mpr ⟨other, hother, heq⟩)
    · exact hnew other hother hmem

theorem validateFields_eq_ok {fields : List (RecoverableField N)} {identities : List String}
    (hcount : count ≤ limits.maxNodes)
    (h : ∀ field ∈ fields, Validates limits (depth + 1) validate F size field.value) :
    validateFields path depth identities (fields.map (·.map validate)) count = (.ok done, after) ↔
      ((∀ field ∈ fields, field.fieldIdentity ∉ identities) ∧ (fields.map fieldIdentity).Nodup) ∧
      (∀ field ∈ fields, F field.value) ∧
      after = count + total (fields.map fun field => size field.value) ∧
        after ≤ limits.maxNodes := by
  induction fields generalizing identities count with
  | nil =>
    rw [map_nil, validateFields, Mut.pure_eq_ok]
    constructor
    · rintro ⟨-, rfl⟩
      exact ⟨by simp, by simp, rfl, hcount⟩
    rintro ⟨-, -, rfl, -⟩
    exact ⟨rfl, rfl⟩
  | cons field rest ih =>
    have hrest : ∀ other ∈ rest, Validates limits (depth + 1) validate F size other.value :=
      fun other hother => h other (.tail _ hother)
    obtain ⟨identity, node⟩ := field
    have hfield : Validates limits (depth + 1) validate F size node := h _ (.head _)
    rw [map_cons, RecoverableField.map, validateFields]
    simp only [forall_mem_cons, map_cons, total_cons, nodup_cons]
    constructor
    · intro hothers
      split at hothers
      case isTrue => cases hothers
      case isFalse hfresh =>
        obtain ⟨_, middle, hfirst, hothers⟩ := Mut.bind_eq_ok.mp hothers
        obtain ⟨hF, rfl, hle⟩ := (hfield _ _ _ _ hcount).mp hfirst
        obtain ⟨⟨hnew, hnodup⟩, hall, rfl, hle'⟩ := (ih hle hrest).mp hothers
        refine ⟨⟨⟨hfresh, ?_⟩, ?_, hnodup⟩, ⟨hF, hall⟩, by omega, hle'⟩
        · intro other hother hmem
          exact hnew other hother (.tail _ hmem)
        intro hmem
        obtain ⟨other, hother, heq⟩ := mem_map.mp hmem
        exact hnew other hother (heq ▸ (.head _))
    rintro ⟨⟨⟨hfresh, hnew⟩, hnot, hnodup⟩, ⟨hF, hall⟩, rfl, hle⟩
    rw [if_neg hfresh, Mut.bind_eq_ok]
    refine ⟨(), count + size node, (hfield _ _ _ _ hcount).mpr ⟨hF, rfl, by omega⟩, ?_⟩
    refine (ih (by omega) hrest).mpr ⟨⟨?_, hnodup⟩, hall, by omega, hle⟩
    intro other hother hmem
    obtain heq | hmem := mem_cons.mp hmem
    · exact hnot (mem_map.mpr ⟨other, hother, heq⟩)
    · exact hnew other hother hmem

end children

namespace RecoverableState

/-- Map keys are within the depth limit. -/
def KeysFit {N : Type} (limits : RecoverableValidationLimits) (depth : Nat) :
    RecoverableState N → Prop
  | .map entries => ∀ entry ∈ entries, entry.1.Fits limits (depth + 1)
  | _ => True

end RecoverableState

/-- What the validator asks of the state of a node. -/
structure ValidState {N : Type} (limits : RecoverableValidationLimits) (depth : Nat)
    (state : RecoverableState N) : Prop where
  inRange : state.InRange
  distinct : state.Distinct
  keys : state.KeysFit limits depth

theorem validateState_eq_ok {validate : N → NodeValidator} {F : N → Prop} {size : N → Nat}
    (hcount : count ≤ limits.maxNodes)
    (h : ∀ child ∈ state.children, Validates limits (depth + 1) validate F size child) :
    validateState limits path depth (state.mapNodes validate) count = (.ok done, after) ↔
      ValidState limits depth state ∧ (∀ child ∈ state.children, F child) ∧
        after = count + total (state.children.map size) ∧ after ≤ limits.maxNodes := by
  have hleaf : ∀ check : Checked Unit, (check = .ok () ↔ ValidState limits depth state) →
      state.children = [] → (Mut.ofExcept check count = (.ok done, after) ↔
        ValidState limits depth state ∧ (∀ child ∈ state.children, F child) ∧
          after = count + total (state.children.map size) ∧ after ≤ limits.maxNodes) := by
    intro check hcheck hchildren
    rw [Mut.ofExcept_eq_ok, hcheck, hchildren]
    constructor
    · rintro ⟨hvalid, rfl⟩
      exact ⟨hvalid, by simp, rfl, hcount⟩
    rintro ⟨hvalid, -, rfl, -⟩
    exact ⟨hvalid, rfl⟩
  have hsingle : ∀ child, state.children = [child] → ValidState limits depth state →
      ∀ path, (validate child path (depth + 1) count = (.ok done, after) ↔
        ValidState limits depth state ∧ (∀ child ∈ state.children, F child) ∧
          after = count + total (state.children.map size) ∧ after ≤ limits.maxNodes) := by
    intro child hchildren hvalid path
    rw [hchildren] at h ⊢
    rw [h child mem_cons_self path count done after hcount]
    simp [hvalid]
  rcases state with _ | value | bits | value | value | millis | items | entries | fields |
    (fields | node) | node | node
  case null | bool | string | bytes =>
    exact hleaf (.ok ()) (iff_of_true rfl ⟨trivial, trivial, trivial⟩) rfl
  case number =>
    refine hleaf (recoverableNumberFromBits path bits) ?_ rfl
    rw [recoverableNumberFromBits_eq_ok]
    exact ⟨fun hfinite => ⟨hfinite, trivial, trivial⟩, fun hvalid => hvalid.inRange⟩
  case date =>
    refine hleaf (validateRecoverableDate path millis) ?_ rfl
    rw [validateRecoverableDate_eq_ok]
    exact ⟨fun hrange => ⟨hrange, trivial, trivial⟩, fun hvalid => hvalid.inRange⟩
  case array =>
    have hitems : ∀ item ∈ items, Validates limits (depth + 1) validate F size item := h
    have hvalid : ValidState limits depth (array items) := ⟨trivial, trivial, trivial⟩
    rw [mapNodes, validateState, validateItems_eq_ok hcount hitems]
    exact (and_iff_right hvalid).symm
  case map =>
    have hentries := fun entry hentry => h (Prod.snd entry) (mem_map_of_mem hentry)
    have hvalid : ValidState limits depth (map entries) ↔
        (∀ entry ∈ entries, entry.1.Fits limits (depth + 1)) ∧
          (∀ entry ∈ entries, mapKeyBytes entry.1 ∉ ([] : List Bytes)) ∧
          (entries.map fun entry => mapKeyBytes entry.1).Nodup :=
      ⟨fun hvalid => ⟨hvalid.keys, by simp, hvalid.distinct⟩,
        fun hvalid => ⟨trivial, hvalid.2.2, hvalid.1⟩⟩
    have hchildren : (∀ child ∈ (map entries).children, F child) ↔
        ∀ entry ∈ entries, F entry.2 := forall_mem_map
    have hsize : (map entries).children.map size = entries.map fun entry => size entry.2 := map_map
    rw [hvalid, hchildren, hsize]
    exact validateEntries_eq_ok hcount hentries
  case record =>
    have hfields := fun field hfield => h (value field) (mem_map_of_mem hfield)
    have hvalid : ValidState limits depth (record fields) ↔
        (∀ field ∈ fields, field.fieldIdentity ∉ ([] : List String)) ∧
          (fields.map fieldIdentity).Nodup :=
      ⟨fun hvalid => ⟨by simp, hvalid.distinct⟩, fun hvalid => ⟨trivial, hvalid.2, trivial⟩⟩
    have hchildren : (∀ child ∈ (record fields).children, F child) ↔
        ∀ field ∈ fields, F field.value := forall_mem_map
    have hsize : (record fields).children.map size =
        fields.map fun field => size field.value := map_map
    rw [hvalid, hchildren, hsize]
    exact validateFields_eq_ok hcount hfields
  case nominalObject.defaultFields =>
    have hfields := fun field hfield => h (value field) (mem_map_of_mem hfield)
    have hvalid : ValidState limits depth (nominalObject (.defaultFields fields)) ↔
        (∀ field ∈ fields, field.fieldIdentity ∉ ([] : List String)) ∧
          (fields.map fieldIdentity).Nodup :=
      ⟨fun hvalid => ⟨by simp, hvalid.distinct⟩, fun hvalid => ⟨trivial, hvalid.2, trivial⟩⟩
    have hchildren : (∀ child ∈ (nominalObject (.defaultFields fields)).children,
        F child) ↔ ∀ field ∈ fields, F field.value := forall_mem_map
    have hsize : (nominalObject (.defaultFields fields)).children.map size =
        fields.map fun field => size field.value := map_map
    rw [hvalid, hchildren, hsize]
    exact validateFields_eq_ok hcount hfields
  case nominalObject.custom => exact hsingle node rfl ⟨trivial, trivial, trivial⟩ _
  case interfaceValue => exact hsingle node.selfNode rfl ⟨trivial, trivial, trivial⟩ _
  case nativeHandle => exact hsingle node.durableState rfl ⟨trivial, trivial, trivial⟩ _

/-! ## Nodes -/

/-- What the validator asks of a node and its depth. -/
structure ValidAt (limits : RecoverableValidationLimits) (depth : Nat) (node : RecoverableNode) :
    Prop where
  depth_le : depth ≤ limits.maxDepth
  kinds : Matches node.valueKind node.codeIdentity node.state
  state : ValidState limits depth node.state

/-- What `validate_node` and `validate_child` do alike. -/
theorem validateParts_eq_ok {node : RecoverableNode} (hkind : state.kind = node.state.kind)
    (hcount : count ≤ limits.maxNodes)
    (h : ∀ child ∈ node.state.children, Validates limits (depth + 1) (validateChild limits)
      (Everywhere (ValidAt limits) (depth + 1)) RecoverableNode.count child) :
    (do countNode limits path
        Mut.ofExcept (validateStateMatchesKind path node.valueKind node.codeIdentity state)
        validateState limits path depth (node.state.mapNodes (validateChild limits)) :
      Mut Nat RecoverableStateInvalid Unit) count = (.ok done, after) ↔
      Matches node.valueKind node.codeIdentity node.state ∧ ValidState limits depth node.state ∧
        (∀ child ∈ node.state.children, Everywhere (ValidAt limits) (depth + 1) child) ∧
          after = count + node.count ∧ after ≤ limits.maxNodes := by
  rw [node.count_eq]
  simp only [Mut.bind_eq_ok, Mut.ofExcept_eq_ok, countNode_eq_ok,
    validateStateMatchesKind_eq_ok, matches_iff_kind hkind]
  constructor
  · rintro ⟨_, _, ⟨rfl, hle⟩, _, _, ⟨hmatches, rfl⟩, hstate⟩
    obtain ⟨hvalid, hbelow, rfl, hle'⟩ := (validateState_eq_ok hle h).mp hstate
    exact ⟨hmatches, hvalid, hbelow, by omega, hle'⟩
  rintro ⟨hmatches, hvalid, hbelow, rfl, hle⟩
  refine ⟨(), count + 1, ⟨rfl, by omega⟩, (), _, ⟨hmatches, rfl⟩, ?_⟩
  exact (validateState_eq_ok (by omega) h).mpr ⟨hvalid, hbelow, by omega, hle⟩

theorem validateChild_eq_ok (node : RecoverableNode) : Validates limits depth
    (validateChild limits) (Everywhere (ValidAt limits) depth) RecoverableNode.count node := by
  refine RecoverableNode.induction (P := fun node => ∀ depth, Validates limits depth
    (validateChild limits) (Everywhere (ValidAt limits) depth) RecoverableNode.count node) ?_ node
    depth
  intro node ih depth path count done after hcount
  have hvalidate : validateChild limits node path depth = validateChildAt limits node.valueKind
      node.variantIdentity node.codeIdentity (node.state.mapNodes (validateChild limits)) path
      depth := by
    rw [validateChild, node.fold_eq]
    rfl
  rw [hvalidate, validateChildAt, Everywhere.iff, Mut.ofExcept_bind_eq_ok]
  simp only [validateRecoverableDepth_eq_ok, validateParts_eq_ok kind_mapNodes
    hcount fun child hchild => ih child hchild (depth + 1)]
  constructor
  · rintro ⟨_, hdepth, hmatches, hvalid, hbelow, hafter⟩
    exact ⟨⟨⟨hdepth, hmatches, hvalid⟩, hbelow⟩, hafter⟩
  rintro ⟨⟨⟨hdepth, hmatches, hvalid⟩, hbelow⟩, hafter⟩
  exact ⟨(), hdepth, hmatches, hvalid, hbelow, hafter⟩

theorem validate_eq_ok {envelope : RecoverableEnvelope} :
    envelope.validate limits = .ok done ↔ envelope.schemaVersion = envelopeSchemaVersion ∧
      Everywhere (ValidAt limits) 0 envelope.root ∧ envelope.root.count ≤ limits.maxNodes := by
  rw [RecoverableEnvelope.validate]
  split
  case isTrue h => exact iff_of_false invalid_ne_ok fun hvalid => h hvalid.1
  case isFalse h =>
    have hnode : ∀ after, validateNode limits envelope.root "$" 0 = (.ok done, after) ↔ _ :=
      fun after => validateParts_eq_ok rfl (Nat.zero_le _) fun child _ => validateChild_eq_ok child
    rw [and_iff_right (not_not.mp h), Everywhere.iff]
    constructor
    · intro hok
      obtain ⟨hmatches, hvalid, hbelow, hafter, hle⟩ := (hnode _).mp (Prod.ext hok rfl)
      exact ⟨⟨⟨Nat.zero_le _, hmatches, hvalid⟩, hbelow⟩, by omega⟩
    rintro ⟨⟨hhere, hbelow⟩, hle⟩
    have hok := (hnode envelope.root.count).mpr ⟨hhere.kinds, hhere.state, hbelow, by omega, hle⟩
    rw [hok]

end Skiff.Recoverable
