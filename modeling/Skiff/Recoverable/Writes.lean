import Skiff.Recoverable.CanonicalForm

/-!
# What the encoder and the validator accept

The encoder succeeds on a node just if every part of it fits, and then it writes the canonical
form. The validator succeeds just if every node is valid at its depth and the nodes are not too
many.
-/

namespace Skiff.Recoverable

open Skiff.Runtime (utf8 isFinite)
open RecoverableState List

variable {limits : RecoverableValidationLimits} {path : String} {depth : Nat} {bytes : Bytes}

theorem checked_bind_eq_ok {α β : Type} {x : Checked α} {f : α → Checked β} {b : β} :
    (x >>= f) = .ok b ↔ ∃ a, x = .ok a ∧ f a = .ok b := bind_eq_ok

theorem invalid_ne_ok {α : Type} {message : String} {a : α} : ¬ invalid path message = .ok a :=
  nofun

theorem return_eq_ok {α : Type} {a b : α} : (pure a : Checked α) = .ok b ↔ b = a := by
  change Except.ok a = .ok b ↔ b = a
  rw [Except.ok.injEq, eq_comm]

/-- A result that is the only one is put in its place. -/
theorem exists_only {α : Type} {P : Prop} {x : α} {Q : α → Prop} :
    (∃ a, (P ∧ a = x) ∧ Q a) ↔ P ∧ Q x := by
  constructor
  · rintro ⟨_, ⟨hP, rfl⟩, hQ⟩
    exact ⟨hP, hQ⟩
  rintro ⟨hP, hQ⟩
  exact ⟨x, ⟨hP, rfl⟩, hQ⟩

/-! ## Bytes and identities -/

theorem writeLen_eq_ok {length : Nat} :
    writeLen path length = .ok bytes ↔ length < 2 ^ 32 ∧ bytes = Wire.leBytes 4 length := by
  rw [writeLen]
  split
  case isTrue h =>
    rw [Except.ok.injEq, eq_comm]
    exact (and_iff_right h).symm
  case isFalse h => exact iff_of_false invalid_ne_ok fun hshort => h hshort.1

theorem writeBytes_eq_ok {value : Bytes} :
    writeBytes path value = .ok bytes ↔ value.length < 2 ^ 32 ∧ bytes = rawBytes value := by
  simp only [writeBytes, checked_bind_eq_ok, writeLen_eq_ok, exists_only, return_eq_ok]
  rfl

theorem writeString_eq_ok {value : String} :
    writeString path value = .ok bytes ↔ Short value ∧ bytes = stringBytes value :=
  writeBytes_eq_ok

theorem writeVariantIdentity_eq_ok {variant : RecoverableVariantIdentity} :
    writeVariantIdentity path variant = .ok bytes ↔ variant.Fits ∧
    bytes = variantBytes variant := by
  cases variant with
  | none => simp [writeVariantIdentity, return_eq_ok, variantBytes,
      RecoverableVariantIdentity.Fits]
  | unionBranch unionIdentity branchIdentity =>
    simp only [writeVariantIdentity, checked_bind_eq_ok, writeString_eq_ok, exists_only,
      return_eq_ok]
    exact and_assoc.symm

theorem writePackage_eq_ok {package : Option PackageCoordinate} :
    writePackage path package = .ok bytes ↔ PackageFits package ∧ bytes = packageBytes package := by
  cases package with
  | none => simp [writePackage, return_eq_ok, packageBytes, PackageFits]
  | some package =>
    simp only [writePackage, checked_bind_eq_ok, writeString_eq_ok, exists_only, return_eq_ok]
    simp [PackageFits, packageBytes, and_assoc]

theorem writeNativeOwner_eq_ok {owner : NativeAdapterOwner} :
    writeNativeOwner path owner = .ok bytes ↔ owner.Fits ∧ bytes = nativeOwnerBytes owner := by
  cases owner with
  | builtin => simp [writeNativeOwner, return_eq_ok, nativeOwnerBytes, NativeAdapterOwner.Fits]
  | artifact artifactIdentity buildId package =>
    simp only [writeNativeOwner, checked_bind_eq_ok, writeString_eq_ok, writePackage_eq_ok,
      exists_only, return_eq_ok]
    simp only [NativeAdapterOwner.Fits, and_assoc]
    rfl

theorem writeLocalConcreteOwner_eq_ok {owner : LocalConcreteOwner} :
    writeLocalConcreteOwner path owner = .ok bytes ↔ owner.Fits ∧
    bytes = localOwnerBytes owner := by
  cases owner with
  | service =>
    simp [writeLocalConcreteOwner, return_eq_ok, localOwnerBytes, LocalConcreteOwner.Fits]
  | package packageId =>
    simp only [writeLocalConcreteOwner, checked_bind_eq_ok, writeString_eq_ok, exists_only,
      return_eq_ok]
    rfl

theorem writeCodeIdentity_eq_ok {code : RecoverableCodeIdentity} :
    writeCodeIdentity path code = .ok bytes ↔ code.Fits ∧ bytes = codeBytes code := by
  cases code with
  | none => simp [writeCodeIdentity, return_eq_ok, codeBytes, RecoverableCodeIdentity.Fits]
  | localConcrete owner concreteTypeIdentity =>
    simp only [writeCodeIdentity, checked_bind_eq_ok, writeLocalConcreteOwner_eq_ok,
      writeString_eq_ok, exists_only, return_eq_ok]
    exact and_assoc.symm
  | nativeAdapter adapterIdentity adapterSchemaVersion owner nativeTypeIdentity =>
    simp only [writeCodeIdentity, checked_bind_eq_ok, writeString_eq_ok,
      writeNativeOwner_eq_ok, exists_only, return_eq_ok]
    simp only [RecoverableCodeIdentity.Fits, and_assoc]
    rfl

theorem validateRecoverableDepth_eq_ok {done : Unit} :
    validateRecoverableDepth limits path depth = .ok done ↔ depth ≤ limits.maxDepth := by
  rw [validateRecoverableDepth]
  split
  case isTrue h => simp [invalid, h]
  case isFalse h => simpa using h

theorem writeMapKey_eq_ok {key : RecoverableMapKey} :
    writeMapKey limits path depth key = .ok bytes ↔
      key.Fits limits depth ∧ bytes = mapKeyBytes key := by
  induction key generalizing depth bytes with
  | string value =>
    simp only [writeMapKey, checked_bind_eq_ok, validateRecoverableDepth_eq_ok, exists_const,
      writeString_eq_ok, exists_only, return_eq_ok]
    exact and_assoc.symm
  | nominalRepresentation representationIdentity value ih =>
    simp only [writeMapKey, checked_bind_eq_ok, validateRecoverableDepth_eq_ok, exists_const,
      writeString_eq_ok, ih, exists_only, return_eq_ok]
    simp only [RecoverableMapKey.Fits, and_assoc]
    rfl

/-! ## The encoder on nodes -/

section nodes

variable {α N : Type}

variable {index : Nat} {entries : List (RecoverableMapKey × N)}

theorem writeEach_eq_ok {write : Nat → α → Checked Bytes} {items : List α} {F : α → Prop}
    {form : α → Bytes}
    (h : ∀ item ∈ items, ∀ index bytes, write index item = .ok bytes ↔ F item ∧ bytes = form item) :
    writeEach write index items = .ok bytes ↔
      (∀ item ∈ items, F item) ∧ bytes = items.flatMap form := by
  induction items generalizing index bytes with
  | nil => simp [writeEach, return_eq_ok]
  | cons item rest ih =>
    have hrest : ∀ index bytes, writeEach write index rest = .ok bytes ↔
        (∀ item ∈ rest, F item) ∧ bytes = rest.flatMap form := fun index bytes =>
      ih fun item hitem => h item (.tail _ hitem)
    simp only [writeEach, checked_bind_eq_ok, h item mem_cons_self, hrest, exists_only,
      return_eq_ok]
    rw [forall_mem_cons, and_assoc]
    rfl

theorem writeEach_map {β : Type} {write : Nat → β → Checked Bytes} {f : α → β} {items : List α} :
    writeEach write index (items.map f) =
      writeEach (fun index item => write index (f item)) index items := by
  induction items generalizing index with
  | nil => rfl
  | cons item rest ih => rw [map_cons, writeEach, writeEach, ih]

variable {write : N → NodeWriter} {F : N → Prop} {form : N → Bytes}

theorem writeItems_eq_ok {items : List N}
    (h : ∀ item ∈ items, ∀ path bytes, write item path (depth + 1) = .ok bytes ↔
      F item ∧ bytes = form item) :
    writeItems path depth (items.map write) = .ok bytes ↔
      items.length < 2 ^ 32 ∧ (∀ item ∈ items, F item) ∧
        bytes = Wire.leBytes 4 items.length ++ items.flatMap form := by
  have heach : ∀ bytes, writeEach (fun index item => item s!"{path}[{index}]" (depth + 1)) 0
      (items.map write) = .ok bytes ↔ (∀ item ∈ items, F item) ∧ bytes = items.flatMap form := by
    intro bytes
    rw [writeEach_map]
    exact writeEach_eq_ok fun item hitem index bytes => h item hitem _ bytes
  simp only [writeItems, checked_bind_eq_ok, writeLen_eq_ok, heach, exists_only, return_eq_ok,
    length_map]

theorem canonicalEntries_eq_ok {canonical : List (Bytes × RecoverableMapKey × N)} :
    canonicalEntries limits path depth index entries = .ok canonical ↔
      (∀ entry ∈ entries, entry.1.Fits limits (depth + 1)) ∧
        canonical = entries.map fun entry => (mapKeyBytes entry.1, entry) := by
  induction entries generalizing index canonical with
  | nil => simp [canonicalEntries, return_eq_ok]
  | cons entry rest ih =>
    obtain ⟨key, value⟩ := entry
    simp only [canonicalEntries, canonicalMapKeyBytes, checked_bind_eq_ok, writeMapKey_eq_ok, ih,
      exists_only, return_eq_ok]
    rw [forall_mem_cons, and_assoc]
    rfl

theorem writeEntries_eq_ok
    (h : ∀ entry ∈ entries, ∀ path bytes, write entry.2 path (depth + 1) = .ok bytes ↔
      F entry.2 ∧ bytes = form entry.2) :
    writeEntries limits path depth (entries.map fun entry => (entry.1, write entry.2)) = .ok bytes ↔
      (entries.length < 2 ^ 32 ∧ ∀ entry ∈ entries, entry.1.Fits limits (depth + 1)) ∧
        (∀ entry ∈ entries, F entry.2) ∧
        bytes = Wire.leBytes 4 entries.length ++ (sortOn keyOrder entries).flatMap fun entry =>
          mapKeyBytes entry.1 ++ form entry.2 := by
  have hsort : sortOn (fun entry : Bytes × RecoverableMapKey × NodeWriter => byteOrder entry.1)
      ((entries.map fun entry => (entry.1, write entry.2)).map fun entry =>
        (mapKeyBytes entry.1, entry)) =
      (sortOn keyOrder entries).map fun entry => (mapKeyBytes entry.1, entry.1, write entry.2) := by
    rw [map_map]
    exact (map_sortOn fun _ => rfl).symm
  have heach : ∀ bytes, writeEach (fun index (entry : RecoverableMapKey × N) => do
        let keyBytes ← writeMapKey limits s!"{path}.mapKey[{index}]" (depth + 1) entry.1
        let valueBytes ← write entry.2 s!"{path}.map[{index}]" (depth + 1)
        return keyBytes ++ valueBytes) 0 (sortOn keyOrder entries) = .ok bytes ↔
      (∀ entry ∈ sortOn keyOrder entries, entry.1.Fits limits (depth + 1) ∧ F entry.2) ∧
        bytes = (sortOn keyOrder entries).flatMap fun entry => mapKeyBytes entry.1 ++
          form entry.2 := by
    intro bytes
    apply writeEach_eq_ok
    intro entry hentry index bytes
    simp only [checked_bind_eq_ok, writeMapKey_eq_ok, h entry (mem_sortOn.mp hentry), exists_only,
      return_eq_ok]
    exact and_assoc.symm
  simp only [writeEntries, checked_bind_eq_ok, canonicalEntries_eq_ok, forall_mem_map,
    writeLen_eq_ok, return_eq_ok, length_sortOn]
  constructor
  · rintro ⟨_, ⟨_, rfl⟩, _, ⟨hlength, rfl⟩, _, hbytes, rfl⟩
    rw [length_map, length_map] at hlength ⊢
    rw [hsort, writeEach_map] at hbytes
    obtain ⟨hentries, rfl⟩ := (heach _).mp hbytes
    have hboth : ∀ entry ∈ entries, entry.1.Fits limits (depth + 1) ∧ F entry.2 :=
      fun entry hentry => hentries entry (mem_sortOn.mpr hentry)
    exact ⟨⟨hlength, fun entry hentry => (hboth entry hentry).1⟩,
      fun entry hentry => (hboth entry hentry).2, rfl⟩
  rintro ⟨⟨hlength, hkeys⟩, hvalues, rfl⟩
  refine ⟨_, ⟨hkeys, rfl⟩, Wire.leBytes 4 entries.length, ?_, _, ?_, rfl⟩
  · rw [length_map, length_map]
    exact ⟨hlength, rfl⟩
  rw [hsort, writeEach_map]
  refine (heach _).mpr ⟨fun entry hentry => ?_, rfl⟩
  have hmem := mem_sortOn.mp hentry
  exact ⟨hkeys entry hmem, hvalues entry hmem⟩

theorem writeFields_eq_ok {fields : List (RecoverableField N)}
    (h : ∀ field ∈ fields, ∀ path bytes, write field.value path (depth + 1) = .ok bytes ↔
      F field.value ∧ bytes = form field.value) :
    writeFields path depth (fields.map (·.map write)) = .ok bytes ↔
      FieldsFit fields ∧ (∀ field ∈ fields, F field.value) ∧
        bytes = fieldsBytes ((sortOn fieldOrder fields).map (·.map form)) := by
  have hsort : sortOn fieldOrder (fields.map (·.map write)) =
      (sortOn fieldOrder fields).map (·.map write) := (map_sortOn fun _ => rfl).symm
  have heach : ∀ bytes, writeEach (fun _ (field : RecoverableField N) => do
        let identity ← writeString path field.fieldIdentity
        let value ← write field.value s!"{path}.field({field.fieldIdentity})" (depth + 1)
        return identity ++ value) 0 (sortOn fieldOrder fields) = .ok bytes ↔
      (∀ field ∈ sortOn fieldOrder fields, Short field.fieldIdentity ∧ F field.value) ∧
        bytes = (sortOn fieldOrder fields).flatMap fun field =>
          stringBytes field.fieldIdentity ++ form field.value := by
    intro bytes
    apply writeEach_eq_ok
    intro field hfield index bytes
    simp only [checked_bind_eq_ok, writeString_eq_ok, h field (mem_sortOn.mp hfield), exists_only,
      return_eq_ok]
    exact and_assoc.symm
  have hform : fieldsBytes ((sortOn fieldOrder fields).map (·.map form)) =
      Wire.leBytes 4 fields.length ++ (sortOn fieldOrder fields).flatMap fun field =>
        stringBytes field.fieldIdentity ++ form field.value := by
    rw [fieldsBytes, length_map, length_sortOn, flatMap_map]
    rfl
  rw [hform]
  simp only [writeFields, checked_bind_eq_ok, writeLen_eq_ok, return_eq_ok, length_sortOn,
    length_map]
  constructor
  · rintro ⟨_, ⟨hlength, rfl⟩, _, hbytes, rfl⟩
    rw [hsort, writeEach_map] at hbytes
    obtain ⟨hfields, rfl⟩ := (heach _).mp hbytes
    have hboth : ∀ field ∈ fields, Short field.fieldIdentity ∧ F field.value :=
      fun field hfield => hfields field (mem_sortOn.mpr hfield)
    exact ⟨⟨hlength, fun field hfield => (hboth field hfield).1⟩,
      fun field hfield => (hboth field hfield).2, rfl⟩
  rintro ⟨⟨hlength, hidentities⟩, hvalues, rfl⟩
  refine ⟨_, ⟨hlength, rfl⟩, _, ?_, rfl⟩
  rw [hsort, writeEach_map]
  refine (heach _).mpr ⟨fun field hfield => ?_, rfl⟩
  have hmem := mem_sortOn.mp hfield
  exact ⟨hidentities field hmem, hvalues field hmem⟩

/-- The encoder writes a state just if it fits and its children can be written, and then in
canonical order. -/
theorem writeState_eq_ok {state : RecoverableState N}
    (h : ∀ child ∈ state.children, ∀ path bytes, write child path (depth + 1) = .ok bytes ↔
      F child ∧ bytes = form child) :
    writeState limits path depth (state.mapNodes write) = .ok bytes ↔
      state.Fits limits depth ∧ (∀ child ∈ state.children, F child) ∧
        bytes = stateBytes (state.sort.mapNodes form) := by
  rcases state with _ | _ | _ | _ | _ | _ | items | entries | fields | (fields | node) | node | node
  case null | bool | number | date =>
    simp [mapNodes, writeState, return_eq_ok, Fits, children, sort, stateBytes]
  case string value =>
    simp [mapNodes, writeState, writeString_eq_ok, Fits, children, sort, stateBytes]
  case bytes value =>
    simp [mapNodes, writeState, writeBytes_eq_ok, Fits, children, sort, stateBytes]
  case array =>
    have hitems : ∀ item ∈ items, ∀ path bytes, write item path (depth + 1) = .ok bytes ↔
        F item ∧ bytes = form item := h
    rw [mapNodes, writeState, writeItems_eq_ok hitems]
    simp [Fits, children, sort, mapNodes, stateBytes, flatMap_def]
  case map =>
    have hentries := fun entry hentry => h (Prod.snd entry) (mem_map_of_mem hentry)
    have hchildren : (∀ child ∈ (map entries).children, F child) ↔
        ∀ entry ∈ entries, F entry.2 := forall_mem_map
    have hform : stateBytes ((map entries).sort.mapNodes form) =
        Wire.leBytes 4 entries.length ++ (sortOn keyOrder entries).flatMap fun entry =>
          mapKeyBytes entry.1 ++ form entry.2 := by
      simp [sort, mapNodes, stateBytes, flatMap_map]
    rw [hchildren, hform]
    exact writeEntries_eq_ok hentries
  case record =>
    have hfields := fun field hfield => h (RecoverableField.value field) (mem_map_of_mem hfield)
    have hchildren : (∀ child ∈ (record fields).children, F child) ↔
        ∀ field ∈ fields, F field.value := forall_mem_map
    rw [hchildren]
    exact writeFields_eq_ok hfields
  case nominalObject.defaultFields =>
    have hfields := fun field hfield => h (RecoverableField.value field) (mem_map_of_mem hfield)
    have hchildren : (∀ child ∈ (nominalObject (.defaultFields fields)).children,
        F child) ↔ ∀ field ∈ fields, F field.value := forall_mem_map
    have hwrite : writeState limits path depth ((nominalObject
        (.defaultFields fields)).mapNodes write) = (do
          let bytes ← writeFields path depth (fields.map (·.map write))
          return 0 :: bytes) := rfl
    rw [hchildren, hwrite]
    simp only [checked_bind_eq_ok, writeFields_eq_ok hfields, ← and_assoc, exists_only,
      return_eq_ok]
    rfl
  case nominalObject.custom =>
    have hnode := h node (.head _)
    have hwrite : writeState limits path depth ((nominalObject
        (.custom node)).mapNodes write) = (do
          let bytes ← write node s!"{path}.durableState" (depth + 1)
          return 1 :: bytes) := rfl
    rw [hwrite]
    simp only [checked_bind_eq_ok, hnode, return_eq_ok]
    simp [Fits, children, sort, mapNodes, NominalObjectState.map, stateBytes]
  case interfaceValue =>
    have hnode := h node.selfNode (.head _)
    have hwrite : writeState limits path depth ((interfaceValue node).mapNodes
        write) = (do
          let bytes ← write node.selfNode s!"{path}.selfNode" (depth + 1)
          return 0 :: bytes) := rfl
    rw [hwrite]
    simp only [checked_bind_eq_ok, hnode, return_eq_ok]
    simp [Fits, children, sort, mapNodes, stateBytes]
  case nativeHandle =>
    have hnode := h node.durableState (.head _)
    simp [writeState, hnode, Fits, children, sort, mapNodes, stateBytes]

end nodes

/-- The parts of a node fit. -/
def FitsAt (limits : RecoverableValidationLimits) (depth : Nat) (node : RecoverableNode) : Prop :=
  node.variantIdentity.Fits ∧ node.codeIdentity.Fits ∧ node.state.Fits limits depth

/-- The encoder writes a node just if every part of it fits, and then its canonical form. -/
theorem writeNode_eq_ok (node : RecoverableNode) : writeNode limits node path depth = .ok bytes ↔
    Everywhere (FitsAt limits) depth node ∧ bytes = node.canon.bytes := by
  refine RecoverableNode.induction (P := fun node => ∀ path depth bytes,
    writeNode limits node path depth = .ok bytes ↔
      Everywhere (FitsAt limits) depth node ∧ bytes = node.canon.bytes) ?_ node path depth bytes
  intro node ih path depth bytes
  have hstate : ∀ bytes, writeState limits path depth (node.state.mapNodes (writeNode limits)) =
      .ok bytes ↔ (node.state.Fits limits depth ∧
        ∀ child ∈ node.state.children, Everywhere (FitsAt limits) (depth + 1) child) ∧
          bytes = stateBytes (node.state.sort.mapNodes fun child => child.canon.bytes) :=
    fun bytes =>
      (writeState_eq_ok fun child hchild path bytes => ih child hchild path _ bytes).trans
      and_assoc.symm
  have hwrite : writeNode limits node path depth = writeNodeAt limits node.valueKind
      node.variantIdentity node.codeIdentity
        (node.state.mapNodes (writeNode limits)) path depth := by
    rw [writeNode, node.fold_eq]
    rfl
  have hform : node.canon.bytes = nodeBytesAt node.valueKind node.variantIdentity
      node.codeIdentity (node.state.sort.mapNodes fun child => child.canon.bytes) := by
    rw [RecoverableNode.bytes_eq, node.canon_eq, sort_mapNodes, mapNodes_mapNodes]
    rfl
  rw [hwrite, writeNodeAt, Everywhere.iff, hform]
  simp only [checked_bind_eq_ok, writeVariantIdentity_eq_ok, writeCodeIdentity_eq_ok, hstate,
    exists_only, return_eq_ok]
  simp only [FitsAt, and_assoc]
  rfl

end Skiff.Recoverable
