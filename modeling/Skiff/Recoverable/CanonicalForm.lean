import Skiff.Recoverable.Decoder

/-!
# The canonical form of an envelope

Each node has one form in bytes once its maps and records are sorted; `canon` sorts them at every
depth. The form is a function of the node alone. What the encoder, the decoder and the validator
ask of a node besides is a condition on each node and its depth.

Two nodes are alike if they differ in the order of map entries and record fields only. Nodes that
are alike have one canonical form, and nodes with one canonical form are alike.
-/

namespace Skiff.Recoverable

open Skiff.Runtime (utf8)
open Wire (leBytes)
open RecoverableField List

/-! ## The bytes of the parts of a node -/

def rawBytes (bytes : Bytes) : Bytes := leBytes 4 bytes.length ++ bytes

def stringBytes (value : String) : Bytes := rawBytes (utf8 value)

/-- The length of a string fits in its length field. -/
def Short (value : String) : Prop := (utf8 value).length < 2 ^ 32

def variantBytes : RecoverableVariantIdentity → Bytes
  | .none => [0]
  | .unionBranch unionIdentity branchIdentity =>
    1 :: (stringBytes unionIdentity ++ stringBytes branchIdentity)

def RecoverableVariantIdentity.Fits : RecoverableVariantIdentity → Prop
  | .none => True
  | .unionBranch unionIdentity branchIdentity => Short unionIdentity ∧ Short branchIdentity

def packageBytes : Option PackageCoordinate → Bytes
  | none => [0]
  | some package => 1 :: (stringBytes package.name ++ stringBytes package.version)

def PackageFits (package : Option PackageCoordinate) : Prop :=
  ∀ coordinate ∈ package, Short coordinate.name ∧ Short coordinate.version

def nativeOwnerBytes : NativeAdapterOwner → Bytes
  | .builtin => [0]
  | .artifact artifactIdentity buildId package =>
    1 :: (stringBytes artifactIdentity ++ stringBytes buildId ++ packageBytes package)

def NativeAdapterOwner.Fits : NativeAdapterOwner → Prop
  | .builtin => True
  | .artifact artifactIdentity buildId package =>
    Short artifactIdentity ∧ Short buildId ∧ PackageFits package

def localOwnerBytes : LocalConcreteOwner → Bytes
  | .service => [0]
  | .package packageId => 1 :: stringBytes packageId

def LocalConcreteOwner.Fits : LocalConcreteOwner → Prop
  | .service => True
  | .package packageId => Short packageId

def codeBytes : RecoverableCodeIdentity → Bytes
  | .none => [0]
  | .localConcrete owner concreteTypeIdentity =>
    1 :: (localOwnerBytes owner ++ stringBytes concreteTypeIdentity)
  | .nativeAdapter adapterIdentity adapterSchemaVersion owner nativeTypeIdentity =>
    2 :: (stringBytes adapterIdentity ++ stringBytes adapterSchemaVersion ++
      nativeOwnerBytes owner ++ stringBytes nativeTypeIdentity)

def RecoverableCodeIdentity.Fits : RecoverableCodeIdentity → Prop
  | .none => True
  | .localConcrete owner concreteTypeIdentity => owner.Fits ∧ Short concreteTypeIdentity
  | .nativeAdapter adapterIdentity adapterSchemaVersion owner nativeTypeIdentity =>
    Short adapterIdentity ∧ Short adapterSchemaVersion ∧ owner.Fits ∧ Short nativeTypeIdentity

def mapKeyBytes : RecoverableMapKey → Bytes
  | .string value => 0 :: stringBytes value
  | .nominalRepresentation representationIdentity value =>
    1 :: (stringBytes representationIdentity ++ mapKeyBytes value)

def RecoverableMapKey.Fits (limits : RecoverableValidationLimits) (depth : Nat) :
    RecoverableMapKey → Prop
  | .string value => depth ≤ limits.maxDepth ∧ Short value
  | .nominalRepresentation representationIdentity value =>
    depth ≤ limits.maxDepth ∧ Short representationIdentity ∧ value.Fits limits (depth + 1)

def total (numbers : List Nat) : Nat := numbers.foldr (· + ·) 0

@[simp] theorem total_nil : total [] = 0 := rfl

@[simp] theorem total_cons (n : Nat) (numbers : List Nat) :
    total (n :: numbers) = n + total numbers := rfl

theorem total_perm {numbers others : List Nat} (h : numbers.Perm others) :
    total numbers = total others := by
  induction h with
  | nil => rfl
  | cons n _ ih => rw [total_cons, total_cons, ih]
  | swap m n rest => simp only [total_cons, Nat.add_left_comm]
  | trans _ _ ih ih' => rw [ih, ih']

/-! ## The bytes of a node -/

section states

variable {N M : Type}

def keyOrder (entry : RecoverableMapKey × N) : List Nat := byteOrder (mapKeyBytes entry.1)

namespace RecoverableState

/-- The maps and records of a state in canonical order. -/
def sort : RecoverableState N → RecoverableState N
  | .map entries => .map (sortOn keyOrder entries)
  | .record fields => .record (sortOn fieldOrder fields)
  | .nominalObject (.defaultFields fields) =>
    .nominalObject (.defaultFields (sortOn fieldOrder fields))
  | state => state

theorem sort_mapNodes (f : N → M) (state : RecoverableState N) :
    (state.mapNodes f).sort = state.sort.mapNodes f := by
  rcases state with _ | _ | _ | _ | _ | _ | _ | _ | _ | (_ | _) | _ | _
  case map =>
    simp only [mapNodes, sort, map.injEq]
    exact (map_sortOn fun _ => rfl).symm
  case record =>
    simp only [mapNodes, sort, record.injEq]
    exact (map_sortOn fun _ => rfl).symm
  case nominalObject.defaultFields =>
    simp only [mapNodes, sort, NominalObjectState.map, nominalObject.injEq,
      NominalObjectState.defaultFields.injEq]
    exact (map_sortOn fun _ => rfl).symm
  all_goals rfl

theorem perm_children_sort (state : RecoverableState N) :
    state.sort.children.Perm state.children := by
  rcases state with _ | _ | _ | _ | _ | _ | items | entries | fields | (fields | node) | node | node
  case map => exact (perm_sortOn _ entries).map _
  case record | nominalObject.defaultFields => exact (perm_sortOn _ fields).map _
  all_goals exact .refl _

end RecoverableState

def fieldsBytes (fields : List (RecoverableField Bytes)) : Bytes :=
  leBytes 4 fields.length ++ fields.flatMap fun field => stringBytes field.fieldIdentity ++
    field.value

def stateBytes : RecoverableState Bytes → Bytes
  | .null => []
  | .bool value => [if value then 1 else 0]
  | .number bits => leBytes 8 bits.toNat
  | .string value => stringBytes value
  | .bytes value => rawBytes value
  | .date millis => leBytes 8 millis.toNat
  | .array items => leBytes 4 items.length ++ items.flatten
  | .map entries =>
    leBytes 4 entries.length ++ entries.flatMap fun entry => mapKeyBytes entry.1 ++ entry.2
  | .record fields => fieldsBytes fields
  | .nominalObject (.defaultFields fields) => 0 :: fieldsBytes fields
  | .nominalObject (.custom bytes) => 1 :: bytes
  | .interfaceValue state => 0 :: state.selfNode
  | .nativeHandle state => state.durableState

def nodeBytesAt (kind : RecoverableValueKind) (variant : RecoverableVariantIdentity)
    (code : RecoverableCodeIdentity) (state : RecoverableState Bytes) : Bytes :=
  valueKindTag kind :: (variantBytes variant ++ codeBytes code ++ stateBytes state)

end states

namespace RecoverableNode

/-- The bytes of a node whose maps and records are in canonical order. -/
def bytes (node : RecoverableNode) : Bytes := node.fold nodeBytesAt

/-- The node with its maps and records in canonical order at every depth. -/
def canon (node : RecoverableNode) : RecoverableNode :=
  node.fold fun kind variant code state => ⟨kind, variant, code, state.sort⟩

/-- The number of nodes. -/
def count (node : RecoverableNode) : Nat := node.fold fun _ _ _ state => total state.children + 1

variable (node : RecoverableNode)

theorem bytes_eq : node.bytes =
    nodeBytesAt node.valueKind node.variantIdentity node.codeIdentity
      (node.state.mapNodes bytes) := node.fold_eq

theorem canon_eq : node.canon =
    ⟨node.valueKind, node.variantIdentity, node.codeIdentity,
      (node.state.mapNodes canon).sort⟩ := node.fold_eq

theorem count_eq : node.count = total (node.state.children.map count) + 1 := by
  have h : node.count = total (node.state.mapNodes count).children + 1 := node.fold_eq
  rwa [RecoverableState.children_mapNodes] at h

end RecoverableNode

/-! ## Conditions on a node -/

section states

variable {N M : Type} (limits : RecoverableValidationLimits) (depth : Nat)

def FieldsFit (fields : List (RecoverableField N)) : Prop :=
  fields.length < 2 ^ 32 ∧ ∀ field ∈ fields, Short field.fieldIdentity

namespace RecoverableState

/-- Lengths fit in their fields and map keys are within the depth limit. -/
def Fits : RecoverableState N → Prop
  | .string value => Short value
  | .bytes value => value.length < 2 ^ 32
  | .array items => items.length < 2 ^ 32
  | .map entries => entries.length < 2 ^ 32 ∧ ∀ entry ∈ entries, entry.1.Fits limits (depth + 1)
  | .record fields => FieldsFit fields
  | .nominalObject (.defaultFields fields) => FieldsFit fields
  | _ => True

/-- Numbers are finite and dates in the range. -/
def InRange : RecoverableState N → Prop
  | .number bits => Skiff.Runtime.isFinite bits = true
  | .date millis => minDateEpochMillis ≤ millis.toInt ∧ millis.toInt ≤ maxDateEpochMillis
  | _ => True

/-- No two keys of a map have one form, no two fields of a record one name. -/
def Distinct : RecoverableState N → Prop
  | .map entries => (entries.map fun entry => mapKeyBytes entry.1).Nodup
  | .record fields => (fields.map fieldIdentity).Nodup
  | .nominalObject (.defaultFields fields) => (fields.map fieldIdentity).Nodup
  | _ => True

/-- Maps and records are in canonical order. -/
def Ordered : RecoverableState N → Prop
  | .map entries => SortedOn keyOrder entries
  | .record fields => SortedOn fieldOrder fields
  | .nominalObject (.defaultFields fields) => SortedOn fieldOrder fields
  | _ => True

variable {limits depth} {state : RecoverableState N} {f : N → M}

theorem fits_mapNodes : (state.mapNodes f).Fits limits depth ↔ state.Fits limits depth := by
  rcases state with _ | _ | _ | _ | _ | _ | _ | _ | _ | (_ | _) | _ | _
  case map => simp only [mapNodes, Fits, length_map, forall_mem_map]
  all_goals simp [mapNodes, Fits, FieldsFit, NominalObjectState.map, RecoverableField.map]

theorem fits_sort : state.sort.Fits limits depth ↔ state.Fits limits depth := by
  rcases state with _ | _ | _ | _ | _ | _ | _ | _ | _ | (_ | _) | _ | _
  all_goals simp [sort, Fits, FieldsFit]

theorem kind_mapNodes : (state.mapNodes f).kind = state.kind := by
  cases state <;> rfl

theorem kind_sort : state.sort.kind = state.kind := by
  rcases state with _ | _ | _ | _ | _ | _ | _ | _ | _ | (_ | _) | _ | _
  all_goals rfl

theorem inRange_mapNodes : (state.mapNodes f).InRange ↔ state.InRange := by
  cases state <;> rfl

theorem inRange_sort : state.sort.InRange ↔ state.InRange := by
  rcases state with _ | _ | _ | _ | _ | _ | _ | _ | _ | (_ | _) | _ | _
  all_goals rfl

theorem distinct_mapNodes : (state.mapNodes f).Distinct ↔ state.Distinct := by
  rcases state with _ | _ | _ | _ | _ | _ | _ | _ | _ | (_ | _) | _ | _
  all_goals
    simp [mapNodes, Distinct, NominalObjectState.map, RecoverableField.map, Function.comp_def]

theorem distinct_sort : state.sort.Distinct ↔ state.Distinct := by
  rcases state with _ | _ | _ | _ | _ | _ | items | entries | fields | (fields | node) | node | node
  case map => exact ((perm_sortOn _ entries).map _).nodup_iff
  case record | nominalObject.defaultFields => exact ((perm_sortOn _ fields).map _).nodup_iff
  all_goals rfl

theorem Ordered.sort_eq (h : state.Ordered) : state.sort = state := by
  rcases state with _ | _ | _ | _ | _ | _ | _ | _ | _ | (_ | _) | _ | _
  case map | record | nominalObject.defaultFields => rw [sort, SortedOn.sortOn_eq h]
  all_goals rfl

theorem byteOrder_injective : Function.Injective byteOrder :=
  map_injective_iff.mpr fun _ _ h => UInt8.toNat_inj.mp h

theorem fieldOrder_nodup {fields : List (RecoverableField N)} :
    (fields.map fieldOrder).Nodup ↔ (fields.map fieldIdentity).Nodup := by
  have hinjective : Function.Injective fun identity : String => byteOrder (utf8 identity) := by
    intro identity other h
    have hsome := congrArg Skiff.Runtime.fromUtf8 (byteOrder_injective h)
    simpa using hsome
  have hmap : fields.map fieldOrder =
      (fields.map fieldIdentity).map fun identity => byteOrder (utf8 identity) := by
    rw [map_map]
    rfl
  rw [hmap, nodup_map_iff hinjective]

theorem keyOrder_nodup {entries : List (RecoverableMapKey × N)} :
    (entries.map keyOrder).Nodup ↔ (entries.map fun entry => mapKeyBytes entry.1).Nodup := by
  have hmap : entries.map keyOrder =
      (entries.map fun entry => mapKeyBytes entry.1).map byteOrder := by
    rw [map_map]
    rfl
  rw [hmap, nodup_map_iff byteOrder_injective]

theorem ordered_sort (h : state.Distinct) : state.sort.Ordered := by
  rcases state with _ | _ | _ | _ | _ | _ | _ | _ | _ | (_ | _) | _ | _
  case map => exact sortedOn_sortOn (keyOrder_nodup.mpr h)
  case record | nominalObject.defaultFields => exact sortedOn_sortOn (fieldOrder_nodup.mpr h)
  all_goals trivial

end RecoverableState

end states

/-! ## Conditions at every depth -/

/-- The node and all below it have the property, each at its depth. -/
inductive Everywhere (P : Nat → RecoverableNode → Prop) : Nat → RecoverableNode → Prop
  | intro {depth : Nat} {node : RecoverableNode} (here : P depth node)
      (below : ∀ child ∈ node.state.children, Everywhere P (depth + 1) child) :
      Everywhere P depth node

namespace Everywhere

variable {P Q : Nat → RecoverableNode → Prop} {depth : Nat} {node : RecoverableNode}

theorem iff : Everywhere P depth node ↔
    P depth node ∧ ∀ child ∈ node.state.children, Everywhere P (depth + 1) child := by
  constructor
  · rintro ⟨here, below⟩
    exact ⟨here, below⟩
  rintro ⟨here, below⟩
  exact .intro here below

theorem mono (hle : ∀ depth node, P depth node → Q depth node) (h : Everywhere P depth node) :
    Everywhere Q depth node := by
  induction h with
  | intro here _ ih => exact .intro (hle _ _ here) ih

theorem and (h : Everywhere P depth node) (h' : Everywhere Q depth node) :
    Everywhere (fun depth node => P depth node ∧ Q depth node) depth node := by
  induction h with
  | intro here _ ih =>
    obtain ⟨here', below'⟩ := h'
    exact .intro ⟨here, here'⟩ fun child hchild => ih child hchild (below' child hchild)

end Everywhere

variable {depth : Nat} {node : RecoverableNode}

namespace RecoverableNode

theorem mem_children_canon {node child : RecoverableNode} :
    child ∈ node.canon.state.children ↔ ∃ other ∈ node.state.children, other.canon = child := by
  rw [canon_eq, (RecoverableState.perm_children_sort _).mem_iff,
    RecoverableState.children_mapNodes, mem_map]

/-- A condition that sorting keeps holds everywhere of a node just if it does of its canonical
form. -/
theorem everywhere_canon {P : Nat → RecoverableNode → Prop}
    (h : ∀ depth node, P depth node.canon ↔ P depth node) (node : RecoverableNode) :
    Everywhere P depth node.canon ↔ Everywhere P depth node := by
  refine RecoverableNode.induction (P := fun node => ∀ depth, Everywhere P depth node.canon ↔
    Everywhere P depth node) ?_ node depth
  intro node ih depth
  rw [Everywhere.iff, Everywhere.iff, h]
  apply and_congr_right'
  constructor
  · intro hbelow child hchild
    exact (ih child hchild _).mp (hbelow _ (mem_children_canon.mpr ⟨child, hchild, rfl⟩))
  intro hbelow child hchild
  obtain ⟨other, hother, rfl⟩ := mem_children_canon.mp hchild
  exact (ih other hother _).mpr (hbelow other hother)

@[simp] theorem count_canon (node : RecoverableNode) : node.canon.count = node.count := by
  refine node.induction (P := fun node => node.canon.count = node.count) ?_
  intro node ih
  rw [count_eq, count_eq node, canon_eq]
  have hchildren := ((RecoverableState.perm_children_sort (node.state.mapNodes canon)).map count)
  rw [total_perm hchildren, RecoverableState.children_mapNodes, map_map]
  congr 2
  exact map_congr_left ih

theorem canon_of_ordered
    (h : Everywhere (fun _ node => node.state.Ordered) depth node) : node.canon = node := by
  induction h with
  | @intro depth node here below ih =>
    have hchildren : node.state.mapNodes canon = node.state.mapNodes id :=
      RecoverableState.mapNodes_congr ih
    obtain ⟨kind, variant, code, state⟩ := node
    rw [canon_eq, hchildren, RecoverableState.mapNodes_id, here.sort_eq]

theorem ordered_canon (h : Everywhere (fun _ node => node.state.Distinct) depth node) :
    Everywhere (fun _ node => node.state.Ordered) depth node.canon := by
  induction h with
  | @intro depth node here below ih =>
    refine .intro ?_ ?_
    · rw [canon_eq]
      exact RecoverableState.ordered_sort (RecoverableState.distinct_mapNodes.mpr here)
    intro child hchild
    obtain ⟨other, hother, rfl⟩ := mem_children_canon.mp hchild
    exact ih other hother

end RecoverableNode

/-! ## Nodes that are alike -/

section states

variable {N : Type}

/-- The same keys in the same order, with related children. -/
inductive EntriesAlike (R : N → N → Prop) :
    List (RecoverableMapKey × N) → List (RecoverableMapKey × N) → Prop
  | nil : EntriesAlike R [] []
  | cons {key : RecoverableMapKey} {node node' : N} {rest rest' : List (RecoverableMapKey × N)}
      (h : R node node') (hrest : EntriesAlike R rest rest') :
      EntriesAlike R ((key, node) :: rest) ((key, node') :: rest')

/-- The same names in the same order, with related children. -/
inductive FieldsAlike (R : N → N → Prop) :
    List (RecoverableField N) → List (RecoverableField N) → Prop
  | nil : FieldsAlike R [] []
  | cons {identity : String} {node node' : N} {rest rest' : List (RecoverableField N)}
      (h : R node node') (hrest : FieldsAlike R rest rest') :
      FieldsAlike R (⟨identity, node⟩ :: rest) (⟨identity, node'⟩ :: rest')

/-- Two states with related children, up to the order of map entries and record fields. -/
inductive StateAlike (R : N → N → Prop) : RecoverableState N → RecoverableState N → Prop
  | refl (state : RecoverableState N) : StateAlike R state state
  | array {items items' : List N} (h : Forall₂ R items items') :
      StateAlike R (.array items) (.array items')
  | map {entries middle entries' : List (RecoverableMapKey × N)}
      (h : EntriesAlike R entries middle) (hperm : middle.Perm entries') :
        StateAlike R (.map entries) (.map entries')
  | record {fields middle fields' : List (RecoverableField N)}
      (h : FieldsAlike R fields middle) (hperm : middle.Perm fields') :
        StateAlike R (.record fields) (.record fields')
  | defaultFields {fields middle fields' : List (RecoverableField N)}
      (h : FieldsAlike R fields middle) (hperm : middle.Perm fields') :
      StateAlike R (.nominalObject (.defaultFields fields))
        (.nominalObject (.defaultFields fields'))
  | custom {node node' : N} (h : R node node') :
      StateAlike R (.nominalObject (.custom node)) (.nominalObject (.custom node'))
  | interfaceValue {node node' : N} (h : R node node') :
      StateAlike R (.interfaceValue ⟨node⟩) (.interfaceValue ⟨node'⟩)
  | nativeHandle {node node' : N} (h : R node node') :
      StateAlike R (.nativeHandle ⟨node⟩) (.nativeHandle ⟨node'⟩)

end states

/-- Two nodes are equal up to the order of map entries and record fields at every depth. -/
inductive Alike : RecoverableNode → RecoverableNode → Prop
  | mk {kind : RecoverableValueKind} {variant : RecoverableVariantIdentity}
      {code : RecoverableCodeIdentity} {state state' : RecoverableState RecoverableNode}
      (h : StateAlike Alike state state') :
      Alike ⟨kind, variant, code, state⟩ ⟨kind, variant, code, state'⟩

section states

variable {N M : Type} {R : N → N → Prop} {f : N → M} {state state' : RecoverableState N}

variable {entries entries' : List (RecoverableMapKey × N)}

theorem EntriesAlike.map_eq (h : EntriesAlike R entries entries')
    (hR : ∀ entry ∈ entries, ∀ node', R entry.2 node' → f entry.2 = f node') :
    entries.map (fun entry => (entry.1, f entry.2)) =
      entries'.map fun entry => (entry.1, f entry.2) := by
  induction h with
  | nil => rfl
  | cons hnode _ ih =>
    have hrest := ih fun entry hentry => hR entry (.tail _ hentry)
    rw [map_cons, map_cons, hrest, hR _ mem_cons_self _ hnode]

variable {fields fields' : List (RecoverableField N)}

theorem FieldsAlike.map_eq (h : FieldsAlike R fields fields')
    (hR : ∀ field ∈ fields, ∀ node', R field.value node' → f field.value = f node') :
    fields.map (·.map f) = fields'.map (·.map f) := by
  induction h with
  | nil => rfl
  | @cons identity node node' rest rest' hnode _ ih =>
    have hrest := ih fun field hfield => hR field (.tail _ hfield)
    have hfirst : f node = f node' := hR ⟨identity, node⟩ (.head _) node' hnode
    rw [map_cons, map_cons, hrest, RecoverableField.map, RecoverableField.map, hfirst]

theorem EntriesAlike.of_map_eq
    (hR : ∀ entry ∈ entries, ∀ node', f entry.2 = f node' → R entry.2 node')
    (h : entries.map (fun entry => (entry.1, f entry.2)) =
      entries'.map fun entry => (entry.1, f entry.2)) : EntriesAlike R entries entries' := by
  induction entries generalizing entries' with
  | nil =>
    rw [map_eq_nil_iff.mp h.symm]
    exact .nil
  | cons entry rest ih =>
    obtain ⟨entry', rest', rfl, hentry, hrest⟩ := map_eq_cons_iff.mp h.symm
    obtain ⟨key, node⟩ := entry
    obtain ⟨key', node'⟩ := entry'
    obtain ⟨rfl, hnode⟩ := Prod.mk.inj hentry
    refine .cons (hR _ (.head _) node' hnode.symm) (ih ?_ hrest.symm)
    exact fun entry hentry => hR entry (.tail _ hentry)

theorem FieldsAlike.of_map_eq
    (hR : ∀ field ∈ fields, ∀ node', f field.value = f node' → R field.value node')
    (h : fields.map (·.map f) = fields'.map (·.map f)) : FieldsAlike R fields fields' := by
  induction fields generalizing fields' with
  | nil =>
    rw [map_eq_nil_iff.mp h.symm]
    exact .nil
  | cons field rest ih =>
    obtain ⟨field', rest', rfl, hfield, hrest⟩ := map_eq_cons_iff.mp h.symm
    obtain ⟨identity, node⟩ := field
    obtain ⟨identity', node'⟩ := field'
    obtain ⟨rfl, hnode⟩ := RecoverableField.mk.inj hfield
    refine .cons (hR _ (.head _) node' hnode.symm) (ih ?_ hrest.symm)
    exact fun field hfield => hR field (.tail _ hfield)

theorem map_eq_of_forall₂ {items items' : List N} (h : Forall₂ R items items')
    (hR : ∀ item ∈ items, ∀ node', R item node' → f item = f node') :
    items.map f = items'.map f := by
  induction h with
  | nil => rfl
  | cons hnode _ ih =>
    have hrest := ih fun item hitem => hR item (.tail _ hitem)
    rw [map_cons, map_cons, hrest, hR _ mem_cons_self _ hnode]

theorem forall₂_of_map_eq {items items' : List N}
    (hR : ∀ item ∈ items, ∀ node', f item = f node' → R item node')
    (h : items.map f = items'.map f) : Forall₂ R items items' := by
  induction items generalizing items' with
  | nil =>
    rw [map_eq_nil_iff.mp h.symm]
    exact .nil
  | cons item rest ih =>
    obtain ⟨item', rest', rfl, hitem, hrest⟩ := map_eq_cons_iff.mp h.symm
    refine .cons (hR _ (.head _) item' hitem.symm) (ih ?_ hrest.symm)
    exact fun item hitem => hR item (.tail _ hitem)

theorem sortOn_fields_eq {fields middle fields' : List (RecoverableField N)}
    (hdistinct : (fields.map fieldIdentity).Nodup)
    (hR : ∀ field ∈ fields, ∀ node', R field.value node' → f field.value = f node')
    (h : FieldsAlike R fields middle) (hperm : middle.Perm fields') :
    sortOn fieldOrder (fields.map (·.map f)) = sortOn fieldOrder (fields'.map (·.map f)) := by
  apply sortOn_eq_of_perm
  · rw [map_map]
    exact RecoverableState.fieldOrder_nodup.mpr hdistinct
  rw [h.map_eq hR]
  exact hperm.map _

/-- Where children that are alike have one image, states that are alike have one canonical form. -/
theorem StateAlike.sort_eq (h : StateAlike R state state') (hdistinct : state.Distinct)
    (hR : ∀ child ∈ state.children, ∀ node', R child node' → f child = f node') :
    (state.mapNodes f).sort = (state'.mapNodes f).sort := by
  cases h with
  | refl => rfl
  | array h => rw [RecoverableState.mapNodes, map_eq_of_forall₂ h hR, RecoverableState.mapNodes]
  | @map entries middle entries' h hperm =>
    have hentries := h.map_eq fun entry hentry => hR entry.2 (mem_map_of_mem hentry)
    apply congrArg RecoverableState.map
    apply sortOn_eq_of_perm
    · rw [map_map]
      exact RecoverableState.keyOrder_nodup.mpr hdistinct
    rw [hentries]
    exact hperm.map _
  | record h hperm =>
    apply congrArg RecoverableState.record
    apply sortOn_fields_eq hdistinct _ h hperm
    exact fun field hfield => hR field.value (mem_map_of_mem hfield)
  | defaultFields h hperm =>
    apply congrArg fun fields => RecoverableState.nominalObject (.defaultFields fields)
    apply sortOn_fields_eq hdistinct _ h hperm
    exact fun field hfield => hR field.value (mem_map_of_mem hfield)
  | custom h | interfaceValue h | nativeHandle h =>
    have hnode := hR _ (.head _) _ h
    simp only [RecoverableState.mapNodes, NominalObjectState.map, hnode]

theorem fieldsAlike_of_sortOn_eq
    (hR : ∀ field ∈ fields, ∀ node', f field.value = f node' → R field.value node')
    (h : sortOn fieldOrder (fields.map (·.map f)) = sortOn fieldOrder (fields'.map (·.map f))) :
    ∃ middle, FieldsAlike R fields middle ∧ middle.Perm fields' := by
  have hperm : (fields'.map (·.map f)).Perm (fields.map (·.map f)) :=
    ((perm_sortOn _ _).symm.trans (.of_eq h.symm)).trans (perm_sortOn _ _)
  obtain ⟨middle, hmiddle, hmap⟩ := exists_perm_of_map_perm hperm
  exact ⟨middle, .of_map_eq hR hmap.symm, hmiddle.symm⟩

/-- Where children with one image are alike, states with one canonical form are alike. -/
theorem StateAlike.of_sort_eq
    (hR : ∀ child ∈ state.children, ∀ node', f child = f node' → R child node')
    (h : (state.mapNodes f).sort = (state'.mapNodes f).sort) : StateAlike R state state' := by
  rcases state with _ | _ | _ | _ | _ | _ | items | entries | fields | (fields | node) | node | node
  case array =>
    cases state' with
    | array items' => exact .array (forall₂_of_map_eq hR (RecoverableState.array.inj h))
    | nominalObject state' => cases state' <;> cases h
    | _ => cases h
  case map =>
    cases state' with
    | map entries' =>
      have hsort := RecoverableState.map.inj h
      have hperm := ((perm_sortOn _ _).symm.trans (.of_eq hsort.symm)).trans (perm_sortOn _ _)
      obtain ⟨middle, hmiddle, hmap⟩ := exists_perm_of_map_perm hperm
      refine .map (.of_map_eq ?_ hmap.symm) hmiddle.symm
      exact fun entry hentry => hR entry.2 (mem_map_of_mem hentry)
    | nominalObject state' => cases state' <;> cases h
    | _ => cases h
  case record =>
    cases state' with
    | record fields' =>
      obtain ⟨middle, hmiddle, hperm⟩ := fieldsAlike_of_sortOn_eq
        (fun field hfield => hR field.value (mem_map_of_mem hfield))
        (RecoverableState.record.inj h)
      exact .record hmiddle hperm
    | nominalObject state' => cases state' <;> cases h
    | _ => cases h
  case nominalObject.defaultFields =>
    rcases state' with _ | _ | _ | _ | _ | _ | _ | _ | _ | (fields' | _) | _ | _
    case nominalObject.defaultFields =>
      obtain ⟨middle, hmiddle, hperm⟩ := fieldsAlike_of_sortOn_eq
        (fun field hfield => hR field.value (mem_map_of_mem hfield))
        (NominalObjectState.defaultFields.inj (RecoverableState.nominalObject.inj h))
      exact .defaultFields hmiddle hperm
    all_goals cases h
  case nominalObject.custom =>
    rcases state' with _ | _ | _ | _ | _ | _ | _ | _ | _ | (_ | node') | _ | _
    case nominalObject.custom =>
      have hnode := NominalObjectState.custom.inj (RecoverableState.nominalObject.inj h)
      exact .custom (hR node (.head _) node' hnode)
    all_goals cases h
  case interfaceValue =>
    rcases state' with _ | _ | _ | _ | _ | _ | _ | _ | _ | (_ | _) | node' | _
    case interfaceValue =>
      have hnode := InterfaceValueState.mk.inj (RecoverableState.interfaceValue.inj h)
      exact .interfaceValue (hR node.selfNode (.head _) node'.selfNode hnode)
    all_goals cases h
  case nativeHandle =>
    rcases state' with _ | _ | _ | _ | _ | _ | _ | _ | _ | (_ | _) | _ | node'
    case nativeHandle =>
      have hnode := NativeHandleState.mk.inj (RecoverableState.nativeHandle.inj h)
      exact .nativeHandle (hR node.durableState (.head _) node'.durableState hnode)
    all_goals cases h
  all_goals
    rcases state' with _ | _ | _ | _ | _ | _ | _ | _ | _ | (_ | _) | _ | _
    all_goals cases h
    exact .refl _

end states

namespace RecoverableNode

theorem canon_eq_of_alike {node node' : RecoverableNode} (h : Alike node node')
    (hdistinct : Everywhere (fun _ node => node.state.Distinct) depth node) :
    node.canon = node'.canon := by
  induction hdistinct generalizing node' with
  | @intro depth node here below ih =>
    obtain ⟨hstate⟩ := h
    rw [canon_eq, canon_eq]
    exact congrArg (RecoverableNode.mk _ _ _) (hstate.sort_eq here fun child hchild node' hlike =>
      ih child hchild hlike)

theorem alike_of_canon_eq {node node' : RecoverableNode} (h : node.canon = node'.canon) :
    Alike node node' := by
  refine RecoverableNode.induction (P := fun node => ∀ node', node.canon = node'.canon →
    Alike node node') ?_ node node' h
  intro node ih node' h
  obtain ⟨kind, variant, code, state⟩ := node
  obtain ⟨kind', variant', code', state'⟩ := node'
  rw [canon_eq, canon_eq] at h
  obtain ⟨rfl, rfl, rfl, hstate⟩ := RecoverableNode.mk.inj h
  exact .mk (.of_sort_eq ih hstate)

theorem alike_canon (hdistinct : Everywhere (fun _ node => node.state.Distinct) depth node) :
    Alike node node.canon :=
  alike_of_canon_eq (canon_of_ordered (ordered_canon hdistinct)).symm

end RecoverableNode

end Skiff.Recoverable
