import Skiff.Data.Wire

/-!
# Recoverable envelopes

The stored form of a runtime value, from `runtime/model/src/recoverable.rs`: a tree of nodes, each
with the kind of its value, the identities of its union branch and of its code, and a state that
holds its children.

The state is a type of its own over the type of the children, so that a recursion over nodes is
one `fold`: it says what a node comes to once its children have come to something.
-/

namespace Skiff.Recoverable

open List

structure RecoverableValidationLimits where
  maxNodes : Nat
  maxDepth : Nat
  maxEncodedBytes : Nat

structure RecoverableStateInvalid where
  path : String
  message : String
deriving DecidableEq

def envelopeSchemaVersion : String := "skiff.recoverable.envelope.v2"

/-! ## Identities -/

structure PackageCoordinate where
  name : String
  version : String
deriving DecidableEq

inductive RecoverableValueKind where
  | null
  | bool
  | number
  | string
  | bytes
  | date
  | array
  | map
  | record
  | nominalObject
  | interfaceValue
  | nativeHandle
deriving DecidableEq

inductive RecoverableVariantIdentity where
  | none
  | unionBranch (unionIdentity branchIdentity : String)

inductive LocalConcreteOwner where
  | service
  | package (packageId : String)
deriving DecidableEq

inductive NativeAdapterOwner where
  | builtin
  | artifact (artifactIdentity buildId : String) (package : Option PackageCoordinate)
deriving DecidableEq

inductive RecoverableCodeIdentity where
  | none
  | localConcrete (owner : LocalConcreteOwner) (concreteTypeIdentity : String)
  | nativeAdapter (adapterIdentity adapterSchemaVersion : String) (owner : NativeAdapterOwner)
      (nativeTypeIdentity : String)
deriving DecidableEq

/-- The code points with the property `White_Space`, which `trim` strips. -/
def isWhitespace (c : Char) : Bool :=
  (0x9 ≤ c.toNat && c.toNat ≤ 0xd) || (0x2000 ≤ c.toNat && c.toNat ≤ 0x200a) ||
    [0x20, 0x85, 0xa0, 0x1680, 0x2028, 0x2029, 0x202f, 0x205f, 0x3000].contains c.toNat

/-- `text.trim().is_empty()` -/
def isBlank (text : String) : Bool := text.toList.all isWhitespace

abbrev Checked (α : Type) := Except RecoverableStateInvalid α

def invalid {α : Type} (path message : String) : Checked α := .error ⟨path, message⟩

def LocalConcreteOwner.validate (path : String) : LocalConcreteOwner → Checked Unit
  | .service => .ok ()
  | .package packageId =>
    if isBlank packageId then
      invalid path "LocalConcrete package owner must include a non-empty package id"
    else .ok ()

def RecoverableCodeIdentity.validate (path : String) : RecoverableCodeIdentity → Checked Unit
  | .none => .ok ()
  | .localConcrete owner concreteTypeIdentity => do
    owner.validate path
    if isBlank concreteTypeIdentity then
      invalid path "LocalConcrete restore key must include a non-empty concrete type identity"
    else .ok ()
  | .nativeAdapter adapterIdentity adapterSchemaVersion owner nativeTypeIdentity =>
    if isBlank adapterIdentity || isBlank adapterSchemaVersion || isBlank nativeTypeIdentity then
      invalid path "NativeAdapter code identity must not contain empty identity fields"
    else
      match owner with
      | .builtin => .ok ()
      | .artifact artifactIdentity buildId _ =>
        if isBlank artifactIdentity || isBlank buildId then
          invalid path
            "NativeAdapter artifact owner must include exact artifact and build identities"
        else .ok ()

/-! ## States and nodes -/

inductive RecoverableMapKey where
  | string (value : String)
  | nominalRepresentation (representationIdentity : String) (value : RecoverableMapKey)

structure RecoverableField (N : Type) where
  fieldIdentity : String
  value : N

inductive NominalObjectState (N : Type) where
  | defaultFields (fields : List (RecoverableField N))
  | custom (durableState : N)

/-- The wrapped node of an `InterfaceValueState::Local`. -/
structure InterfaceValueState (N : Type) where
  selfNode : N

structure NativeHandleState (N : Type) where
  durableState : N

/-- The state of a node whose children are `N`. Numbers are the bits of a double and dates those
of a signed number of milliseconds. -/
inductive RecoverableState (N : Type) where
  | null
  | bool (value : Bool)
  | number (bits : BitVec 64)
  | string (value : String)
  | bytes (value : List UInt8)
  | date (epochMillis : BitVec 64)
  | array (items : List N)
  | map (entries : List (RecoverableMapKey × N))
  | record (fields : List (RecoverableField N))
  | nominalObject (state : NominalObjectState N)
  | interfaceValue (state : InterfaceValueState N)
  | nativeHandle (state : NativeHandleState N)

structure RecoverableNode where
  valueKind : RecoverableValueKind
  variantIdentity : RecoverableVariantIdentity
  codeIdentity : RecoverableCodeIdentity
  state : RecoverableState RecoverableNode

structure RecoverableEnvelope where
  schemaVersion : String
  root : RecoverableNode

/-! ## Children -/

section functor

variable {N M : Type}

def RecoverableField.map (f : N → M) (field : RecoverableField N) : RecoverableField M :=
  ⟨field.fieldIdentity, f field.value⟩

def NominalObjectState.map (f : N → M) : NominalObjectState N → NominalObjectState M
  | .defaultFields fields => .defaultFields (fields.map (·.map f))
  | .custom node => .custom (f node)

namespace RecoverableState

/-- The state with each child replaced. -/
def mapNodes (f : N → M) : RecoverableState N → RecoverableState M
  | .null => .null
  | .bool value => .bool value
  | .number bits => .number bits
  | .string value => .string value
  | .bytes value => .bytes value
  | .date millis => .date millis
  | .array items => .array (items.map f)
  | .map entries => .map (entries.map fun entry => (entry.1, f entry.2))
  | .record fields => .record (fields.map (·.map f))
  | .nominalObject state => .nominalObject (state.map f)
  | .interfaceValue state => .interfaceValue ⟨f state.selfNode⟩
  | .nativeHandle state => .nativeHandle ⟨f state.durableState⟩

def children : RecoverableState N → List N
  | .array items => items
  | .map entries => entries.map Prod.snd
  | .record fields => fields.map RecoverableField.value
  | .nominalObject (.defaultFields fields) => fields.map RecoverableField.value
  | .nominalObject (.custom node) => [node]
  | .interfaceValue state => [state.selfNode]
  | .nativeHandle state => [state.durableState]
  | _ => []

theorem mapNodes_congr {f g : N → M} {state : RecoverableState N}
    (h : ∀ child ∈ state.children, f child = g child) : state.mapNodes f = state.mapNodes g := by
  rcases state with _ | _ | _ | _ | _ | _ | _ | _ | _ | (_ | _) | _ | _
  case map =>
    simp only [mapNodes, map.injEq, map_inj_left, Prod.mk.injEq, true_and]
    intro entry hentry
    exact h entry.2 (mem_map_of_mem hentry)
  all_goals simp_all [mapNodes, children, NominalObjectState.map, RecoverableField.map]

@[simp] theorem mapNodes_id (state : RecoverableState N) : state.mapNodes id = state := by
  rcases state with _ | _ | _ | _ | _ | _ | _ | _ | _ | (_ | _) | _ | _
  all_goals simp [mapNodes, NominalObjectState.map, RecoverableField.map]

theorem mapNodes_mapNodes {L : Type} (f : N → M) (g : M → L) (state : RecoverableState N) :
    (state.mapNodes f).mapNodes g = state.mapNodes (g ∘ f) := by
  rcases state with _ | _ | _ | _ | _ | _ | _ | _ | _ | (_ | _) | _ | _
  all_goals simp [mapNodes, NominalObjectState.map, RecoverableField.map]

@[simp] theorem children_mapNodes (f : N → M) (state : RecoverableState N) :
    (state.mapNodes f).children = state.children.map f := by
  rcases state with _ | _ | _ | _ | _ | _ | _ | _ | _ | (_ | _) | _ | _
  all_goals simp [mapNodes, children, NominalObjectState.map, RecoverableField.map]

end RecoverableState

end functor

section fold

variable {β : Type}
  (f : RecoverableValueKind → RecoverableVariantIdentity → RecoverableCodeIdentity →
    RecoverableState β → β)

mutual

/-- What `f` makes of a node whose children it has been applied to. -/
def RecoverableNode.fold : RecoverableNode → β
  | ⟨kind, variant, code, state⟩ => f kind variant code (foldState state)

def foldState : RecoverableState RecoverableNode → RecoverableState β
  | .null => .null
  | .bool value => .bool value
  | .number bits => .number bits
  | .string value => .string value
  | .bytes value => .bytes value
  | .date millis => .date millis
  | .array items => .array (foldItems items)
  | .map entries => .map (foldEntries entries)
  | .record fields => .record (foldFields fields)
  | .nominalObject (.defaultFields fields) => .nominalObject (.defaultFields (foldFields fields))
  | .nominalObject (.custom node) => .nominalObject (.custom node.fold)
  | .interfaceValue ⟨node⟩ => .interfaceValue ⟨node.fold⟩
  | .nativeHandle ⟨node⟩ => .nativeHandle ⟨node.fold⟩

def foldItems : List RecoverableNode → List β
  | [] => []
  | node :: rest => node.fold :: foldItems rest

def foldEntries : List (RecoverableMapKey × RecoverableNode) → List (RecoverableMapKey × β)
  | [] => []
  | (key, node) :: rest => (key, node.fold) :: foldEntries rest

def foldFields : List (RecoverableField RecoverableNode) → List (RecoverableField β)
  | [] => []
  | ⟨identity, node⟩ :: rest => ⟨identity, node.fold⟩ :: foldFields rest

end

variable {f}

theorem foldItems_eq (items : List RecoverableNode) :
    foldItems f items = items.map (RecoverableNode.fold f) := by
  induction items with
  | nil => rfl
  | cons node rest ih => rw [foldItems, ih, map_cons]

theorem foldEntries_eq (entries : List (RecoverableMapKey × RecoverableNode)) :
    foldEntries f entries = entries.map fun entry => (entry.1, entry.2.fold f) := by
  induction entries with
  | nil => rfl
  | cons entry rest ih => rw [foldEntries, ih, map_cons]

theorem foldFields_eq (fields : List (RecoverableField RecoverableNode)) :
    foldFields f fields = fields.map (·.map (RecoverableNode.fold f)) := by
  induction fields with
  | nil => rfl
  | cons field rest ih => rw [foldFields, ih, map_cons, RecoverableField.map]

theorem foldState_eq (state : RecoverableState RecoverableNode) :
    foldState f state = state.mapNodes (RecoverableNode.fold f) := by
  rcases state with _ | _ | _ | _ | _ | _ | _ | _ | _ | (_ | _) | _ | _
  all_goals
    simp [foldState, RecoverableState.mapNodes, NominalObjectState.map, foldItems_eq,
      foldEntries_eq, foldFields_eq]

theorem RecoverableNode.fold_eq (node : RecoverableNode) :
    node.fold f = f node.valueKind node.variantIdentity node.codeIdentity
      (node.state.mapNodes (RecoverableNode.fold f)) := by
  obtain ⟨kind, variant, code, state⟩ := node
  rw [fold, foldState_eq]

end fold

section induction

/-- What its children have, a node has too. -/
def Inherited (P : RecoverableNode → Prop) : Prop :=
  ∀ node : RecoverableNode, (∀ child ∈ node.state.children, P child) → P node

variable {P : RecoverableNode → Prop}

mutual

/-- A property that every node inherits from its children holds of all. -/
theorem RecoverableNode.induction (h : Inherited P) : ∀ node, P node
  | ⟨_, _, _, state⟩ => h _ (childrenInduction h state)

theorem childrenInduction (h : Inherited P) : ∀ state : RecoverableState RecoverableNode,
    ∀ child ∈ state.children, P child
  | .array items => itemsInduction h items
  | .map entries => by
    intro child hchild
    obtain ⟨entry, hentry, rfl⟩ := mem_map.mp hchild
    exact entriesInduction h entries entry hentry
  | .record fields | .nominalObject (.defaultFields fields) => by
    intro child hchild
    obtain ⟨field, hfield, rfl⟩ := mem_map.mp hchild
    exact fieldsInduction h fields field hfield
  | .nominalObject (.custom node) | .interfaceValue ⟨node⟩ | .nativeHandle ⟨node⟩ => by
    rintro child hchild
    rw [mem_singleton.mp hchild]
    exact node.induction h
  | .null | .bool _ | .number _ | .string _ | .bytes _ | .date _ => nofun

theorem itemsInduction (h : Inherited P) : ∀ items : List RecoverableNode, ∀ child ∈ items, P child
  | [] => nofun
  | node :: rest => by
    intro child hchild
    obtain hnode | hchild := mem_cons.mp hchild
    · exact hnode ▸ node.induction h
    · exact itemsInduction h rest child hchild

theorem entriesInduction (h : Inherited P) : ∀ entries : List (RecoverableMapKey × RecoverableNode),
    ∀ entry ∈ entries, P entry.2
  | [] => nofun
  | (key, node) :: rest => by
    intro entry hentry
    obtain hnode | hentry := mem_cons.mp hentry
    · exact hnode ▸ node.induction h
    · exact entriesInduction h rest entry hentry

theorem fieldsInduction (h : Inherited P) : ∀ fields : List (RecoverableField RecoverableNode),
    ∀ field ∈ fields, P field.value
  | [] => nofun
  | ⟨identity, node⟩ :: rest => by
    intro field hfield
    obtain hnode | hfield := mem_cons.mp hfield
    · exact hnode ▸ node.induction h
    · exact fieldsInduction h rest field hfield

end

end induction

end Skiff.Recoverable
