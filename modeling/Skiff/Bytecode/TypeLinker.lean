import Skiff.Bytecode.Linked
import Skiff.Data.Memo

/-!
# Interned types

The tables of the deployment-wide type linker, as one function's link sees them: the rows,
and for this package and specialization the row of each pool entry. A pool entry that has a
row is returned at once; otherwise `Interning` says how its row is made. What it may do is
stated in its fields: it adds rows, changes none, and records the new row's origin.
-/

namespace Skiff.Bytecode

open Option Mut

inductive LinkError where
  /-- An obligation of the stack map fails, at an instruction or for the whole function. -/
  | unsatisfied (pc : Option Nat) (detail : String)
  | unavailable (pc : Option Nat)
  /-- An unsatisfied write to a slot. Its detail prints both values with their types. -/
  | slotWriteDiffers (pc : Option Nat) (slot : Nat) (expected actual : LinkedStackValue)
    (expectedType actualType : Option TypeRefIr)
  /-- The type linker reports its own errors. -/
  | typeLinking (detail : String)

inductive LinkedContainerLayout where
  | array (element : LinkedStackValue)
  | map (key value : LinkedStackValue)
  | json (recursiveValue : LinkedStackValue)
  | jsonObject (key value : LinkedStackValue)

namespace LinkedContainerLayout

def element : LinkedContainerLayout → Option LinkedStackValue
  | array element => some element
  | _ => none

def key : LinkedContainerLayout → Option LinkedStackValue
  | map key _ => some key
  | jsonObject key _ => some key
  | _ => none

def value : LinkedContainerLayout → Option LinkedStackValue
  | map _ value => some value
  | jsonObject _ value => some value
  | _ => none

end LinkedContainerLayout

structure LinkedTypeEntry where
  index : TypeIndex
  typeRef : TypeRefIr
  plan : LinkedValueTransferPlan
  containerLayout : Option LinkedContainerLayout

structure LinkedShapeEntry where
  index : ShapeIndex
  nominalType : TypeIndex
  plan : LinkedValueTransferPlan
  fields : List LinkedStackValue

inductive LinkedWritablePathSegment where
  | denseField (shape : ShapeIndex) (fieldOrdinal : Nat)
  | arrayIndex (selectorOrdinal : Nat) (elementType : TypeIndex)
  | mapKey (selectorOrdinal : Nat) (keyType valueType : TypeIndex)

structure LinkedWritablePathEntry where
  rootType : TypeIndex
  leafType : TypeIndex
  segments : List LinkedWritablePathSegment

/-- A table of rows with the row of each pool entry. -/
structure InternTable (α : Type) where
  rows : List α
  origins : OrdMap Nat Nat

namespace InternTable

variable {α : Type}

/-- A later state of a table. -/
instance : Preorder (InternTable α) where
  le a b := a.rows <+: b.rows ∧ ∀ entry row, a.origins.get? entry = some row →
    b.origins.get? entry = some row
  le_refl a := ⟨List.prefix_refl _, fun _ _ h => h⟩
  le_trans a b c hab hbc :=
    ⟨hab.1.trans hbc.1, fun entry row h => hbc.2 entry row (hab.2 entry row h)⟩

theorem getElem?_mono {a b : InternTable α} (hle : a ≤ b) {index : Nat} {row : α}
    (h : a.rows[index]? = some row) : b.rows[index]? = some row := by
  obtain ⟨rest, hrest⟩ := hle.1
  rw [← hrest, List.getElem?_append_left (List.getElem?_eq_some_iff.mp h).1]
  exact h

end InternTable

structure TypeLinker where
  types : InternTable LinkedTypeEntry
  shapes : InternTable LinkedShapeEntry
  writablePaths : InternTable LinkedWritablePathEntry
  callbackCaptureLayouts : InternTable (List LinkedStackValue)

namespace TypeLinker

instance : Preorder TypeLinker where
  le a b := a.types ≤ b.types ∧ a.shapes ≤ b.shapes ∧ a.writablePaths ≤ b.writablePaths ∧
    a.callbackCaptureLayouts ≤ b.callbackCaptureLayouts
  le_refl a := ⟨le_refl _, le_refl _, le_refl _, le_refl _⟩
  le_trans a b c hab hbc :=
    ⟨le_trans hab.1 hbc.1, le_trans hab.2.1 hbc.2.1, le_trans hab.2.2.1 hbc.2.2.1,
    le_trans hab.2.2.2 hbc.2.2.2⟩

def linkedTypeEntry (linker : TypeLinker) (index : TypeIndex) : Option LinkedTypeEntry :=
  linker.types.rows[index]?.filter fun entry => entry.index = index

def linkedTypeRef (linker : TypeLinker) (index : TypeIndex) : Option TypeRefIr :=
  (linker.linkedTypeEntry index).map (·.typeRef)

def linkedTypePlan (linker : TypeLinker) (index : TypeIndex) : Option LinkedValueTransferPlan :=
  (linker.linkedTypeEntry index).map (·.plan)

def containerLayout (linker : TypeLinker) (index : TypeIndex) : Option LinkedContainerLayout :=
  linker.types.rows[index]?.bind (·.containerLayout)

end TypeLinker

abbrev LinkM (α : Type) := Mut TypeLinker LinkError α

/-- How rows are made for the pool entries of one package and specialization. -/
structure Interning where
  linkType : Nat → LinkM TypeIndex
  linkShape : Nat → LinkM ShapeIndex
  linkWritablePath : Nat → LinkM WritablePathIndex
  linkCallbackCaptureLayout : Nat → LinkM Nat
  /-- The pool entry of a type, before and after the substitution of type parameters. -/
  findPoolType : TypeRefIr → Except LinkError (Option Nat)
  findPoolTypeAfterSubstitution : TypeRefIr → Except LinkError (Option Nat)
  /-- The type that a representation type wraps, by its declaration in the package. -/
  representationPayload : TypeRefIr → Except LinkError TypeRefIr
  linkType_grows : ∀ {entry linker row linker'}, linkType entry linker = (.ok row, linker') →
    linker ≤ linker' ∧ linker'.types.origins.get? entry = some row
  linkShape_grows : ∀ {entry linker row linker'}, linkShape entry linker = (.ok row, linker') →
    linker ≤ linker' ∧ linker'.shapes.origins.get? entry = some row
  linkWritablePath_grows : ∀ {entry linker row linker'}, linkWritablePath entry linker =
    (.ok row, linker') →
    linker ≤ linker' ∧ linker'.writablePaths.origins.get? entry = some row
  linkCallbackCaptureLayout_grows : ∀ {entry linker row linker'},
    linkCallbackCaptureLayout entry linker = (.ok row, linker') →
    linker ≤ linker' ∧ linker'.callbackCaptureLayouts.origins.get? entry = some row

/-- Return the row of a pool entry, made at its first use. -/
def internWith {α : Type} (table : TypeLinker → InternTable α) (link : Nat → LinkM Nat)
    (entry : Nat) : LinkM Nat :=
  fun linker =>
    match (table linker).origins.get? entry with
    | some row => (.ok row, linker)
    | none => link entry linker

namespace Interning

variable (interning : Interning)

def internPoolType (entry : Nat) :
    LinkM TypeIndex := internWith TypeLinker.types interning.linkType entry

def internPoolShape (entry : Nat) :
    LinkM ShapeIndex := internWith TypeLinker.shapes interning.linkShape entry

def internWritablePath (entry : Nat) : LinkM WritablePathIndex :=
  internWith TypeLinker.writablePaths interning.linkWritablePath entry

def internCallbackCaptureLayout (entry : Nat) : LinkM Nat :=
  internWith TypeLinker.callbackCaptureLayouts interning.linkCallbackCaptureLayout entry

def internConcreteType (expected : TypeRefIr) : LinkM TypeIndex := do
  match ← ofExcept (interning.findPoolTypeAfterSubstitution expected) with
  | some entry => interning.internPoolType entry
  | none => fail (.typeLinking "concrete type has no exact admitted type-pool origin")

def internBuiltin (name : String) : LinkM TypeIndex := do
  match ← ofExcept (interning.findPoolType (.builtin name [])) with
  | some entry => interning.internPoolType entry
  | none => fail (.typeLinking
      s!"opcode semantics require builtin type {name}, but the admitted type pool has no exact row")

end Interning

/-! ## Stability -/

namespace TypeLinker

variable {linker later : TypeLinker} {index : TypeIndex}

theorem linkedTypeEntry_mono (hle : linker ≤ later) {entry : LinkedTypeEntry}
    (h : linker.linkedTypeEntry index = some entry) : later.linkedTypeEntry index = some entry := by
  obtain ⟨hrow, hindex⟩ := filter_eq_some_iff.mp h
  exact filter_eq_some_iff.mpr ⟨InternTable.getElem?_mono hle.1 hrow, hindex⟩

theorem linkedTypeRef_mono (hle : linker ≤ later) {typeRef : TypeRefIr}
    (h : linker.linkedTypeRef index = some typeRef) : later.linkedTypeRef index = some typeRef := by
  obtain ⟨entry, hentry, rfl⟩ := map_eq_some_iff.mp h
  exact map_eq_some_iff.mpr ⟨entry, linkedTypeEntry_mono hle hentry, rfl⟩

theorem linkedTypePlan_mono (hle : linker ≤ later) {plan : LinkedValueTransferPlan}
    (h : linker.linkedTypePlan index = some plan) : later.linkedTypePlan index = some plan := by
  obtain ⟨entry, hentry, rfl⟩ := map_eq_some_iff.mp h
  exact map_eq_some_iff.mpr ⟨entry, linkedTypeEntry_mono hle hentry, rfl⟩

theorem containerLayout_mono (hle : linker ≤ later) {layout : LinkedContainerLayout}
    (h : linker.containerLayout index = some layout) :
    later.containerLayout index = some layout := by
  obtain ⟨entry, hentry, hlayout⟩ := bind_eq_some_iff.mp h
  exact bind_eq_some_iff.mpr ⟨entry, InternTable.getElem?_mono hle.1 hentry, hlayout⟩

end TypeLinker

theorem internWith_stable {α : Type} {table : TypeLinker → InternTable α} {link : Nat → LinkM Nat}
    {entry : Nat} (hmono : ∀ {a b : TypeLinker}, a ≤ b → table a ≤ table b)
    (hlink : ∀ {linker row linker'}, link entry linker = (.ok row, linker') →
      linker ≤ linker' ∧ (table linker').origins.get? entry = some row) :
    Stable (internWith table link entry) := by
  have hrecorded : ∀ {linker row linker'}, internWith table link entry linker = (.ok row, linker') →
      linker ≤ linker' ∧ (table linker').origins.get? entry = some row := by
    intro linker row linker' h
    unfold internWith at h
    split at h
    case h_1 row' hrow =>
      obtain ⟨hok, rfl⟩ := Prod.mk.inj h
      cases hok
      exact ⟨le_refl _, hrow⟩
    case h_2 => exact hlink h
  constructor
  · intro s t row h
    exact (hrecorded h).1
  intro s t u row h hle
  have hrow := (hmono hle).2 entry row (hrecorded h).2
  unfold internWith
  rw [hrow]

namespace Interning

variable (interning : Interning)

variable (entry : Nat)

theorem internPoolType_stable : Stable (interning.internPoolType entry) :=
  internWith_stable (fun h => h.1) interning.linkType_grows

theorem internPoolShape_stable : Stable (interning.internPoolShape entry) :=
  internWith_stable (fun h => h.2.1) interning.linkShape_grows

theorem internWritablePath_stable : Stable (interning.internWritablePath entry) :=
  internWith_stable (fun h => h.2.2.1) interning.linkWritablePath_grows

theorem internCallbackCaptureLayout_stable : Stable (interning.internCallbackCaptureLayout entry) :=
  internWith_stable (fun h => h.2.2.2) interning.linkCallbackCaptureLayout_grows

theorem internConcreteType_stable (expected : TypeRefIr) :
    Stable (interning.internConcreteType expected) := by
  refine (Mut.Stable.ofExcept _).bind fun found => ?_
  cases found with
  | some entry => exact interning.internPoolType_stable entry
  | none => exact .fail _

theorem internBuiltin_stable (name : String) : Stable (interning.internBuiltin name) := by
  refine (Mut.Stable.ofExcept _).bind fun found => ?_
  cases found with
  | some entry => exact interning.internPoolType_stable entry
  | none => exact .fail _

end Interning

end Skiff.Bytecode
