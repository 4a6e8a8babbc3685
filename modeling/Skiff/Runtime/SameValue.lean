import Skiff.Runtime.RequestHeap
import Skiff.Runtime.TypePlan

/-!
# Values in two heaps

When a value of one heap is structurally the value of another, following handles
(`SameAny`), and the same under a plan, where a map in a record slot counts as the
object with its fields (`SameTyped`). Both survive the growth of the second heap.

The second half is the budget of a heap: how much room an allocation needs and what is
left after it.
-/

namespace Skiff.Runtime

open RuntimeRecordFieldPlan

/-! ## Growth -/

/-- Nodes and estimated bytes. -/
structure Cost where
  nodes : Nat
  bytes : Nat

namespace Cost

def zero : Cost := ⟨0, 0⟩
def add (a b : Cost) : Cost := ⟨a.nodes + b.nodes, a.bytes + b.bytes⟩

instance : Zero Cost := ⟨zero⟩
instance : Add Cost := ⟨add⟩

@[simp] theorem nodes_zero : (0 : Cost).nodes = 0 := rfl
@[simp] theorem bytes_zero : (0 : Cost).bytes = 0 := rfl
@[simp] theorem nodes_add (a b : Cost) : (a + b).nodes = a.nodes + b.nodes := rfl
@[simp] theorem bytes_add (a b : Cost) : (a + b).bytes = a.bytes + b.bytes := rfl

end Cost

namespace RequestHeap

variable {heap middle next : RequestHeap} {a b : Cost}

/-- The budget that is left covers the cost. -/
structure HasRoom (heap : RequestHeap) (cost : Cost) : Prop where
  nodes : heap.stats.nodeCount + cost.nodes ≤ heap.limits.maxNodes
  bytes : heap.stats.estimatedBytes + cost.bytes ≤ heap.limits.maxEstimatedBytes
  indices : heap.nodes.length + cost.nodes ≤ u32Max

/-- Allocations of a total cost lead from one heap to the other. -/
structure Grown (heap next : RequestHeap) (cost : Cost) : Prop where
  limits : next.limits = heap.limits
  nodeCount : next.stats.nodeCount = heap.stats.nodeCount + cost.nodes
  estimatedBytes : next.stats.estimatedBytes = heap.stats.estimatedBytes + cost.bytes
  length : next.nodes.length = heap.nodes.length + cost.nodes
  keeps : ∀ handle node, heap.get handle = .ok node → next.get handle = .ok node

theorem Grown.refl (heap : RequestHeap) : heap.Grown heap 0 := ⟨rfl, rfl, rfl, rfl, fun _ _ h => h⟩

theorem Grown.trans (h₁ : heap.Grown middle a) (h₂ : middle.Grown next b) :
    heap.Grown next (a + b) where
  limits := h₂.limits.trans h₁.limits
  nodeCount := by
    rw [h₂.nodeCount, h₁.nodeCount, Cost.nodes_add]
    omega
  estimatedBytes := by
    rw [h₂.estimatedBytes, h₁.estimatedBytes, Cost.bytes_add]
    omega
  length := by
    rw [h₂.length, h₁.length, Cost.nodes_add]
    omega
  keeps := fun handle node h => h₂.keeps handle node (h₁.keeps handle node h)

theorem HasRoom.first (h : heap.HasRoom (a + b)) : heap.HasRoom a := by
  obtain ⟨hnodes, hbytes, hindices⟩ := h
  simp only [Cost.nodes_add, Cost.bytes_add] at hnodes hbytes hindices
  constructor <;> omega

theorem HasRoom.second (h : heap.HasRoom (a + b)) (hgrown : heap.Grown middle a) :
    middle.HasRoom b := by
  obtain ⟨hnodes, hbytes, hindices⟩ := h
  simp only [Cost.nodes_add, Cost.bytes_add] at hnodes hbytes hindices
  constructor
  · rw [hgrown.nodeCount, hgrown.limits]
    omega
  · rw [hgrown.estimatedBytes, hgrown.limits]
    omega
  rw [hgrown.length]
  omega

/-- An allocation with room succeeds, and the new handle leads to the node. -/
theorem allocNode_eq_ok {node : HeapNode} (h : heap.HasRoom ⟨1, estimateHeapNodeBytes node⟩) :
    ∃ handle next, heap.allocNode node = .ok (handle, next) ∧
      heap.Grown next ⟨1, estimateHeapNodeBytes node⟩ ∧ next.get handle = .ok node := by
  obtain ⟨hnodes, hbytes, hindices⟩ := h
  simp only at hnodes hbytes hindices
  have halloc : heap.allocNode node = .ok (⟨heap.nodes.length, 0, heap.epoch⟩,
      { heap with
        nodes := heap.nodes ++ [⟨0, node, .plain⟩]
        stats := ⟨heap.stats.nodeCount + 1,
          heap.stats.estimatedBytes + estimateHeapNodeBytes node⟩ }) := by
    rw [allocNode, allocNodeWithCarriers, if_neg (by omega), if_neg (by omega), if_neg (by omega)]
  refine ⟨_, _, halloc, ⟨rfl, rfl, rfl, by simp, fun handle node h => get_append h⟩, ?_⟩
  simp [get, slot, Except.map]

end RequestHeap

/-! ## The same value -/

section Same

variable (source target : RequestHeap)

/-- Structurally equal values, each followed in its own heap. -/
inductive SameAny : RuntimeValue → RuntimeValue → Prop where
  | null : SameAny .null .null
  | bool {value} : SameAny (.bool value) (.bool value)
  | number {bits} : SameAny (.number bits) (.number bits)
  | date {millis} : SameAny (.date millis) (.date millis)
  | string {text} : SameAny (.string text) (.string text)
  | bytes {a b content} : source.get a = .ok (.bytes content) →
      target.get b = .ok (.bytes content) →
      SameAny (.heap a) (.heap b)
  | array {a b xs ys} : source.get a = .ok (.array xs) → target.get b = .ok (.array ys) →
      xs.length = ys.length →
      (∀ (i : Nat) (x y : RuntimeValue), xs[i]? = some x → ys[i]? = some y → SameAny x y) →
      SameAny (.heap a) (.heap b)
  | object {a b xs ys} : source.get a = .ok (.object xs) → target.get b = .ok (.object ys) →
      (∀ key, xs.get? key = none ↔ ys.get? key = none) →
      (∀ key x y, xs.get? key = some x → ys.get? key = some y → SameAny x y) →
      SameAny (.heap a) (.heap b)
  | map {a b xs ys} : source.get a = .ok (.map xs) → target.get b = .ok (.map ys) →
      (∀ key, xs.get? key = none ↔ ys.get? key = none) →
      (∀ key x y, xs.get? key = some x → ys.get? key = some y → SameAny x y) →
      SameAny (.heap a) (.heap b)

/-- Equal under a plan: where the plan says record, the first value may also be a map. -/
inductive SameTyped : RuntimeTypePlan → RuntimeValue → RuntimeValue → Prop where
  | any {plan x y} : SameAny source target x y → SameTyped plan x y
  | nullable {plan inner x y} : boundaryTypeNode plan = .nullable inner → SameTyped inner x y →
      SameTyped plan x y
  | union {plan types ty x y} : boundaryTypeNode plan = .union types → ty ∈ types →
      SameTyped ty x y → SameTyped plan x y
  | array {plan item a b xs ys} : boundaryTypeNode plan = .array item →
      source.get a = .ok (.array xs) → target.get b = .ok (.array ys) → xs.length = ys.length →
      (∀ (i : Nat) (x y : RuntimeValue), xs[i]? = some x → ys[i]? = some y → SameTyped item x y) →
      SameTyped plan (.heap a) (.heap b)
  | map {plan keyType item a b xs ys} : boundaryTypeNode plan = .map keyType item →
      source.get a = .ok (.map xs) → target.get b = .ok (.map ys) →
      (∀ key, xs.get? key = none ↔ ys.get? key = none) →
      (∀ key x y, xs.get? key = some x → ys.get? key = some y → SameTyped item x y) →
      SameTyped plan (.heap a) (.heap b)
  | record {plan fields a b node xs ys} : boundaryTypeNode plan = .record fields →
      source.get a = .ok node → (node = .object xs ∨ node = .map xs) →
      target.get b = .ok (.object ys) →
      (∀ key, xs.get? key = none ↔ ys.get? key = none) →
      (∀ field ∈ fields, ∀ x y, xs.get? (name field) = some x →
        ys.get? (name field) = some y →
        SameTyped (ty field) x y) →
      (∀ key x, xs.get? key = some x → key ∈ fields.map name) →
      SameTyped plan (.heap a) (.heap b)

variable {source target}

theorem SameAny.grown {next : RequestHeap} {cost : Cost} (hgrown : target.Grown next cost)
    {x y : RuntimeValue} (h : SameAny source target x y) : SameAny source next x y := by
  induction h with
  | null => exact .null
  | bool => exact .bool
  | number => exact .number
  | date => exact .date
  | string => exact .string
  | bytes ha hb => exact .bytes ha (hgrown.keeps _ _ hb)
  | array ha hb hlength _ ih => exact .array ha (hgrown.keeps _ _ hb) hlength ih
  | object ha hb hkeys _ ih => exact .object ha (hgrown.keeps _ _ hb) hkeys ih
  | map ha hb hkeys _ ih => exact .map ha (hgrown.keeps _ _ hb) hkeys ih

theorem SameTyped.grown {next : RequestHeap} {cost : Cost} (hgrown : target.Grown next cost)
    {plan : RuntimeTypePlan} {x y : RuntimeValue} (h : SameTyped source target plan x y) :
    SameTyped source next plan x y := by
  induction h with
  | any hany => exact .any (hany.grown hgrown)
  | nullable hnode _ ih => exact .nullable hnode ih
  | union hnode hmem _ ih => exact .union hnode hmem ih
  | array hnode ha hb hlength _ ih => exact .array hnode ha (hgrown.keeps _ _ hb) hlength ih
  | map hnode ha hb hkeys _ ih => exact .map hnode ha (hgrown.keeps _ _ hb) hkeys ih
  | record hnode ha hsource hb hkeys _ hdeclared ih =>
    exact .record hnode ha hsource (hgrown.keeps _ _ hb) hkeys ih hdeclared

end Same

end Skiff.Runtime
