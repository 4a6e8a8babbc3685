import Skiff.Runtime.VmHeap.Path

/-!
# What the operations can do

One lemma for each operation says which states it can end in, whether it succeeds or
fails. Later arguments about owners, values and failures use these and do not open the
operations again.

An operation that fails in its checks leaves the state alone. All of the others share a
late step, the update of the ledger, so each of them can also fail with its work done.
-/

namespace Skiff.Runtime

variable {carriers : HeapCarrierLayout}

namespace RequestHeap

/-- Handles stay valid, and the arena does not shrink. -/
structure Grows (heap heap' : RequestHeap) : Prop where
  epoch : heap'.epoch = heap.epoch
  length : heap.nodes.length ≤ heap'.nodes.length
  get : ∀ handle node, heap.get handle = .ok node → ∃ node', heap'.get handle = .ok node'

/-- The handle of the next node. -/
def nextHandle (heap : RequestHeap) : HeapHandle := ⟨heap.nodes.length, 0, heap.epoch⟩

variable {heap heap' : RequestHeap} {handle : HeapHandle}

theorem Grows.refl : Grows heap heap := ⟨rfl, Nat.le_refl _, fun _ node h => ⟨node, h⟩⟩

theorem slot_eq_ok {slot : HeapSlot} :
    heap.slot handle = .ok slot ↔ handle.epoch = heap.epoch ∧
      heap.nodes[handle.index]? = some slot ∧ slot.generation = handle.generation := by
  unfold RequestHeap.slot
  split
  case isTrue hepoch => simp [hepoch]
  case isFalse hepoch =>
    split
    case h_1 hnone => simp [hnone]
    case h_2 slot' hsome =>
      split
      case isTrue hgeneration =>
        simp only [reduceCtorEq, false_iff, not_and]
        rintro - hslot heq
        rw [hsome] at hslot
        cases hslot
        exact hgeneration heq
      case isFalse hgeneration =>
        simp only [Except.ok.injEq, hsome, Option.some.injEq]
        constructor
        · rintro rfl
          exact ⟨not_not.mp hepoch, rfl, not_not.mp hgeneration⟩
        · exact fun h => h.2.1

variable {node : HeapNode}

theorem index_lt_of_get (h : heap.get handle = .ok node) : handle.index < heap.nodes.length := by
  obtain ⟨slot, hslot, -⟩ := get_eq_ok.mp h
  exact (List.getElem?_eq_some_iff.mp (slot_eq_ok.mp hslot).2.1).1

theorem ne_nextHandle (h : heap.get handle = .ok node) : handle ≠ heap.nextHandle := by
  rintro rfl
  exact Nat.lt_irrefl _ (index_lt_of_get h)

/-- What an accepted node adds. -/
theorem allocNodeWithCarriers_eq_ok
    (h : heap.allocNodeWithCarriers node carriers = .ok (handle, heap')) :
    handle = heap.nextHandle ∧ heap' = { heap with
      nodes := heap.nodes ++ [⟨0, node, carriers⟩]
      stats :=
        ⟨heap.stats.nodeCount + 1, heap.stats.estimatedBytes + estimateHeapNodeBytes node⟩ } := by
  unfold allocNodeWithCarriers at h
  dsimp only at h
  split at h
  · cases h
  split at h
  · cases h
  split at h
  · cases h
  cases h
  exact ⟨rfl, rfl⟩

theorem grows_append {slots : List HeapSlot} {stats : RequestHeapStats} :
    Grows heap { heap with nodes := heap.nodes ++ slots, stats := stats } :=
  ⟨rfl, by simp, fun _ node h => ⟨node, get_append h⟩⟩

theorem grows_replaceNode (node : HeapNode) (oldBytes newBytes : Nat) :
    Grows heap (heap.replaceNode handle node oldBytes newBytes) := by
  refine ⟨rfl, by simp [replaceNode], fun other node' h => ?_⟩
  obtain ⟨slot, hslot, -⟩ := get_eq_ok.mp h
  obtain ⟨hepoch, hget, hgeneration⟩ := slot_eq_ok.mp hslot
  by_cases hindex : handle.index = other.index
  · have hmodified : (heap.replaceNode handle node oldBytes newBytes).slot other =
        .ok ⟨slot.generation, node, .plain⟩ := by
      refine slot_eq_ok.mpr ⟨hepoch, ?_, hgeneration⟩
      simp [replaceNode, hindex, hget]
    exact ⟨node, get_eq_ok.mpr ⟨_, hmodified, rfl⟩⟩
  have hkept : (heap.replaceNode handle node oldBytes newBytes).slot other = .ok slot := by
    refine slot_eq_ok.mpr ⟨hepoch, ?_, hgeneration⟩
    simp [replaceNode, hindex, hget]
  exact ⟨slot.node, get_eq_ok.mpr ⟨_, hkept, rfl⟩⟩

theorem grows_alloc (h : heap.allocNodeWithCarriers node carriers = .ok (handle, heap')) :
    Grows heap heap' ∧ heap'.get heap.nextHandle = .ok node := by
  obtain ⟨-, rfl⟩ := allocNodeWithCarriers_eq_ok h
  refine ⟨grows_append, get_eq_ok.mpr ⟨⟨0, node, carriers⟩, slot_eq_ok.mpr ⟨rfl, ?_, rfl⟩, rfl⟩⟩
  simp [nextHandle]

variable {value : RuntimeValue}

theorem grows_pushArrayItem (h : heap.pushArrayItem handle value = .ok heap') :
    Grows heap heap' := by
  obtain ⟨-, -, h⟩ := bind_eq_ok.mp h
  obtain ⟨node, -, h⟩ := bind_eq_ok.mp h
  split at h
  · obtain ⟨-, -, h⟩ := bind_eq_ok.mp h
    cases h
    exact grows_replaceNode _ _ _
  · cases h

theorem grows_setArrayItem {index : Nat}
    (h : heap.setArrayItem handle index value = .ok heap') : Grows heap heap' := by
  obtain ⟨-, -, h⟩ := bind_eq_ok.mp h
  obtain ⟨node, -, h⟩ := bind_eq_ok.mp h
  split at h
  · split at h
    · cases h
    obtain ⟨-, -, h⟩ := bind_eq_ok.mp h
    cases h
    exact grows_replaceNode _ _ _
  · cases h

theorem grows_setEntry {mismatch key : String} {existed : Bool}
    (h : heap.setEntry mismatch handle key value = .ok (existed, heap')) : Grows heap heap' := by
  obtain ⟨-, -, h⟩ := bind_eq_ok.mp h
  obtain ⟨node, -, h⟩ := bind_eq_ok.mp h
  split at h
  · obtain ⟨-, -, h⟩ := bind_eq_ok.mp h
    cases h
    exact grows_replaceNode _ _ _
  · obtain ⟨-, -, h⟩ := bind_eq_ok.mp h
    cases h
    exact grows_replaceNode _ _ _
  · cases h

end RequestHeap

namespace RequestVmHeap

/-! ## The ledger -/

/-- The ledger, if there is one, accepts what the heap comes to with this arena. -/
def Fits (s : RequestVmHeap) (heap : RequestHeap) : Prop :=
  ∀ ledger, s.ledger = some ledger →
    ∃ next, ledger.setCommittedLeaseAmount (heap.stats.estimatedBytes + s.structuralBytes) =
      .ok next

/-- Only the ledger changes, and it decides. -/
theorem syncMemory_cases {s t : RequestVmHeap} {r : Except VmHeapError Unit}
    (h : syncMemory s = (r, t)) :
    ∃ ledger, t = { s with ledger := ledger } ∧
      ((r = .ok () ∧ s.Fits s.heap) ∨ ∃ error, r = .error error ∧ ¬ s.Fits s.heap) := by
  unfold syncMemory at h
  split at h
  case h_1 hnone =>
    cases h
    exact ⟨s.ledger, rfl, .inl ⟨rfl, fun ledger hsome => by rw [hnone] at hsome; cases hsome⟩⟩
  case h_2 ledger hsome =>
    split at h
    case h_1 next haccepts =>
      cases h
      refine ⟨some next, rfl, .inl ⟨rfl, fun ledger' hsome' => ?_⟩⟩
      rw [hsome] at hsome'
      cases hsome'
      exact ⟨next, haccepts⟩
    case h_2 error hrefuses =>
      cases h
      refine ⟨s.ledger, rfl, .inr ⟨_, rfl, fun hfits => ?_⟩⟩
      obtain ⟨next, haccepts⟩ := hfits ledger hsome
      rw [hrefuses] at haccepts
      cases haccepts

/-! ## Allocation -/

/-- A new handle over a node, with the child slots of the node. -/
def install (s : RequestVmHeap) (heapHandle : HeapHandle) (tag : CompactTypeTag)
    (flags : ValueFlags) (sidecar : Option Sidecar) : RequestVmHeap :=
  let installed := s.installHandle (encodeHandle s.domain s.nextSerial) heapHandle tag flags
  { installed with
    nextSerial := s.nextSerial + 1
    slots := sidecar.elim s.slots (s.slots.insert heapHandle) }

/-- The slot of the handle that comes next. -/
def nextSlot (s : RequestVmHeap) (tag : CompactTypeTag) (flags : ValueFlags) : ValueSlot :=
  .requestHeapRef (encodeHandle s.domain s.nextSerial) tag flags

variable {operation : VmHeapOperation}

theorem ensureSerialAvailable_eq_ok {s : RequestVmHeap} :
    s.ensureSerialAvailable operation = .ok () ↔ s.nextSerial ≤ maxSerial := by
  unfold ensureSerialAvailable
  split <;> simp <;> omega

/-- A handle can be registered for a node of the arena while there are serials. -/
theorem registerHandle_eq {s : RequestVmHeap} {heapHandle : HeapHandle} {node : HeapNode}
    (tag : CompactTypeTag) (flags : ValueFlags) (hnode : s.heap.get heapHandle = .ok node)
    (hserial : s.nextSerial ≤ maxSerial) :
    registerHandle heapHandle tag flags s =
      (.ok (s.nextSlot tag flags), s.install heapHandle tag flags none) := by
  have hread : arena .validateLive (s.heap.get heapHandle) = .ok node := by rw [hnode]; rfl
  have hensure : s.ensureSerialAvailable .validateLive = .ok () :=
    ensureSerialAvailable_eq_ok.mpr hserial
  simp only [registerHandle, allocSerial, Mut.read, bind, Mut.bind, hread, hensure]
  rfl

section Outcomes

variable {s t : RequestVmHeap}

/-- Failed, with everything as it was. -/
def Refused {α : Type} (s t : RequestVmHeap) (r : Except VmHeapError α) : Prop :=
  t = s ∧ ∃ error, r = .error error

/-- The end of an operation: it succeeds if the ledger takes the new arena. -/
def Settled {α : Type} (s : RequestVmHeap) (heap : RequestHeap) (a : α) (r : Except VmHeapError α) :
    Prop :=
  (r = .ok a ∧ s.Fits heap) ∨ ∃ error, r = .error error ∧ ¬ s.Fits heap

/-- Peel a look off an operation. -/
theorem read_refused {α β : Type} {f : RequestVmHeap → Except VmHeapError α} {g : α → VmHeapM β}
    {r : Except VmHeapError β} (h : (Mut.read f >>= g) s = (r, t)) :
    Refused s t r ∨ ∃ a, f s = .ok a ∧ g a s = (r, t) := by
  obtain ⟨error, hr, -, ht⟩ | h := Mut.read_cases h
  · exact .inl ⟨ht, error, hr⟩
  · exact .inr h

/-- The last two steps of most operations. -/
theorem sync_return {α : Type} {a : α} {r : Except VmHeapError α}
    (h : (syncMemory >>= fun _ => pure a) s = (r, t)) :
    ∃ ledger, t = { s with ledger := ledger } ∧ Settled s s.heap a r := by
  obtain ⟨error, hr, hsync⟩ | ⟨_, next, hsync, hpure⟩ := Mut.bind_cases h
  · obtain ⟨ledger, ht, ⟨hok, -⟩ | ⟨_, -, hfits⟩⟩ := syncMemory_cases hsync
    · cases hok
    · exact ⟨ledger, ht, .inr ⟨error, hr, hfits⟩⟩
  obtain ⟨hr, rfl⟩ := Prod.mk.inj hpure
  obtain ⟨ledger, ht, ⟨-, hfits⟩ | ⟨_, herror, -⟩⟩ := syncMemory_cases hsync
  · exact ⟨ledger, ht, .inl ⟨hr.symm, hfits⟩⟩
  · cases herror

theorem allocate_cases {node : HeapNode}
    {tag : CompactTypeTag} {flags : ValueFlags} {sidecar : Option Sidecar}
    {r : Except VmHeapError ValueSlot}
    (h : allocate operation node carriers tag flags sidecar s = (r, t)) :
    Refused s t r ∨ ∃ heap ledger,
      s.heap.allocNodeWithCarriers node carriers = .ok (s.heap.nextHandle, heap) ∧
      s.nextSerial ≤ maxSerial ∧
      t = { s.install s.heap.nextHandle tag flags sidecar with heap := heap, ledger := ledger } ∧
      Settled s heap (s.nextSlot tag flags) r := by
  obtain hrefused | ⟨_, hserial, h⟩ := read_refused h
  · exact .inl hrefused
  have hserial := ensureSerialAvailable_eq_ok.mp hserial
  obtain ⟨error, hr, harena⟩ | ⟨handle, next, harena, h⟩ := Mut.bind_cases h
  · unfold allocArena at harena
    split at harena
    · cases harena
    cases harena
    exact .inl ⟨rfl, _, hr⟩
  unfold allocArena at harena
  split at harena
  case h_2 => cases harena
  case h_1 handle' heap halloc =>
    cases harena
    obtain ⟨rfl, -⟩ := RequestHeap.allocNodeWithCarriers_eq_ok halloc
    have hnode := (RequestHeap.grows_alloc halloc).2
    rw [show (registerHandle s.heap.nextHandle tag flags >>= _) = Mut.bind _ _ from rfl, Mut.bind,
      registerHandle_eq (s := { s with heap := heap }) tag flags hnode hserial] at h
    obtain ⟨ledger, ht, hsettled⟩ := sync_return (Mut.modify_bind.symm.trans h)
    refine .inr ⟨heap, ledger, halloc, hserial, ?_, ?_⟩
    · rw [ht]
      cases sidecar <;> rfl
    · cases sidecar <;> exact hsettled

end Outcomes

end RequestVmHeap

end Skiff.Runtime
