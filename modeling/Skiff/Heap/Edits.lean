import Mathlib.Algebra.Order.BigOperators.Group.List
import Mathlib.Data.List.Nodup
import Mathlib.Data.List.Perm.Subperm
import Skiff.Data.Graph
import Skiff.Heap.Mutations

/-!
# What a change in place does

Every mutation of the request heap fails and leaves the heap alone, or edits one slot: the
slot keeps its generation, its counted bytes and those of the heap change by the same
amounts, its node gains at most the value that passed the cycle check, and its identities
keep the shape of its node. `Mutation.outcome` collects this.

The cycle check is complete (`isReachable_false`): when it lets a value in, no path of
handles leads from that value to the changed node.
-/

namespace Skiff.Heap

open Relation Except OrdMap
open Skiff.Runtime (HeapHandle RuntimeValue RuntimeError)
open List Mut HeapSlot

variable {ι δ α : Type}

/-! ## Handles -/

/-- A failure that the source reports, as opposed to a panic or a search cut short. -/
def Failure.Reported (failure : Failure) : Prop := ∃ error, failure = .error error

namespace RequestHeap

variable {heap : RequestHeap ι δ} {handle : HeapHandle} {slot slot' : HeapSlot ι δ}

theorem slot_eq_ok : heap.slot handle = .ok slot ↔
    handle.epoch = heap.epoch ∧ heap.nodes[handle.index]? = some slot ∧
      slot.generation = handle.generation := by
  unfold RequestHeap.slot
  by_cases hepoch : handle.epoch = heap.epoch
  · cases hnode : heap.nodes[handle.index]? with
    | none => simp [hepoch]
    | some found =>
      by_cases hgeneration : found.generation = handle.generation
      · simp only [hepoch, hgeneration, ne_eq, not_true_eq_false, if_false, ok.injEq,
          Option.some.injEq, true_and]
        constructor
        · rintro rfl
          exact ⟨rfl, hgeneration⟩
        · exact And.left
      simp only [hepoch, hgeneration, ne_eq, not_true_eq_false, not_false_eq_true, if_false,
        if_true, reduceCtorEq, Option.some.injEq, true_and, false_iff, not_and]
      rintro rfl
      exact hgeneration
  · simp [hepoch]

variable {failure : Failure}

theorem slot_error (h : heap.slot handle = .error failure) :
    ∃ reason, failure = invalidHandleError handle reason := by
  unfold RequestHeap.slot at h
  split at h
  · exact ⟨_, (error.inj h).symm⟩
  split at h
  · exact ⟨_, (error.inj h).symm⟩
  split at h
  · exact ⟨_, (error.inj h).symm⟩
  · cases h

theorem slot_reported (h : heap.slot handle = .error failure) : failure.Reported := by
  obtain ⟨reason, rfl⟩ := slot_error h
  exact ⟨_, rfl⟩

theorem index_lt_of_slot (h : heap.slot handle = .ok slot) : handle.index < heap.nodes.length := by
  obtain ⟨-, hnode, -⟩ := slot_eq_ok.mp h
  exact (List.getElem?_eq_some_iff.mp hnode).1

/-- Two handles into one heap that resolve are the same when their indices are. -/
theorem handle_ext {other : HeapHandle} (h : heap.slot handle = .ok slot)
    (h' : heap.slot other = .ok slot') (hindex : handle.index = other.index) : handle = other := by
  obtain ⟨hepoch, hnode, hgeneration⟩ := slot_eq_ok.mp h
  obtain ⟨hepoch', hnode', hgeneration'⟩ := slot_eq_ok.mp h'
  rw [hindex, hnode'] at hnode
  cases hnode
  obtain ⟨index, generation, epoch⟩ := handle
  obtain ⟨index', generation', epoch'⟩ := other
  simp_all

theorem slot_handleAt {index : Nat} (h : heap.nodes[index]? = some slot) :
    heap.slot (heap.handleAt index slot) = .ok slot :=
  slot_eq_ok.mpr ⟨rfl, h, rfl⟩

/-- A handle resolves. -/
def Resolves (heap : RequestHeap ι δ) (handle : HeapHandle) : Prop :=
  ∃ slot, heap.slot handle = .ok slot

/-- The edges of the handle graph. -/
def Edge (heap : RequestHeap ι δ) (a b : HeapHandle) : Prop :=
  ∃ slot, heap.slot a = .ok slot ∧ b ∈ heapNodeChildHandles slot.node

/-! ## The cycle check is complete -/

variable {reach : HeapHandle → Except Failure Bool} {values : List RuntimeValue}
variable {visiting : List HeapHandle}

theorem valuesContainReachable_false (h : valuesContainReachable reach values = .ok false)
    (hmem : RuntimeValue.heap handle ∈ values) : reach handle = .ok false := by
  induction values with
  | nil => cases hmem
  | cons value rest ih =>
    cases value with
    | heap first =>
      obtain ⟨found, hfirst, hrest⟩ := bind_eq_ok.mp h
      cases found with
      | true => cases hrest
      | false =>
        obtain heq | hmem := mem_cons.mp hmem
        · cases heq
          exact hfirst
        · exact ih hrest hmem
    | null | bool _ | number _ | date _ | string _ | actorRef _ =>
      obtain heq | hmem := mem_cons.mp hmem
      · cases heq
      · exact ih h hmem

theorem valuesContainReachable_error (h : valuesContainReachable reach values = .error failure) :
    ∃ child, RuntimeValue.heap child ∈ values ∧ reach child = .error failure := by
  induction values with
  | nil => cases h
  | cons value rest ih =>
    have hrest : valuesContainReachable reach rest = .error failure →
        ∃ child, RuntimeValue.heap child ∈ value :: rest ∧ reach child = .error failure := by
      intro hfailed
      obtain ⟨child, hmem, hreach⟩ := ih hfailed
      exact ⟨child, .tail _ hmem, hreach⟩
    cases value with
    | heap first =>
      cases hfirst : reach first with
      | error failure' =>
        rw [valuesContainReachable, hfirst] at h
        exact ⟨first, (.head _), hfirst.trans h⟩
      | ok found =>
        rw [valuesContainReachable, hfirst] at h
        cases found with
        | true => cases h
        | false => exact hrest h
    | null | bool _ | number _ | date _ | string _ | actorRef _ => exact hrest h

variable {target start : HeapHandle}

/-- A search that finds nothing has seen every path around the nodes it is visiting. -/
theorem isReachableInner_false {depth : Nat}
    (h : heap.isReachableInner target depth start visiting = .ok false)
    (hfresh : start ∉ visiting) :
    ¬ ReflTransGen (Outside heap.Edge {handle | handle ∈ visiting}) start target := by
  induction depth generalizing start visiting with
  | zero => cases h
  | succ depth ih =>
    rw [isReachableInner] at h
    by_cases htarget : start = target
    · simp [htarget] at h
    rw [if_neg htarget, if_neg hfresh] at h
    obtain ⟨node, hnode, hvalues⟩ := bind_eq_ok.mp h
    intro hpath
    obtain ⟨child, hstep, hne, hrest⟩ := exists_step_outside hpath htarget
    obtain ⟨⟨slot, hslot, hchild⟩, hnew⟩ := hstep
    have hsame : slot.node = node := by
      rw [get, hslot] at hnode
      exact ok.inj hnode
    rw [mem_heapNodeChildHandles, hsame] at hchild
    have hmissed := valuesContainReachable_false hvalues hchild
    have hclear : child ∉ start :: visiting := by
      intro hmem
      obtain heq | hmem := mem_cons.mp hmem
      · exact hne heq
      · exact hnew hmem
    apply ih hmissed hclear
    convert hrest using 2
    ext other
    simp

theorem isReachable_false (h : heap.isReachable start target = .ok false) :
    ¬ ReflTransGen heap.Edge start target := by
  have hsearch := isReachableInner_false h not_mem_nil
  simpa [outside_empty] using hsearch

/-- Different handles that resolve have different indices, so there are no more of them
than nodes. -/
theorem length_le_of_nodup {handles : List HeapHandle} (hnodup : handles.Nodup)
    (hresolves : ∀ handle ∈ handles, heap.Resolves handle) :
    handles.length ≤ heap.nodes.length := by
  have hindices : (handles.map HeapHandle.index).Nodup := by
    apply List.Nodup.map_on _ hnodup
    intro a ha b hb hindex
    obtain ⟨_, hslot⟩ := hresolves a ha
    obtain ⟨_, hslot'⟩ := hresolves b hb
    exact handle_ext hslot hslot' hindex
  have hsub : handles.map HeapHandle.index ⊆ range heap.nodes.length := by
    intro index hmem
    obtain ⟨handle, hhandle, rfl⟩ := mem_map.mp hmem
    obtain ⟨_, hslot⟩ := hresolves handle hhandle
    exact mem_range.mpr (index_lt_of_slot hslot)
  simpa using (subperm_of_subset hindices hsub).length_le

/-- The depth of the search covers the nodes that are not on its path yet. -/
theorem isReachableInner_reported {depth : Nat}
    (hdepth : heap.nodes.length < visiting.length + depth) (hnodup : visiting.Nodup)
    (hresolves : ∀ handle ∈ visiting, heap.Resolves handle)
    (h : heap.isReachableInner target depth start visiting = .error failure) :
    failure.Reported := by
  induction depth generalizing start visiting with
  | zero =>
    have hle := length_le_of_nodup hnodup hresolves
    omega
  | succ depth ih =>
    rw [isReachableInner] at h
    split at h
    · cases h
    split at h
    · cases h
    case isFalse hfresh =>
      cases hslot : heap.slot start with
      | error failure' =>
        rw [get, hslot] at h
        cases h
        exact slot_reported hslot
      | ok slot =>
        rw [get, hslot] at h
        obtain ⟨child, -, hchild⟩ := valuesContainReachable_error h
        refine ih ?_ (nodup_cons.mpr ⟨hfresh, hnodup⟩) ?_ hchild
        · rw [length_cons]
          omega
        intro handle hmem
        obtain rfl | hmem := mem_cons.mp hmem
        · exact ⟨slot, hslot⟩
        · exact hresolves handle hmem

/-- A value that passes the check leads nowhere near the node it is stored in. -/
theorem not_reachable_of_check {inserted : HeapHandle}
    (h : heap.checkInsertWithoutCycle target (.heap inserted) = .ok ()) :
    ¬ ReflTransGen heap.Edge inserted target := by
  obtain ⟨allowed, hallowed, hok⟩ := bind_eq_ok.mp h
  cases allowed with
  | false => cases hok
  | true =>
    cases hreach : heap.isReachable inserted target with
    | error failure => simp [canInsertWithoutCycle, hreach, Except.map] at hallowed
    | ok found =>
      simp only [canInsertWithoutCycle, hreach, Except.map, Except.ok.injEq,
        Bool.not_eq_true'] at hallowed
      subst hallowed
      exact isReachable_false hreach

/-- The check resolves the handle it lets in. -/
theorem resolves_of_check {inserted : HeapHandle}
    (h : heap.checkInsertWithoutCycle target (.heap inserted) = .ok ()) :
    heap.Resolves inserted := by
  obtain ⟨allowed, hallowed, hok⟩ := bind_eq_ok.mp h
  cases hslot : heap.slot inserted with
  | ok slot => exact ⟨slot, hslot⟩
  | error failure =>
    simp only [canInsertWithoutCycle, isReachable, isReachableInner, get, hslot] at hallowed
    split at hallowed
    · obtain rfl : allowed = false := by simpa [Except.map, eq_comm] using hallowed
      cases hok
    · simp [Except.map, bind, Except.bind] at hallowed

theorem check_reported {inserted : RuntimeValue}
    (h : heap.checkInsertWithoutCycle target inserted = .error failure) : failure.Reported := by
  have hsearch : ∀ failure, heap.canInsertWithoutCycle target inserted = .error failure →
      failure.Reported := by
    intro failure hfailed
    cases inserted with
    | heap start =>
      cases hreach : heap.isReachable start target with
      | ok found => simp [canInsertWithoutCycle, hreach, Except.map] at hfailed
      | error failure' =>
        simp only [canInsertWithoutCycle, hreach, Except.map, Except.error.injEq] at hfailed
        subst hfailed
        exact isReachableInner_reported (by simp) .nil (by simp) hreach
    | null | bool _ | number _ | date _ | string _ | actorRef _ => cases hfailed
  cases hallowed : heap.canInsertWithoutCycle target inserted with
  | error failure' =>
    rw [checkInsertWithoutCycle, hallowed] at h
    cases h
    exact hsearch _ hallowed
  | ok allowed =>
    rw [checkInsertWithoutCycle, hallowed] at h
    cases allowed with
    | true => cases h
    | false =>
      cases h
      exact ⟨_, rfl⟩

end RequestHeap

/-! ## Lists -/

variable {β : Type}

theorem getElem?_snoc {items : List β} {last item : β} {k : Nat} :
    (items ++ [last])[k]? = some item ↔ items[k]? = some item ∨
    (k = items.length ∧ item = last) := by
  obtain hlt | heq | hgt := Nat.lt_trichotomy k items.length
  · simp [getElem?_append_left hlt, Nat.ne_of_lt hlt]
  · simp [heq, eq_comm]
  have hlen : (items ++ [last]).length ≤ k := by
    rw [length_append, length_singleton]
    omega
  simp [getElem?_eq_none hlen, getElem?_eq_none hgt.le, Nat.ne_of_gt hgt]

variable {index : Nat}

variable (weigh : β → Nat)

theorem sum_map_set {items : List β} {old : β} (new : β) (h : items[index]? = some old) :
    ((items.set index new).map weigh).sum + weigh old = (items.map weigh).sum + weigh new := by
  induction items generalizing index with
  | nil => simp at h
  | cons first rest ih =>
    cases index with
    | zero =>
      obtain rfl : first = old := by simpa using h
      simp only [set_cons_zero, map_cons, sum_cons]
      omega
    | succ index =>
      have hrest := ih (show rest[index]? = some old by simpa using h)
      simp only [set_cons_succ, map_cons, sum_cons]
      omega

theorem sum_map_dropLast (items : List β) :
    (items.dropLast.map weigh).sum + items.getLast?.elim 0 weigh = (items.map weigh).sum := by
  obtain rfl | ⟨rest, last, rfl⟩ := eq_nil_or_concat items
  · rfl
  · simp

/-! ## Counted bytes -/

theorem satAdd_le (a b : Nat) : satAdd a b ≤ usizeMax := min_le_right _ _

theorem satAdd_zero {a : Nat} (h : a ≤ usizeMax) : satAdd a 0 = a := min_eq_left h

theorem foldl_satAdd (items : List β) {total : Nat} (h : total ≤ usizeMax) :
    items.foldl (fun sum item => satAdd sum (weigh item)) total =
      min (total + (items.map weigh).sum) usizeMax := by
  induction items generalizing total with
  | nil => simp [h]
  | cons item rest ih =>
    rw [foldl_cons, ih (satAdd_le _ _), map_cons, sum_cons]
    unfold satAdd
    omega

/-- The bytes of a node before they saturate. -/
def nodeBytes : HeapNode ι δ → Nat
  | .array items => nodeOverheadBytes + (items.map estimateArrayItemBytes).sum
  | .object fields => nodeOverheadBytes + fields.weight estimateObjectFieldBytes
  | .map entries => nodeOverheadBytes + entries.weight estimateMapEntryBytes
  | node => estimateHeapNodeBytes node

theorem estimateHeapNodeBytes_eq (node : HeapNode ι δ) :
    estimateHeapNodeBytes node = min (nodeBytes node) usizeMax := by
  have hoverhead : nodeOverheadBytes ≤ usizeMax := by decide
  cases node with
  | array items => rfl
  | object fields | map entries => exact foldl_satAdd _ _ hoverhead
  | bytes bytes | exception exception => exact (min_eq_left (satAdd_le _ _)).symm
  | interface value =>
    refine (min_eq_left ?_).symm
    obtain ⟨name, carrier⟩ := value
    cases carrier <;> exact satAdd_le _ _

/-! ## Edits -/

/-- The identities of a slot have the shape of its node: one for each item, field or key.
A local carrier cell has one identity and at most one value. -/
def HeapSlot.LayoutFits (slot : HeapSlot ι δ) : Prop :=
  match slot.node, slot.carriers with
  | .array items, .array identities => identities.length = items.length
  | .array items, .localCarrierCell _ => items.length ≤ 1
  | .array _, _ => False
  | .object fields, .object identities => ∀ key, identities.contains key = fields.contains key
  | .object _, _ => False
  | .map entries, .map identities => ∀ key, identities.contains key = entries.contains key
  | .map _, _ => False
  | _, _ => True

/-- An edited slot: `added` are the values its node may have gained, `oldBytes` and
`newBytes` what its node lost and gained. -/
structure HeapSlot.Edited (slot slot' : HeapSlot ι δ) (added : List RuntimeValue)
    (oldBytes newBytes : Nat) : Prop where
  generation : slot'.generation = slot.generation
  values : ∀ value ∈ childValues slot'.node, value ∈ childValues slot.node ∨ value ∈ added
  held : oldBytes ≤ nodeBytes slot.node
  bytes : nodeBytes slot'.node + oldBytes = nodeBytes slot.node + newBytes
  layout : slot.LayoutFits → slot'.LayoutFits
  estimated : slot.estimatedBytes ≤ usizeMax →
    slot'.estimatedBytes = satAdd (slot.estimatedBytes - oldBytes) newBytes

variable {oldBytes newBytes : Nat}

namespace RequestHeap

/-- One slot of the heap is edited, and the total is kept up. -/
structure Edit (heap heap' : RequestHeap ι δ) (handle : HeapHandle) (added : List RuntimeValue)
    (slot slot' : HeapSlot ι δ) (oldBytes newBytes : Nat) : Prop where
  found : heap.slot handle = .ok slot
  edited : slot.Edited slot' added oldBytes newBytes
  total : heap.stats.estimatedBytes ≤ usizeMax →
    heap'.stats.estimatedBytes = satAdd (heap.stats.estimatedBytes - oldBytes) newBytes
  fits : newBytes ≠ 0 →
    satAdd (heap.stats.estimatedBytes - oldBytes) newBytes ≤ heap.limits.maxEstimatedBytes
  count : heap'.stats.nodeCount = heap.stats.nodeCount
  nodes : heap'.nodes = heap.nodes.set handle.index slot'
  limits : heap'.limits = heap.limits
  epoch : heap'.epoch = heap.epoch

/-- How a mutation can end. Only a layout that does not fit can make it panic. -/
inductive Outcome (heap : RequestHeap ι δ) (handle : HeapHandle) (added : List RuntimeValue) :
    Except Failure α → RequestHeap ι δ → Prop where
  | refused {failure} (reported :
      (∀ slot, heap.slot handle = .ok slot → slot.LayoutFits) → failure.Reported) :
      Outcome heap handle added (.error failure) heap
  | edited {result heap' slot slot' oldBytes newBytes}
      (checked : ∀ value ∈ added, heap.checkInsertWithoutCycle handle value = .ok ())
      (edit : Edit heap heap' handle added slot slot' oldBytes newBytes) :
      Outcome heap handle added (.ok result) heap'

section

variable {β : Type} {heap heap' : RequestHeap ι δ} {handle : HeapHandle} {slot slot' : HeapSlot ι δ}
variable {r : Except Failure β}

variable {change : HeapSlot ι δ → Except Failure (α × HeapSlot ι δ)} {next : α → Action ι δ β}

theorem slotMut_bind_cases (h : (slotMut handle change >>= next) heap = (r, heap')) :
    (∃ failure, r = .error failure ∧ heap' = heap ∧
      (heap.slot handle >>= change) = .error failure) ∨
      ∃ slot a slot', heap.slot handle = .ok slot ∧ change slot = .ok (a, slot') ∧
        next a (heap.setSlot handle slot') = (r, heap') := by
  obtain ⟨failure, rfl, hmut⟩ | ⟨a, middle, hmut, hnext⟩ := bind_cases h
  · unfold slotMut at hmut
    split at hmut
    · cases hmut
    case h_2 failure' hfailed =>
      cases hmut
      exact .inl ⟨_, rfl, rfl, hfailed⟩
  unfold slotMut at hmut
  split at hmut
  case h_1 result slot' hok =>
    cases hmut
    obtain ⟨slot, hslot, hchange⟩ := bind_eq_ok.mp hok
    exact .inr ⟨slot, _, _, hslot, hchange, hnext⟩
  · cases hmut

/-- When the change of the slot is known to succeed, the rest runs on the changed heap. -/
theorem slotMut_bind_eq {a : α} (hslot : heap.slot handle = .ok slot)
    (hchange : change slot = .ok (a, slot')) :
    (slotMut handle change >>= next) heap = next a (heap.setSlot handle slot') := by
  have hmut : slotMut handle change heap = (.ok a, heap.setSlot handle slot') := by
    simp only [slotMut, hslot, bind, Except.bind, hchange]
  change Mut.bind (slotMut handle change) next heap = _
  rw [Mut.bind, hmut]

theorem slot_setSlot (h : heap.slot handle = .ok slot)
    (hgeneration : slot'.generation = slot.generation) :
    (heap.setSlot handle slot').slot handle = .ok slot' := by
  obtain ⟨hepoch, -, hsame⟩ := slot_eq_ok.mp h
  refine slot_eq_ok.mpr ⟨hepoch, ?_, hgeneration.trans hsame⟩
  exact getElem?_set_self (index_lt_of_slot h)

variable {failure : Failure}

theorem bytes_reported
    (h : heap.checkEstimatedBytesReplacement oldBytes newBytes = .error failure) :
    failure.Reported := by
  unfold checkEstimatedBytesReplacement at h
  split at h
  · cases h
    exact ⟨_, rfl⟩
  · cases h

theorem bytes_fit (h : heap.checkEstimatedBytesReplacement oldBytes newBytes = .ok ()) :
    satAdd (heap.stats.estimatedBytes - oldBytes) newBytes ≤ heap.limits.maxEstimatedBytes := by
  unfold checkEstimatedBytesReplacement at h
  split at h
  · cases h
  case isFalse hle => exact Nat.not_lt.mp hle

theorem releaseEstimatedBytes_eq (slot : HeapSlot ι δ) (bytes : Nat) :
    slot.releaseEstimatedBytes bytes =
      { slot with estimatedBytes := slot.estimatedBytes - bytes } := by
  unfold releaseEstimatedBytes
  split
  · rfl
  case isFalse hzero =>
    obtain rfl : bytes = 0 := by omega
    rfl

theorem releaseStatsEstimatedBytes_eq (bytes : Nat) (heap : RequestHeap ι δ) :
    heap.releaseStatsEstimatedBytes bytes =
      { heap with stats :=
        { heap.stats with estimatedBytes := heap.stats.estimatedBytes - bytes } } := by
  unfold releaseStatsEstimatedBytes
  split
  · rfl
  case isFalse hzero =>
    obtain rfl : bytes = 0 := by omega
    rfl

variable {mismatch : String} {items : List RuntimeValue}

theorem arrayItems_eq_ok : arrayItems mismatch slot = .ok items ↔ slot.node = .array items := by
  unfold arrayItems
  split
  case h_1 items' hnode => simp [hnode]
  case h_2 hother =>
    simp only [reduceCtorEq, false_iff]
    exact hother items

theorem arrayItems_reported (h : arrayItems mismatch slot = .error failure) : failure.Reported := by
  unfold arrayItems at h
  split at h
  · cases h
  cases h
  exact ⟨_, rfl⟩

/-- A read that looks up the slot and goes on from there. -/
theorem slot_bind_reported {f : HeapSlot ι δ → Except Failure β}
    (h : (heap.slot handle >>= f) = .error failure)
    (hf : ∀ slot, heap.slot handle = .ok slot → f slot = .error failure → failure.Reported) :
    failure.Reported := by
  cases hslot : heap.slot handle with
  | error failure' =>
    rw [hslot] at h
    cases h
    exact slot_reported hslot
  | ok slot =>
    rw [hslot] at h
    exact hf slot hslot h

/-! ### Arrays -/

theorem edited_push (hnode : slot.node = .array items) (carrier : RuntimeValueCarrier ι) :
    slot.Edited { slot with
        node := .array (items ++ [carrier.value])
        carriers := pushIdentity slot.carriers items.length carrier.catchIdentity
        estimatedBytes := satAdd slot.estimatedBytes (estimateArrayItemBytes carrier.value) }
      [carrier.value] 0 (estimateArrayItemBytes carrier.value) where
  generation := rfl
  values value hvalue := by
    rw [hnode]
    exact mem_append.mp hvalue
  held := Nat.zero_le _
  bytes := by
    simp [nodeBytes, hnode]
    omega
  layout hfits := by
    unfold LayoutFits at hfits ⊢
    rw [hnode] at hfits
    revert hfits
    cases slot.carriers <;> simp [pushIdentity, arrayIdentitySlots]
  estimated _ := rfl

variable {carrier : RuntimeValueCarrier ι} {r : Except Failure Unit}

theorem pushArrayItemCarrier_outcome (h : pushArrayItemCarrier handle carrier heap = (r, heap')) :
    Outcome heap handle [carrier.value] r heap' := by
  obtain ⟨failure, rfl, hfailed, rfl⟩ | ⟨⟨⟩, hcheck, h⟩ := read_cases h
  · exact .refused fun _ => check_reported hfailed
  obtain ⟨failure, rfl, hfailed, rfl⟩ | ⟨itemBytes, hread, h⟩ := read_cases h
  · refine .refused fun _ => slot_bind_reported hfailed fun slot _ hrest => ?_
    obtain hitems | ⟨_, _, hok⟩ := bind_eq_error.mp hrest
    · exact arrayItems_reported hitems
    · cases hok
  obtain ⟨slot, hslot, hread⟩ := bind_eq_ok.mp hread
  obtain ⟨items, hitems, hbytes⟩ := bind_eq_ok.mp hread
  cases hbytes
  have hnode := arrayItems_eq_ok.mp hitems
  obtain ⟨failure, rfl, hfailed, rfl⟩ | ⟨⟨⟩, hfits, h⟩ := read_cases h
  · exact .refused fun _ => bytes_reported hfailed
  rw [slotMut_bind_eq hslot (by rw [hitems]; rfl)] at h
  cases h
  exact .edited (by simpa using hcheck)
    ⟨hslot, edited_push hnode carrier, fun _ => rfl, fun _ => bytes_fit hfits, rfl, rfl, rfl, rfl⟩

variable {carriers : HeapCarrierLayout ι} {index : Nat}

theorem setIdentity_fits {value : RuntimeValue} {identity : Option ι}
    (hnode : slot.node = .array items)
    (hset : setIdentity slot.carriers items.length index identity = .ok carriers)
    (hfits : slot.LayoutFits) (bytes : Nat) :
    (⟨slot.generation, bytes, .array (items.set index value), carriers⟩ :
      HeapSlot ι δ).LayoutFits := by
  unfold LayoutFits at hfits ⊢
  rw [hnode] at hfits
  unfold setIdentity at hset
  split at hset
  case h_1 identities hcarriers =>
    rw [hcarriers] at hfits
    split at hset
    · cases hset
      simpa using hfits
    · cases hset
  case h_2 =>
    cases hset
    simp [arrayIdentitySlots]

theorem edited_set {old : RuntimeValue} (hnode : slot.node = .array items)
    (hold : items[index]? = some old)
    (hset : setIdentity slot.carriers items.length index carrier.catchIdentity = .ok carriers) :
    slot.Edited ({ slot with
        node := .array (items.set index carrier.value)
        carriers := carriers }.applyEstimatedBytesReplacement (estimateArrayItemBytes old)
          (estimateArrayItemBytes carrier.value))
      [carrier.value] (estimateArrayItemBytes old) (estimateArrayItemBytes carrier.value) where
  generation := rfl
  values value hvalue := by
    rw [hnode]
    obtain hmem | rfl := mem_or_eq_of_mem_set hvalue
    · exact .inl hmem
    · exact .inr (.head _)
  held := by
    rw [hnode]
    have hmem := mem_map_of_mem (f := estimateArrayItemBytes) (mem_of_getElem? hold)
    exact (le_sum_of_mem hmem).trans (Nat.le_add_left _ _)
  bytes := by
    have hsum := sum_map_set estimateArrayItemBytes carrier.value hold
    simp only [nodeBytes, hnode, applyEstimatedBytesReplacement]
    omega
  layout hfits := setIdentity_fits hnode hset hfits _
  estimated _ := rfl

/-- Only an identity list that is too short makes the write of an identity panic. -/
theorem setIdentity_ok (identity : Option ι)
    (hnode : slot.node = .array items) (hfits : slot.LayoutFits) (hindex : index < items.length) :
    ∃ carriers, setIdentity slot.carriers items.length index identity = .ok carriers := by
  unfold LayoutFits at hfits
  rw [hnode] at hfits
  cases hcarriers : slot.carriers with
  | array identities =>
    rw [hcarriers] at hfits
    have hlen : index < identities.length := hfits ▸ hindex
    exact ⟨_, if_pos hlen⟩
  | none | object _ | map _ | interface _ | localCarrierCell _ => exact ⟨_, rfl⟩

theorem setArrayItemCarrier_outcome
    (h : setArrayItemCarrier handle index carrier heap = (r, heap')) :
    Outcome heap handle [carrier.value] r heap' := by
  obtain ⟨failure, rfl, hfailed, rfl⟩ | ⟨⟨⟩, hcheck, h⟩ := read_cases h
  · exact .refused fun _ => check_reported hfailed
  obtain ⟨failure, rfl, hfailed, rfl⟩ | ⟨oldBytes, hread, h⟩ := read_cases h
  · refine .refused fun _ => slot_bind_reported hfailed fun slot _ hrest => ?_
    obtain hitems | ⟨items, _, hrest⟩ := bind_eq_error.mp hrest
    · exact arrayItems_reported hitems
    split at hrest
    · cases hrest
      exact ⟨_, rfl⟩
    · cases hrest
  obtain ⟨slot, hslot, hread⟩ := bind_eq_ok.mp hread
  obtain ⟨items, hitems, hread⟩ := bind_eq_ok.mp hread
  have hnode := arrayItems_eq_ok.mp hitems
  cases hold : items[index]? with
  | none => simp [hold] at hread
  | some old =>
    obtain rfl : estimateArrayItemBytes old = oldBytes := by simpa [hold] using hread
    obtain ⟨failure, rfl, hfailed, rfl⟩ | ⟨⟨⟩, hfits, h⟩ := read_cases h
    · exact .refused fun _ => bytes_reported hfailed
    cases hset : setIdentity slot.carriers items.length index carrier.catchIdentity with
    | error failure' =>
      obtain ⟨failure, rfl, rfl, -⟩ | ⟨slot', _, _, hslot', hchange, -⟩ := slotMut_bind_cases h
      · refine .refused fun hlayout => ?_
        obtain ⟨carriers, hok⟩ := setIdentity_ok carrier.catchIdentity hnode (hlayout slot hslot)
          (List.getElem?_eq_some_iff.mp hold).1
        rw [hset] at hok
        cases hok
      obtain rfl := ok.inj (hslot.symm.trans hslot')
      obtain ⟨_, hitems', hchange⟩ := bind_eq_ok.mp hchange
      obtain rfl := ok.inj (hitems.symm.trans hitems')
      obtain ⟨carriers, hok, -⟩ := bind_eq_ok.mp hchange
      rw [hset] at hok
      cases hok
    | ok carriers =>
      rw [slotMut_bind_eq hslot (by rw [hitems]; simp only [bind, Except.bind, hset]; rfl)] at h
      cases h
      exact .edited (by simpa using hcheck)
        ⟨hslot, edited_set hnode hold hset, fun _ => rfl, fun _ =>
          bytes_fit hfits, rfl, rfl, rfl, rfl⟩

theorem edited_pop (hnode : slot.node = .array items) :
    slot.Edited ({ slot with
        node := .array items.dropLast
        carriers := (popIdentity slot.carriers).2 }.releaseEstimatedBytes
          (items.getLast?.elim 0 estimateArrayItemBytes))
      [] (items.getLast?.elim 0 estimateArrayItemBytes) 0 := by
  have hsum := sum_map_dropLast estimateArrayItemBytes items
  rw [releaseEstimatedBytes_eq]
  constructor
  · rfl
  · intro value hvalue
    rw [hnode]
    exact .inl (dropLast_subset items hvalue)
  · rw [hnode]
    change _ ≤ nodeOverheadBytes + _
    omega
  · rw [hnode]
    change nodeOverheadBytes + _ + _ = nodeOverheadBytes + _ + 0
    omega
  · intro hfits
    unfold LayoutFits at hfits ⊢
    rw [hnode] at hfits
    revert hfits
    cases slot.carriers <;> simp [popIdentity]
    all_goals
      intro hlen
      omega
  intro hle
  exact (satAdd_zero ((Nat.sub_le _ _).trans hle)).symm

theorem popArrayItemCarrier_outcome {r : Except Failure (RuntimeValueCarrier ι)}
    (h : popArrayItemCarrier handle heap = (r, heap')) : Outcome heap handle [] r heap' := by
  obtain ⟨failure, rfl, hfailed, rfl⟩ | ⟨poppedBytes, hread, h⟩ := read_cases h
  · refine .refused fun _ => slot_bind_reported hfailed fun slot _ hrest => ?_
    obtain hitems | ⟨_, _, hok⟩ := bind_eq_error.mp hrest
    · exact arrayItems_reported hitems
    · cases hok
  obtain ⟨slot, hslot, hread⟩ := bind_eq_ok.mp hread
  obtain ⟨items, hitems, hbytes⟩ := bind_eq_ok.mp hread
  cases hbytes
  have hnode := arrayItems_eq_ok.mp hitems
  rw [slotMut_bind_eq hslot (by rw [hitems]; rfl), modify_bind] at h
  cases h
  rw [releaseStatsEstimatedBytes_eq]
  exact .edited (by simp)
    ⟨hslot, edited_pop hnode, fun hle => (satAdd_zero ((Nat.sub_le _ _).trans hle)).symm,
      fun h => absurd rfl h, rfl, rfl, rfl, rfl⟩

/-! ### Objects and maps -/

variable {kind : EntryKind} {entries : OrdMap String RuntimeValue} {key : String}

theorem nodeEntries_eq_ok (h : nodeEntries mismatch slot = .ok (kind, entries)) :
    slot.node = kind.node entries := by
  unfold nodeEntries at h
  split at h
  case h_1 fields hnode | h_2 entries' hnode =>
    cases h
    exact hnode
  · cases h

theorem nodeEntries_reported (h : nodeEntries mismatch slot = .error failure) :
    failure.Reported := by
  unfold nodeEntries at h
  split at h
  · cases h
  · cases h
  cases h
  exact ⟨_, rfl⟩

theorem entriesOf_eq_ok (hnode : slot.node = kind.node entries) :
    entriesOf mismatch kind slot = .ok entries := by
  unfold entriesOf
  rw [hnode]
  cases kind <;> rfl

@[simp] theorem childValues_node :
    childValues (kind.node entries : HeapNode ι δ) = entries.values := by
  cases kind <;> rfl

@[simp] theorem nodeBytes_node :
    nodeBytes (kind.node entries : HeapNode ι δ) = nodeOverheadBytes +
      entries.weight kind.estimate := by
  cases kind <;> rfl

/-- The identities of a slot that holds entries. -/
def EntryKind.layout : EntryKind → OrdMap String (Option ι) → HeapCarrierLayout ι
  | .object => .object
  | .map => .map

theorem layoutFits_node (hnode : slot.node = kind.node entries) :
    slot.LayoutFits ↔ ∃ identities, slot.carriers = kind.layout identities ∧
      ∀ key, identities.contains key = entries.contains key := by
  unfold LayoutFits
  rw [hnode]
  cases kind <;> cases slot.carriers <;> simp [EntryKind.node, EntryKind.layout]

variable (identities : OrdMap String (Option ι))

theorem insertIdentity_layout (identity : Option ι) :
    insertIdentity kind (kind.layout identities) key identity =
      kind.layout (identities.insert key identity) := by
  cases kind <;> rfl

theorem eraseIdentity_layout :
    eraseIdentity kind (kind.layout identities) key = kind.layout (identities.erase key) := by
  cases kind <;> rfl

theorem edited_insert (hnode : slot.node = kind.node entries) (carrier : RuntimeValueCarrier ι) :
    slot.Edited { ({ slot with
          node := kind.node (entries.insert key carrier.value) }.applyEstimatedBytesReplacement
            (entries.weightAt kind.estimate key) (kind.estimate key carrier.value) :
            HeapSlot ι δ) with
        carriers := insertIdentity kind slot.carriers key carrier.catchIdentity }
      [carrier.value] (entries.weightAt kind.estimate key) (kind.estimate key carrier.value) where
  generation := rfl
  values value hvalue := by
    rw [hnode, childValues_node]
    change value ∈ childValues (kind.node _ : HeapNode ι δ) at hvalue
    rw [childValues_node, mem_values_iff] at hvalue
    obtain ⟨other, hother⟩ := hvalue
    obtain ⟨-, rfl⟩ | ⟨-, hother⟩ := get?_insert_eq_some.mp hother
    · exact .inr (.head _)
    · exact .inl (mem_values_iff.mpr ⟨other, hother⟩)
  held := by
    have hweight := entries.weight_erase kind.estimate key
    rw [hnode, nodeBytes_node]
    omega
  bytes := by
    have hweight := entries.weight_insert kind.estimate key carrier.value
    rw [hnode, nodeBytes_node]
    change nodeBytes (kind.node _ : HeapNode ι δ) + _ = _
    rw [nodeBytes_node]
    omega
  layout hfits := by
    obtain ⟨identities, hcarriers, hkeys⟩ := (layoutFits_node hnode).mp hfits
    refine (layoutFits_node (show _ = kind.node (entries.insert key carrier.value) from rfl)).mpr
      ⟨identities.insert key carrier.catchIdentity, ?_, fun other => ?_⟩
    · change insertIdentity kind slot.carriers key carrier.catchIdentity = _
      rw [hcarriers, insertIdentity_layout]
    have hother := hkeys other
    simp only [OrdMap.contains, OrdMap.get?_insert] at hother ⊢
    split
    · rfl
    · exact hother
  estimated _ := rfl

theorem setEntryCarrier_outcome
    {r : Except Failure Bool} (h : setEntryCarrier mismatch handle key carrier heap = (r, heap')) :
    Outcome heap handle [carrier.value] r heap' := by
  obtain ⟨failure, rfl, hfailed, rfl⟩ | ⟨⟨⟩, hcheck, h⟩ := read_cases h
  · exact .refused fun _ => check_reported hfailed
  obtain ⟨failure, rfl, hfailed, rfl⟩ | ⟨⟨kind, entries⟩, hread, h⟩ := read_cases h
  · exact .refused fun _ => slot_bind_reported hfailed fun slot _ => nodeEntries_reported
  obtain ⟨slot, hslot, hentries⟩ := bind_eq_ok.mp hread
  have hnode := nodeEntries_eq_ok hentries
  obtain ⟨failure, rfl, hset⟩ | ⟨existed, middle, hset, h⟩ := bind_cases h
  · obtain ⟨failure', heq, hfailed, rfl⟩ | ⟨⟨⟩, -, hset⟩ := read_cases hset
    · cases heq
      exact .refused fun _ => bytes_reported hfailed
    rw [slotMut_bind_eq hslot (by rw [entriesOf_eq_ok hnode]; rfl)] at hset
    cases hset
  obtain ⟨failure, hcontra, -⟩ | ⟨⟨⟩, hfits, hset⟩ := read_cases hset
  · cases hcontra
  rw [slotMut_bind_eq hslot (by rw [entriesOf_eq_ok hnode]; rfl)] at hset
  cases hset
  -- The identity is written through a second look at the slot just changed.
  have hslot' : (applyStatsEstimatedBytesReplacement (entries.weightAt kind.estimate key)
      (kind.estimate key carrier.value) (heap.setSlot handle ({ slot with
        node := kind.node (entries.insert key carrier.value) }.applyEstimatedBytesReplacement
          (entries.weightAt kind.estimate key) (kind.estimate key carrier.value)))).slot handle =
            .ok _ :=
    slot_setSlot hslot rfl
  change (slotMut handle _ >>= _) _ = _ at h
  rw [slotMut_bind_eq hslot' rfl] at h
  cases h
  exact .edited (by simpa using hcheck)
    ⟨hslot, edited_insert hnode carrier, fun _ => rfl, fun _ => bytes_fit hfits, rfl,
      set_set _, rfl, rfl⟩

theorem edited_erase (hnode : slot.node = kind.node entries) :
    slot.Edited ({ slot with
        node := kind.node (entries.erase key)
        carriers := eraseIdentity kind slot.carriers key }.releaseEstimatedBytes
          (entries.weightAt kind.estimate key))
      [] (entries.weightAt kind.estimate key) 0 := by
  have hweight := entries.weight_erase kind.estimate key
  rw [releaseEstimatedBytes_eq]
  constructor
  · rfl
  · intro value hvalue
    rw [hnode, childValues_node]
    change value ∈ childValues (kind.node _ : HeapNode ι δ) at hvalue
    rw [childValues_node, mem_values_iff] at hvalue
    obtain ⟨other, hother⟩ := hvalue
    obtain ⟨-, hother⟩ := get?_erase_eq_some.mp hother
    exact .inl (mem_values_iff.mpr ⟨other, hother⟩)
  · rw [hnode, nodeBytes_node]
    omega
  · rw [hnode, nodeBytes_node, nodeBytes_node]
    omega
  · intro hfits
    obtain ⟨identities, hcarriers, hkeys⟩ := (layoutFits_node hnode).mp hfits
    refine (layoutFits_node rfl).mpr ⟨identities.erase key, ?_, fun other => ?_⟩
    · change eraseIdentity kind slot.carriers key = _
      rw [hcarriers, eraseIdentity_layout]
    have hother := hkeys other
    simp only [OrdMap.contains, OrdMap.get?_erase] at hother ⊢
    split
    · rfl
    · exact hother
  intro hle
  exact (satAdd_zero ((Nat.sub_le _ _).trans hle)).symm

theorem deleteEntry_outcome {r : Except Failure Bool}
    (h : deleteEntry handle key heap = (r, heap')) :
    Outcome heap handle [] r heap' := by
  obtain ⟨failure, rfl, hfailed, rfl⟩ | ⟨⟨kind, entries⟩, hread, h⟩ := read_cases h
  · exact .refused fun _ => slot_bind_reported hfailed fun slot _ => nodeEntries_reported
  obtain ⟨slot, hslot, hentries⟩ := bind_eq_ok.mp hread
  have hnode := nodeEntries_eq_ok hentries
  change (slotMut handle _ >>= _) heap = _ at h
  rw [slotMut_bind_eq hslot (by rw [entriesOf_eq_ok hnode]; rfl), modify_bind] at h
  cases h
  rw [releaseStatsEstimatedBytes_eq]
  exact .edited (by simp)
    ⟨hslot, edited_erase hnode, fun hle => (satAdd_zero ((Nat.sub_le _ _).trans hle)).symm,
      fun h => absurd rfl h, rfl, rfl, rfl, rfl⟩

/-! ## Calls -/

theorem Outcome.discard {m : Action ι δ α} {added : List RuntimeValue}
    (hm : ∀ r heap', m heap = (r, heap') → Outcome heap handle added r heap')
    (h : (m >>= fun _ => pure ()) heap = (r, heap')) : Outcome heap handle added r heap' := by
  obtain ⟨failure, rfl, hfailed⟩ | ⟨a, middle, hdone, hrest⟩ := bind_cases h
  · cases hm _ _ hfailed with
    | refused reported => exact .refused reported
  cases hrest
  cases hm _ _ hdone with
  | edited checked edit => exact .edited checked edit

theorem allocNodeWithCarriers_cases {node : HeapNode ι δ}
    {r : Except Failure HeapHandle} (h : allocNodeWithCarriers node carriers heap = (r, heap')) :
    (∃ failure, r = .error failure ∧ failure.Reported ∧ heap' = heap) ∨
      (r = .ok ⟨heap.nodes.length, initialGeneration, heap.epoch⟩ ∧
        heap' = heap.pushSlot node carriers ∧
        heap.nodes.length < u32Max ∧ satAdd heap.stats.nodeCount 1 ≤ heap.limits.maxNodes ∧
        satAdd heap.stats.estimatedBytes
          (estimateHeapNodeBytes node) ≤ heap.limits.maxEstimatedBytes) := by
  obtain ⟨failure, rfl, hfailed, rfl⟩ | ⟨⟨⟩, hcount, h⟩ := read_cases h
  · unfold checkNodeLimit at hfailed
    split at hfailed
    · exact .inl ⟨failure, rfl, ⟨_, (error.inj hfailed).symm⟩, rfl⟩
    · cases hfailed
  obtain ⟨failure, rfl, hfailed, rfl⟩ | ⟨⟨⟩, hbytes, h⟩ := read_cases h
  · unfold checkEstimatedBytesLimit at hfailed
    split at hfailed
    · exact .inl ⟨failure, rfl, ⟨_, (error.inj hfailed).symm⟩, rfl⟩
    · cases hfailed
  obtain ⟨failure, rfl, hfailed, rfl⟩ | ⟨⟨⟩, hspace, h⟩ := read_cases h
  · unfold checkIndexSpace at hfailed
    split at hfailed
    · exact .inl ⟨failure, rfl, ⟨_, (error.inj hfailed).symm⟩, rfl⟩
    · cases hfailed
  cases h
  refine .inr ⟨rfl, rfl, ?_, ?_, ?_⟩
  · unfold checkIndexSpace at hspace
    split at hspace
    · cases hspace
    case isFalse hle => exact Nat.not_le.mp hle
  · unfold checkNodeLimit at hcount
    split at hcount
    · cases hcount
    case isFalse hle => exact Nat.not_lt.mp hle
  unfold checkEstimatedBytesLimit at hbytes
  split at hbytes
  · cases hbytes
  case isFalse hle => exact Nat.not_lt.mp hle

end

end RequestHeap

/-! ## Generations -/

/-- The generation of the slot at an index. -/
def generationAt (nodes : List (HeapSlot ι δ)) (index : Nat) : Option Nat :=
  nodes[index]?.map (·.generation)

theorem generationAt_append {nodes rest : List (HeapSlot ι δ)} (h : index < nodes.length) :
    generationAt (nodes ++ rest) index = generationAt nodes index := by
  rw [generationAt, getElem?_append_left h, generationAt]

variable {nodes : List (HeapSlot ι δ)}

theorem generationAt_eq_none (h : nodes.length ≤ index) : generationAt nodes index = none := by
  rw [generationAt, getElem?_eq_none h]
  rfl

theorem lt_of_generationAt {index generation : Nat}
    (h : generationAt nodes index = some generation) : index < nodes.length := by
  by_contra hle
  rw [generationAt_eq_none (Nat.not_lt.mp hle)] at h
  cases h

theorem exists_generationAt (h : index < nodes.length) :
    ∃ generation, generationAt nodes index = some generation :=
  ⟨_, by rw [generationAt, getElem?_eq_getElem h]; rfl⟩

namespace RequestHeap

variable {heap : RequestHeap ι δ} {handle : HeapHandle}

theorem resolves_iff : heap.Resolves handle ↔
    handle.epoch = heap.epoch ∧ generationAt heap.nodes handle.index = some handle.generation := by
  simp only [Resolves, slot_eq_ok, generationAt, Option.map_eq_some_iff]
  constructor
  · rintro ⟨slot, hepoch, hnode, hgeneration⟩
    exact ⟨hepoch, slot, hnode, hgeneration⟩
  rintro ⟨hepoch, slot, hnode, hgeneration⟩
  exact ⟨slot, hepoch, hnode, hgeneration⟩

variable {heap' : RequestHeap ι δ} {slot slot' : HeapSlot ι δ}

theorem Edit.generationAt {added : List RuntimeValue}
    (edit : Edit heap heap' handle added slot slot' oldBytes newBytes) (index : Nat) :
    Heap.generationAt heap'.nodes index = Heap.generationAt heap.nodes index := by
  obtain ⟨-, hnode, -⟩ := slot_eq_ok.mp edit.found
  simp only [Heap.generationAt, edit.nodes, getElem?_set]
  split
  case isTrue heq =>
    subst heq
    rw [if_pos (index_lt_of_slot edit.found), hnode]
    exact congrArg some edit.edited.generation
  · rfl

theorem Edit.resolves_iff {other : HeapHandle} {added : List RuntimeValue}
    (edit : Edit heap heap' handle added slot slot' oldBytes newBytes) :
    heap'.Resolves other ↔ heap.Resolves other := by
  rw [RequestHeap.resolves_iff, RequestHeap.resolves_iff, edit.generationAt, edit.epoch]

end RequestHeap

open RequestHeap

/-- The allocations of the heap. -/
inductive Allocation (ι δ : Type) where
  | array (items : List RuntimeValue)
  | arrayCarriers (items : List (RuntimeValueCarrier ι))
  | localCarrierCell (carrier : RuntimeValueCarrier ι)
  | bytes (bytes : List UInt8)
  | object (fields : OrdMap String RuntimeValue)
  | objectCarriers (fields : OrdMap String (RuntimeValueCarrier ι))
  | map (entries : OrdMap String RuntimeValue)
  | mapCarriers (entries : OrdMap String (RuntimeValueCarrier ι))
  | interface (value : InterfaceValue)
  | interfaceWithLocalPayloadIdentity (value : InterfaceValue) (identity : Option ι)
  | exception (exception : RequestException ι δ)

namespace Allocation

def apply : Allocation ι δ → Action ι δ HeapHandle
  | .array items => allocArray items
  | .arrayCarriers items => allocArrayCarriers items
  | .localCarrierCell carrier => allocLocalCarrierCell carrier
  | .bytes content => allocBytes content
  | .object fields => allocObject fields
  | .objectCarriers fields => allocObjectCarriers fields
  | .map entries => allocMap entries
  | .mapCarriers entries => allocMapCarriers entries
  | .interface value => allocInterface value
  | .interfaceWithLocalPayloadIdentity value identity =>
    allocInterfaceWithLocalPayloadIdentity value identity
  | .exception thrown => allocException thrown

/-- The node that is allocated. -/
def node : Allocation ι δ → HeapNode ι δ
  | .array items => .array items
  | .arrayCarriers items => .array (items.map (·.value))
  | .localCarrierCell carrier => .array [carrier.value]
  | .bytes content => .bytes content
  | .object fields => .object fields
  | .objectCarriers fields => .object (fields.map (·.value))
  | .map entries => .map entries
  | .mapCarriers entries => .map (entries.map (·.value))
  | .interface value => .interface value
  | .interfaceWithLocalPayloadIdentity value _ => .interface value
  | .exception thrown => .exception thrown

/-- The identities it is allocated with. -/
def carriers : Allocation ι δ → HeapCarrierLayout ι
  | .arrayCarriers items => .array (items.map (·.catchIdentity))
  | .localCarrierCell carrier => .localCarrierCell carrier.catchIdentity
  | .objectCarriers fields => .object (fields.map (·.catchIdentity))
  | .mapCarriers entries => .map (entries.map (·.catchIdentity))
  | .interfaceWithLocalPayloadIdentity _ identity => .interface identity
  | allocation => .forNode allocation.node

variable (allocation : Allocation ι δ)

theorem apply_eq :
    allocation.apply = allocNodeWithCarriers allocation.node allocation.carriers := by
  cases allocation <;> rfl

theorem layoutFits (generation bytes : Nat) :
    (⟨generation, bytes, allocation.node, allocation.carriers⟩ : HeapSlot ι δ).LayoutFits := by
  cases allocation <;>
    simp [LayoutFits, node, carriers, HeapCarrierLayout.forNode, arrayIdentitySlots,
      OrdMap.contains, OrdMap.get?_map]

end Allocation

/-- The changes in place of the heap. -/
inductive Mutation (ι : Type) where
  | pushArrayItem (handle : HeapHandle) (carrier : RuntimeValueCarrier ι)
  | setArrayItem (handle : HeapHandle) (index : Nat) (carrier : RuntimeValueCarrier ι)
  | popArrayItem (handle : HeapHandle)
  | setMapEntry (handle : HeapHandle) (key : String) (carrier : RuntimeValueCarrier ι)
  | deleteMapEntry (handle : HeapHandle) (key : String)
  | setObjectField (handle : HeapHandle) (field : String) (carrier : RuntimeValueCarrier ι)
  | deleteObjectField (handle : HeapHandle) (field : String)

namespace Mutation

/-- Run a mutation for its effect. -/
def apply : Mutation ι → Action ι δ Unit
  | pushArrayItem handle carrier => pushArrayItemCarrier handle carrier
  | setArrayItem handle index carrier => setArrayItemCarrier handle index carrier
  | popArrayItem handle => do
    let _ ← popArrayItemCarrier handle
    pure ()
  | setMapEntry handle key carrier => do
    let _ ← setMapEntryCarrier handle key carrier
    pure ()
  | deleteMapEntry handle key => do
    let _ ← RequestHeap.deleteMapEntry handle key
    pure ()
  | setObjectField handle field carrier => do
    let _ ← setObjectFieldCarrier handle field carrier
    pure ()
  | deleteObjectField handle field => do
    let _ ← RequestHeap.deleteObjectField handle field
    pure ()

def target : Mutation ι → HeapHandle
  | pushArrayItem handle _ => handle
  | setArrayItem handle _ _ => handle
  | popArrayItem handle => handle
  | setMapEntry handle _ _ => handle
  | deleteMapEntry handle _ => handle
  | setObjectField handle _ _ => handle
  | deleteObjectField handle _ => handle

def added : Mutation ι → List RuntimeValue
  | pushArrayItem _ carrier => [carrier.value]
  | setArrayItem _ _ carrier => [carrier.value]
  | popArrayItem _ => []
  | setMapEntry _ _ carrier => [carrier.value]
  | deleteMapEntry _ _ => []
  | setObjectField _ _ carrier => [carrier.value]
  | deleteObjectField _ _ => []

theorem outcome {mutation : Mutation ι} {heap heap' : RequestHeap ι δ} {r : Except Failure Unit}
    (h : mutation.apply heap = (r, heap')) :
    Outcome heap mutation.target mutation.added r heap' := by
  cases mutation with
  | pushArrayItem handle carrier => exact pushArrayItemCarrier_outcome h
  | setArrayItem handle index carrier => exact setArrayItemCarrier_outcome h
  | popArrayItem handle => exact .discard (fun _ _ => popArrayItemCarrier_outcome) h
  | setMapEntry handle key carrier | setObjectField handle field carrier =>
    exact .discard (fun _ _ => setEntryCarrier_outcome) h
  | deleteMapEntry handle key | deleteObjectField handle field =>
    exact .discard (fun _ _ => deleteEntry_outcome) h

end Mutation

end Skiff.Heap
