import Skiff.Heap.RebaseGraph

/-!
# The request heap stays acyclic and accounted

`Accounted` is what every state of a request heap satisfies: no cycle of handles, no dangling
one, exact byte counts for each slot and for the heap, both within the limits, and identities
in the shape of each node. Edits, allocations, rebases and counters keep it.
-/

namespace Skiff.Heap

open Relation
open Skiff.Runtime (HeapHandle RuntimeValue RuntimeError)
open RollbackRebaseBuilder List HeapSlot

variable {ι δ : Type}

/-- The bytes that the slots count. -/
def slotBytes (nodes : List (HeapSlot ι δ)) : Nat := (nodes.map estimatedBytes).sum

/-- The saturating count of the source. -/
theorem foldl_slotBytes (nodes : List (HeapSlot ι δ)) :
    nodes.foldl (fun total slot => satAdd total slot.estimatedBytes) 0 =
      min (slotBytes nodes) usizeMax := by
  rw [foldl_satAdd _ _ (Nat.zero_le _), Nat.zero_add]
  rfl

namespace RequestHeap

structure Accounted (heap : RequestHeap ι δ) : Prop where
  acyclic : Acyclic heap.Edge
  closed : ∀ handle child, heap.Edge handle child → heap.Resolves child
  estimated : ∀ slot ∈ heap.nodes, slot.estimatedBytes = estimateHeapNodeBytes slot.node
  layout : ∀ slot ∈ heap.nodes, slot.LayoutFits
  count : heap.stats.nodeCount = heap.nodes.length
  total : heap.stats.estimatedBytes = slotBytes heap.nodes
  countFits : heap.stats.nodeCount ≤ heap.limits.maxNodes
  totalFits : heap.stats.estimatedBytes ≤ heap.limits.maxEstimatedBytes

variable {heap heap' : RequestHeap ι δ} {handle : HeapHandle} {slot : HeapSlot ι δ}

theorem mem_nodes_of_slot (h : heap.slot handle = .ok slot) : slot ∈ heap.nodes := by
  obtain ⟨-, hnode, -⟩ := slot_eq_ok.mp h
  exact mem_of_getElem? hnode

theorem accounted_new (epoch : Nat) (limits : RequestHeapLimits) :
    (newWithEpoch epoch limits : RequestHeap ι δ).Accounted := by
  have hedge : ∀ a b, ¬ (newWithEpoch epoch limits : RequestHeap ι δ).Edge a b := by
    rintro a b ⟨slot, hslot, -⟩
    exact absurd (mem_nodes_of_slot hslot) not_mem_nil
  refine ⟨fun a hcycle => ?_, fun a b h =>
    absurd h (hedge a b), by simp [newWithEpoch], by simp [newWithEpoch],
    rfl, rfl, Nat.zero_le _, Nat.zero_le _⟩
  obtain ⟨b, h, -⟩ := TransGen.head'_iff.mp hcycle
  exact hedge a b h

/-! ## Edits -/

variable {slot slot' : HeapSlot ι δ} {added : List RuntimeValue} {oldBytes newBytes : Nat}

/-- The edges after an edit are old ones, or lead from the edited node to a new value. -/
theorem Edit.edge_cases (edit : Edit heap heap' handle added slot slot' oldBytes newBytes)
    {a b : HeapHandle} (h : heap'.Edge a b) :
    heap.Edge a b ∨ (a = handle ∧ RuntimeValue.heap b ∈ added) := by
  obtain ⟨found, hfound, hchild⟩ := h
  obtain ⟨hepoch, hnode, hgeneration⟩ := slot_eq_ok.mp hfound
  rw [edit.nodes, getElem?_set] at hnode
  split at hnode
  case isTrue hindex =>
    rw [if_pos (index_lt_of_slot edit.found)] at hnode
    cases hnode
    obtain ⟨slot'', hslot''⟩ := edit.resolves_iff.mp ⟨_, hfound⟩
    obtain rfl := handle_ext hslot'' edit.found hindex.symm
    rw [mem_heapNodeChildHandles] at hchild
    obtain hold | hnew := edit.edited.values _ hchild
    · exact .inl ⟨slot, edit.found, mem_heapNodeChildHandles.mpr hold⟩
    · exact .inr ⟨rfl, hnew⟩
  case isFalse hindex =>
    refine .inl ⟨found, slot_eq_ok.mpr ⟨?_, hnode, hgeneration⟩, hchild⟩
    rw [hepoch, edit.epoch]

theorem estimatedBytes_le_slotBytes {nodes : List (HeapSlot ι δ)} (h : slot ∈ nodes) :
    slot.estimatedBytes ≤ slotBytes nodes :=
  le_sum_of_mem (mem_map_of_mem h)

/-- The arithmetic of an edit: nothing saturates below the limit. -/
theorem Accounted.edit_bytes (accounted : heap.Accounted)
    (hmax : heap.limits.maxEstimatedBytes < usizeMax)
    (edit : Edit heap heap' handle added slot slot' oldBytes newBytes) :
    slot'.estimatedBytes = estimateHeapNodeBytes slot'.node ∧
      heap'.stats.estimatedBytes = slotBytes heap'.nodes ∧
      heap'.stats.estimatedBytes ≤ heap.limits.maxEstimatedBytes := by
  have hmem := mem_nodes_of_slot edit.found
  have hslot := accounted.estimated slot hmem
  have hle := estimatedBytes_le_slotBytes hmem
  have htotal := accounted.total
  have hfits := accounted.totalFits
  rw [estimateHeapNodeBytes_eq] at hslot
  have hheld := edit.edited.held
  have hbytes := edit.edited.bytes
  have hnew := edit.edited.estimated (by omega)
  have hstats := edit.total (by omega)
  have hlimit :
    satAdd (heap.stats.estimatedBytes - oldBytes) newBytes ≤ heap.limits.maxEstimatedBytes := by
    by_cases hzero : newBytes = 0
    · subst hzero
      rw [satAdd_zero (by omega)]
      omega
    · exact edit.fits hzero
  have hsum := sum_map_set estimatedBytes slot' (slot_eq_ok.mp edit.found).2.1
  rw [estimateHeapNodeBytes_eq, slotBytes, edit.nodes, hnew, hstats]
  rw [hnew] at hsum
  unfold satAdd slotBytes at *
  omega

theorem Accounted.edit (accounted : heap.Accounted)
    (hmax : heap.limits.maxEstimatedBytes < usizeMax)
    (checked : ∀ value ∈ added, heap.checkInsertWithoutCycle handle value = .ok ())
    (edit : Edit heap heap' handle added slot slot' oldBytes newBytes) : heap'.Accounted := by
  obtain ⟨hslot, htotal, hfits⟩ := accounted.edit_bytes hmax edit
  refine ⟨?_, fun a b hedge => ?_, fun other hother => ?_, fun other hother =>
    ?_, ?_, htotal, ?_, ?_⟩
  · have hback : ∀ v ∈ {b | RuntimeValue.heap b ∈ added}, ¬ ReflTransGen heap.Edge v handle :=
      fun v hv => not_reachable_of_check (checked _ hv)
    exact accounted.acyclic.insert hback fun a b hedge => edit.edge_cases hedge
  · rw [edit.resolves_iff]
    obtain hold | ⟨-, hadded⟩ := edit.edge_cases hedge
    · exact accounted.closed a b hold
    · exact resolves_of_check (checked _ hadded)
  · rw [edit.nodes] at hother
    obtain hother | rfl := mem_or_eq_of_mem_set hother
    · exact accounted.estimated other hother
    · exact hslot
  · rw [edit.nodes] at hother
    obtain hother | rfl := mem_or_eq_of_mem_set hother
    · exact accounted.layout other hother
    · exact edit.edited.layout (accounted.layout slot (mem_nodes_of_slot edit.found))
  · rw [edit.count, accounted.count, edit.nodes, length_set]
  · rw [edit.count, edit.limits]
    exact accounted.countFits
  rw [edit.limits]
  exact hfits

/-! ## Allocations -/

variable {carriers : HeapCarrierLayout ι} {node : HeapNode ι δ}

theorem edge_pushSlot {a b : HeapHandle} (h : (heap.pushSlot node carriers).Edge a b) :
    heap.Edge a b ∨
    (a = ⟨heap.nodes.length, initialGeneration, heap.epoch⟩ ∧ b ∈ heapNodeChildHandles node) := by
  obtain ⟨slot, hslot, hchild⟩ := h
  obtain ⟨hepoch, hnode, hgeneration⟩ := slot_eq_ok.mp hslot
  obtain hold | ⟨hindex, rfl⟩ := getElem?_snoc.mp hnode
  · exact .inl ⟨slot, slot_eq_ok.mpr ⟨hepoch, hold, hgeneration⟩, hchild⟩
  refine .inr ⟨?_, hchild⟩
  obtain ⟨index, generation, epoch⟩ := a
  obtain rfl : index = _ := hindex
  obtain rfl : epoch = heap.epoch := hepoch
  obtain rfl : initialGeneration = generation := hgeneration
  rfl

theorem resolves_pushSlot (h : heap.Resolves handle) :
    (heap.pushSlot node carriers).Resolves handle := by
  obtain ⟨hepoch, hgeneration⟩ := resolves_iff.mp h
  refine resolves_iff.mpr ⟨hepoch, ?_⟩
  change generationAt (heap.nodes ++ [_]) _ = _
  rw [generationAt_append (lt_of_generationAt hgeneration)]
  exact hgeneration

theorem Accounted.allocate (accounted : heap.Accounted)
    (hmax : heap.limits.maxEstimatedBytes < usizeMax)
    (hlayout : ∀ generation bytes, (⟨generation, bytes, node, carriers⟩ : HeapSlot ι δ).LayoutFits)
    (hvalid : ∀ child ∈ heapNodeChildHandles node, heap.Resolves child)
    (hspace : heap.nodes.length < u32Max)
    (hcount : satAdd heap.stats.nodeCount 1 ≤ heap.limits.maxNodes)
    (hbytes : satAdd heap.stats.estimatedBytes
      (estimateHeapNodeBytes node) ≤ heap.limits.maxEstimatedBytes) :
    (heap.pushSlot node carriers).Accounted := by
  have hnew : ¬ heap.Resolves ⟨heap.nodes.length, initialGeneration, heap.epoch⟩ := by
    rintro ⟨slot, hslot⟩
    exact absurd (index_lt_of_slot hslot) (lt_irrefl _)
  have hsmall : u32Max < usizeMax := by decide
  have hone : heap.stats.nodeCount + 1 ≤ heap.limits.maxNodes := by
    have hlength := accounted.count
    unfold satAdd at hcount
    omega
  have hsum : heap.stats.estimatedBytes +
    estimateHeapNodeBytes node ≤ heap.limits.maxEstimatedBytes := by
    unfold satAdd at hbytes
    omega
  refine ⟨?_, fun a b hedge => ?_, fun slot hslot => ?_, fun slot hslot => ?_, ?_, ?_, hone, hbytes⟩
  · have hback : ∀ v ∈ {b | b ∈ heapNodeChildHandles node},
        ¬ ReflTransGen heap.Edge v ⟨heap.nodes.length, initialGeneration, heap.epoch⟩ := by
      intro v hv hpath
      obtain heq | ⟨before, -, hlast⟩ := ReflTransGen.cases_tail hpath
      · exact hnew (heq ▸ hvalid v hv)
      · exact hnew (accounted.closed _ _ hlast)
    exact accounted.acyclic.insert hback fun a b hedge => edge_pushSlot hedge
  · apply resolves_pushSlot
    obtain hold | ⟨-, hchild⟩ := edge_pushSlot hedge
    · exact accounted.closed a b hold
    · exact hvalid b hchild
  · obtain hslot | hslot := mem_append.mp hslot
    · exact accounted.estimated slot hslot
    obtain rfl := mem_singleton.mp hslot
    rfl
  · obtain hslot | hslot := mem_append.mp hslot
    · exact accounted.layout slot hslot
    obtain rfl := mem_singleton.mp hslot
    exact hlayout _ _
  · change heap.stats.nodeCount + 1 = (heap.nodes ++ [_]).length
    rw [accounted.count, length_append]
    rfl
  change satAdd heap.stats.estimatedBytes (estimateHeapNodeBytes node) =
    slotBytes (heap.nodes ++ [_])
  have htotal := accounted.total
  unfold slotBytes satAdd at *
  rw [map_append, sum_append]
  simp only [map_cons, map_nil, sum_cons, sum_nil]
  omega

/-! ## Rebases -/

theorem layoutFits_rebased (h : slot.LayoutFits) (generation : Nat)
    (rename : HeapHandle → HeapHandle) : (slot.rebased generation rename).LayoutFits := by
  obtain ⟨generation', bytes, node, carriers⟩ := slot
  unfold LayoutFits at *
  revert h
  cases node with
  | array items => cases carriers <;> simp [rebased, HeapNode.rename]
  | object fields | map entries =>
    cases carriers <;> simp [rebased, HeapNode.rename, OrdMap.contains, OrdMap.get?_map]
  | bytes _ | exception _ => exact fun _ => trivial
  | interface value =>
    obtain ⟨name, carrier⟩ := value
    cases carrier <;> exact fun _ => trivial

section

variable {checkpoint : RequestHeapCheckpoint} {roots : List RuntimeValue}
    {builder : RollbackRebaseBuilder}
variable {prepared : PreparedRequestHeapRollback ι δ}

theorem exists_slot_of_prepared (prepares : Prepares heap checkpoint roots builder prepared)
    {slot' : HeapSlot ι δ} (h : slot' ∈ prepared.nodes) :
    ∃ slot ∈ heap.nodes, ∃ generation, slot' =
      slot.rebased generation (rebaseOf builder.mapped) := by
  obtain ⟨index, hindex⟩ := getElem?_of_mem h
  by_cases hbelow : index < checkpoint.len
  · rw [prepares.kept index hbelow] at hindex
    obtain ⟨slot, hslot, rfl⟩ := Option.map_eq_some_iff.mp hindex
    exact ⟨slot, mem_of_getElem? hslot, _, rfl⟩
  obtain ⟨k, rfl⟩ := Nat.exists_eq_add_of_le (Nat.not_lt.mp hbelow)
  have hlt := (List.getElem?_eq_some_iff.mp hindex).1
  rw [prepares.length] at hlt
  have hk : k < builder.suffixSources.length := by omega
  obtain ⟨slot, hslot, hmoved⟩ := prepares.moved k _ (getElem?_eq_getElem hk)
  rw [hmoved] at hindex
  exact ⟨slot, mem_nodes_of_slot hslot, _, (Option.some.inj hindex).symm⟩

theorem Accounted.rebase (accounted : heap.Accounted)
    (hmax : heap.limits.maxEstimatedBytes < usizeMax)
    (h : heap.prepareRollbackRebase checkpoint roots = .ok prepared) :
    (heap.commitPreparedRollbackRebase prepared).Accounted := by
  obtain ⟨hlen, builder, hdiscover, hprepare⟩ := prepareRollbackRebase_ok h
  have found := discover_spec hdiscover
  have prepares := prepare_spec hlen found hprepare
  have hchild : ∀ a b, a ∈ builder.scheduled → heap.Edge a b → b ∈ builder.scheduled := by
    intro a b ha hedge
    obtain ⟨start, hstart, hpath⟩ := (found.reached a).mp ha
    exact (found.reached b).mpr ⟨start, hstart, hpath.tail hedge⟩
  have hsource : ∀ a b, (heap.commitPreparedRollbackRebase prepared).Edge a b →
      ∃ old ∈ builder.scheduled, rebaseOf builder.mapped old = a := by
    rintro a b ⟨slot, hslot, -⟩
    exact exists_rebase found prepares ⟨slot, hslot⟩
  refine ⟨?_, fun a b hedge => ?_, fun slot hslot => ?_, fun slot hslot =>
    ?_, prepares.count, ?_, ?_,
    prepares.totalFits⟩
  · refine accounted.acyclic.of_simulation
      (fun x a => a ∈ builder.scheduled ∧ rebaseOf builder.mapped a = x)
      (fun x y hedge => ?_) (fun x y a hedge himage => ?_) (fun x a b ha hb => ?_)
    · obtain ⟨old, hold, hrebase⟩ := hsource x y hedge
      exact ⟨old, hold, hrebase⟩
    · obtain ⟨hmem, rfl⟩ := himage
      obtain ⟨child, hchildEdge, rfl⟩ := (edge_rebase found prepares hmem).mp hedge
      exact ⟨child, hchildEdge, hchild a child hmem hchildEdge, rfl⟩
    · exact rebase_injOn found ha.1 hb.1 (ha.2.trans hb.2.symm)
  · obtain ⟨old, hold, rfl⟩ := hsource a b hedge
    obtain ⟨child, hchildEdge, rfl⟩ := (edge_rebase found prepares hold).mp hedge
    have hmem := hchild old child hold hchildEdge
    obtain ⟨slot, hslot⟩ := found.resolves child hmem
    exact ⟨_, slot_rebase found prepares hmem hslot⟩
  · obtain ⟨old, -, generation, rfl⟩ := exists_slot_of_prepared prepares hslot
    rfl
  · obtain ⟨old, hold, generation, rfl⟩ := exists_slot_of_prepared prepares hslot
    exact layoutFits_rebased (accounted.layout old hold) _ _
  · change prepared.stats.estimatedBytes = slotBytes prepared.nodes
    have htotal := prepares.total
    have hfits := prepares.totalFits
    rw [foldl_slotBytes] at htotal
    omega
  change prepared.stats.nodeCount ≤ heap.limits.maxNodes
  rw [prepares.count, prepares.length]
  have hle := found.length_le hlen
  have hcount := accounted.count
  have hcountFits := accounted.countFits
  omega

end

/-! ## Counters -/

theorem Accounted.recompute (accounted : heap.Accounted)
    (hmax : heap.limits.maxEstimatedBytes < usizeMax) :
    (recomputeStats heap).2.Accounted := by
  have hnodes :
    (heap.nodes.map fun slot => { slot with estimatedBytes := estimateHeapNodeBytes slot.node }) =
      heap.nodes := by
    conv_rhs => rw [← map_id heap.nodes]
    refine map_congr_left fun slot hslot => ?_
    rw [← accounted.estimated slot hslot]
    rfl
  have htotal : heap.nodes.foldl (fun total slot => satAdd total slot.estimatedBytes) 0 =
      heap.stats.estimatedBytes := by
    have hsum := accounted.total
    have hfits := accounted.totalFits
    rw [foldl_slotBytes]
    omega
  have hheap : (recomputeStats heap).2 = heap := by
    simp only [recomputeStats, Mut.modify, hnodes, htotal, ← accounted.count]
  rw [hheap]
  exact accounted

/-- The counters that a record changes are not the accounted ones. -/
theorem Accounted.record (accounted : heap.Accounted)
    {stats : RequestHeapStats} (hcount : stats.nodeCount = heap.stats.nodeCount)
    (hbytes : stats.estimatedBytes = heap.stats.estimatedBytes) :
    ({ heap with stats := stats } : RequestHeap ι δ).Accounted where
  acyclic := accounted.acyclic
  closed := accounted.closed
  estimated := accounted.estimated
  layout := accounted.layout
  count := hcount.trans accounted.count
  total := hbytes.trans accounted.total
  countFits := hcount.trans_le accounted.countFits
  totalFits := hbytes.trans_le accounted.totalFits

end RequestHeap

end Skiff.Heap
