import Skiff.Heap.Rebase

/-!
# A rebase keeps the reachable graph

The walk schedules exactly the handles that the nodes below the checkpoint and the roots
reach (`Walk`, `discover_walk`). The map from old to new handles is one to one on them, the
rewritten nodes are the old ones under that map, and nothing else is kept.
-/

namespace Skiff.Heap

open Relation Except
open Skiff.Runtime (HeapHandle RuntimeValue RuntimeError)
open RollbackRebaseBuilder RequestHeap List RequestException OrdMap

variable {ι δ : Type}

/-! ## Renaming -/

def renameValue (rename : HeapHandle → HeapHandle) : RuntimeValue → RuntimeValue
  | .heap handle => .heap (rename handle)
  | value => value

/-- A node with other handles in the same places. -/
def HeapNode.rename (rename : HeapHandle → HeapHandle) : HeapNode ι δ → HeapNode ι δ
  | .bytes content => .bytes content
  | .array items => .array (items.map (renameValue rename))
  | .object fields => .object (fields.map (renameValue rename))
  | .map entries => .map (entries.map (renameValue rename))
  | .interface ⟨name, .localPayload concreteType methodTable payload⟩ =>
    .interface ⟨name, .localPayload concreteType methodTable (renameValue rename payload)⟩
  | .interface ⟨name, .callbackCapability capability⟩ =>
    .interface ⟨name, .callbackCapability capability⟩
  | .exception thrown =>
    .exception (thrown.mapLocalValue fun carrier =>
      ⟨renameValue rename carrier.value, carrier.catchIdentity⟩)

theorem RequestException.localValue_mapLocalValue (exception : RequestException ι δ)
    (f : RuntimeValueCarrier ι → RuntimeValueCarrier ι) :
    (exception.mapLocalValue f).localValue = exception.localValue.map f := by
  obtain ⟨cause, source, stack, traceId, errorId⟩ := exception
  cases cause with
  | opaqueService error value => cases value <;> rfl
  | localValue value => rfl
  | vmLocal slot identity => rfl

theorem childValues_rename (rename : HeapHandle → HeapHandle) (node : HeapNode ι δ) :
    childValues (node.rename rename) = (childValues node).map (renameValue rename) := by
  cases node with
  | bytes _ => rfl
  | array items => rfl
  | object fields | map entries => exact values_map _ _
  | interface value =>
    obtain ⟨interface, carrier⟩ := value
    cases carrier <;> rfl
  | exception exception =>
    simp only [HeapNode.rename, childValues, localValue_mapLocalValue]
    cases exception.localValue <;> rfl

theorem mem_childHandles_rename {rename : HeapHandle → HeapHandle} {node : HeapNode ι δ}
    {handle : HeapHandle} : handle ∈ heapNodeChildHandles (node.rename rename) ↔
      ∃ child ∈ heapNodeChildHandles node, handle = rename child := by
  simp only [mem_heapNodeChildHandles, childValues_rename, mem_map]
  constructor
  · rintro ⟨value, hvalue, heq⟩
    cases value with
    | heap child => exact ⟨child, hvalue, (RuntimeValue.heap.inj heq).symm⟩
    | null | bool _ | number _ | date _ | string _ | actorRef _ => cases heq
  rintro ⟨child, hchild, rfl⟩
  exact ⟨.heap child, hchild, rfl⟩

/-! What the rewriting functions compute, when they succeed. -/

variable {slot : HeapSlot ι δ}

section

variable {mapped : OrdMap HeapHandle HeapHandle}

/-- The new handle of a handle; handles without one stay. -/
def rebaseOf (mapped : OrdMap HeapHandle HeapHandle) (handle : HeapHandle) : HeapHandle :=
  (mapped.get? handle).getD handle

theorem rewriteRuntimeValue_eq {value rewritten : RuntimeValue}
    (h : rewriteRuntimeValue mapped value = .ok rewritten) :
    rewritten = renameValue (rebaseOf mapped) value := by
  cases value with
  | heap handle =>
    simp only [rewriteRuntimeValue] at h
    split at h
    case h_1 destination hmapped =>
      cases h
      simp [renameValue, rebaseOf, hmapped]
    · cases h
  | null | bool _ | number _ | date _ | string _ | actorRef _ => exact (ok.inj h).symm

variable {failure : Failure}

theorem rewriteRuntimeValue_reported {value : RuntimeValue}
    (h : rewriteRuntimeValue mapped value = .error failure) : failure.Reported := by
  cases value with
  | heap handle =>
    simp only [rewriteRuntimeValue] at h
    split at h
    · cases h
    · exact ⟨_, (error.inj h).symm⟩
  | null | bool _ | number _ | date _ | string _ | actorRef _ => cases h

theorem rewriteEntries_eq {entries rewritten : OrdMap String RuntimeValue}
    (h : rewriteEntries mapped entries = .ok rewritten) :
    rewritten = entries.map (renameValue (rebaseOf mapped)) := by
  obtain ⟨collected, hcollected, h⟩ := bind_eq_ok.mp h
  cases h
  rw [← ofList_map_entries]
  congr 1
  refine mapM_eq_map hcollected fun entry _ result hresult => ?_
  obtain ⟨value, hvalue, hresult⟩ := bind_eq_ok.mp hresult
  cases hresult
  rw [rewriteRuntimeValue_eq hvalue]

theorem rewriteEntries_reported {entries : OrdMap String RuntimeValue}
    (h : rewriteEntries mapped entries = .error failure) : failure.Reported := by
  obtain hfailed | ⟨_, _, h⟩ := bind_eq_error.mp h
  · obtain ⟨entry, -, hentry⟩ := mapM_eq_error hfailed
    obtain hvalue | ⟨_, _, hok⟩ := bind_eq_error.mp hentry
    · exact rewriteRuntimeValue_reported hvalue
    · cases hok
  · cases h

theorem rewriteHeapNode_eq {node rewritten : HeapNode ι δ}
    (h : rewriteHeapNode mapped node = .ok rewritten) :
    rewritten = node.rename (rebaseOf mapped) := by
  cases node with
  | bytes _ => exact (ok.inj h).symm
  | array items =>
    obtain ⟨values, hvalues, h⟩ := bind_eq_ok.mp h
    cases h
    rw [mapM_eq_map hvalues fun value _ _ => rewriteRuntimeValue_eq]
    rfl
  | object fields | map entries =>
    obtain ⟨values, hvalues, h⟩ := bind_eq_ok.mp h
    cases h
    rw [rewriteEntries_eq hvalues]
    rfl
  | interface value =>
    obtain ⟨rewritten', hvalue, h⟩ := bind_eq_ok.mp h
    cases h
    obtain ⟨interface, carrier⟩ := value
    cases carrier with
    | callbackCapability capability =>
      cases hvalue
      rfl
    | localPayload concreteType methodTable payload =>
      obtain ⟨payload', hpayload, hvalue⟩ := bind_eq_ok.mp hvalue
      cases hvalue
      rw [rewriteRuntimeValue_eq hpayload]
      rfl
  | exception exception =>
    obtain ⟨cause, source, stack, traceId, errorId⟩ := exception
    have hlocal : ∀ (carrier : RuntimeValueCarrier ι) rewritten',
      rewriteRuntimeValue mapped carrier.value = .ok rewritten' →
        (⟨rewritten', carrier.catchIdentity⟩ : RuntimeValueCarrier ι) =
          ⟨renameValue (rebaseOf mapped) carrier.value, carrier.catchIdentity⟩ := by
      intro carrier rewritten' hrewritten
      rw [rewriteRuntimeValue_eq hrewritten]
    cases cause with
    | vmLocal slot identity => exact (ok.inj h).symm
    | localValue carrier =>
      obtain ⟨value, hvalue, h⟩ := bind_eq_ok.mp h
      cases h
      simp only [HeapNode.rename, mapLocalValue, hlocal carrier value hvalue]
    | opaqueService error value =>
      cases value with
      | none => exact (ok.inj h).symm
      | some carrier =>
        obtain ⟨value, hvalue, h⟩ := bind_eq_ok.mp h
        cases h
        simp only [HeapNode.rename, mapLocalValue, hlocal carrier value hvalue]

theorem rewriteHeapNode_reported {node : HeapNode ι δ}
    (h : rewriteHeapNode mapped node = .error failure) : failure.Reported := by
  cases node with
  | bytes _ => cases h
  | array items =>
    obtain hfailed | ⟨_, _, h⟩ := bind_eq_error.mp h
    · obtain ⟨item, -, hitem⟩ := mapM_eq_error hfailed
      exact rewriteRuntimeValue_reported hitem
    · cases h
  | object fields | map fields =>
    obtain hfailed | ⟨_, _, h⟩ := bind_eq_error.mp h
    · exact rewriteEntries_reported hfailed
    · cases h
  | interface value =>
    obtain hfailed | ⟨_, _, h⟩ := bind_eq_error.mp h
    · obtain ⟨interface, carrier⟩ := value
      cases carrier with
      | callbackCapability capability => cases hfailed
      | localPayload concreteType methodTable payload =>
        obtain hpayload | ⟨_, _, hok⟩ := bind_eq_error.mp hfailed
        · exact rewriteRuntimeValue_reported hpayload
        · cases hok
    · cases h
  | exception exception =>
    simp only [rewriteHeapNode] at h
    split at h
    · obtain hfailed | ⟨_, _, h⟩ := bind_eq_error.mp h
      · exact rewriteRuntimeValue_reported hfailed
      · cases h
    · cases h

/-- The slot that a kept node is stored in. -/
def HeapSlot.rebased (slot : HeapSlot ι δ) (generation : Nat) (rename : HeapHandle → HeapHandle) :
    HeapSlot ι δ :=
  ⟨generation, estimateHeapNodeBytes (slot.node.rename rename), slot.node.rename rename,
    slot.carriers⟩

theorem rewriteHeapSlot_eq {slot rewritten : HeapSlot ι δ}
    (h : rewriteHeapSlot mapped slot = .ok rewritten) :
    rewritten = slot.rebased slot.generation (rebaseOf mapped) := by
  obtain ⟨node, hnode, h⟩ := bind_eq_ok.mp h
  cases h
  rw [rewriteHeapNode_eq hnode]
  rfl

theorem rewriteHeapSlot_reported
    (h : rewriteHeapSlot mapped slot = .error failure) : failure.Reported := by
  obtain hnode | ⟨_, _, h⟩ := bind_eq_error.mp h
  · exact rewriteHeapNode_reported hnode
  · cases h

end

/-! ## The walk -/

namespace RequestHeap

/-- A handle of a node below the checkpoint. -/
def PreCheckpoint (heap : RequestHeap ι δ) (checkpoint : RequestHeapCheckpoint)
    (handle : HeapHandle) : Prop :=
  heap.Resolves handle ∧ handle.index < checkpoint.len

/-- Where a rebase starts from: the nodes below the checkpoint and the roots. -/
def starts (heap : RequestHeap ι δ) (checkpoint : RequestHeapCheckpoint)
    (roots : List RuntimeValue) :
    Set HeapHandle :=
  {handle | heap.PreCheckpoint checkpoint handle ∨ RuntimeValue.heap handle ∈ roots}

/-- What can be reached from some handles. -/
def Reached (heap : RequestHeap ι δ) (starts : Set HeapHandle) : Set HeapHandle :=
  {handle | ∃ start ∈ starts, ReflTransGen heap.Edge start handle}

/-- The handle given to the node that moves to an index. -/
def destinationAt (heap : RequestHeap ι δ) (index : Nat) : HeapHandle :=
  ⟨index, (heap.nodes[index]?).elim initialGeneration (·.generation + 1), heap.epoch⟩

end RequestHeap

section

variable {source : RequestHeap ι δ} {checkpoint : RequestHeapCheckpoint} {handle : HeapHandle}

theorem mem_prefixHandles : handle ∈ prefixHandles source checkpoint ↔
    source.PreCheckpoint checkpoint handle := by
  rw [prefixHandles, mem_mapIdx]
  constructor
  · rintro ⟨index, hlt, rfl⟩
    rw [List.length_take] at hlt
    rw [getElem_take]
    exact ⟨⟨_, slot_handleAt (getElem?_eq_getElem _)⟩, lt_of_lt_of_le hlt (min_le_left _ _)⟩
  rintro ⟨⟨slot, hslot⟩, hindex⟩
  obtain ⟨hepoch, hnode, hgeneration⟩ := slot_eq_ok.mp hslot
  obtain ⟨hlt, hget⟩ := List.getElem?_eq_some_iff.mp hnode
  refine ⟨handle.index, ?_, ?_⟩
  · rw [List.length_take]
    exact lt_min hindex hlt
  · rw [getElem_take, hget, handleAt, hgeneration, ← hepoch]

theorem prefixHandles_nodup : (prefixHandles source checkpoint).Nodup := by
  rw [prefixHandles, nodup_iff_injective_get]
  intro i j hij
  simp only [get_eq_getElem, getElem_mapIdx, handleAt, HeapHandle.mk.injEq] at hij
  exact Fin.ext hij.1

namespace RollbackRebaseBuilder

variable {target : HeapHandle}

theorem new_mapped : (new source checkpoint).mapped.get? handle = some target ↔
    source.PreCheckpoint checkpoint handle ∧ target = handle := by
  have hnodup :
    (((prefixHandles source checkpoint).map fun handle => (handle, handle)).map
    Prod.fst).Nodup := by
    simpa [Function.comp_def] using prefixHandles_nodup
  constructor
  · intro h
    have hmem := mem_of_get?_ofList hnodup h
    obtain ⟨other, hother, heq⟩ := mem_map.mp hmem
    cases heq
    exact ⟨mem_prefixHandles.mp hother, rfl⟩
  rintro ⟨hpre, rfl⟩
  exact get?_ofList hnodup (mem_map.mpr ⟨target, mem_prefixHandles.mpr hpre, rfl⟩)

variable {builder : RollbackRebaseBuilder}

theorem destination_eq (h : destination source checkpoint builder = .ok target) :
    target = source.destinationAt (checkpoint.len + builder.suffixSources.length) := by
  unfold destination at h
  simp only at h
  split at h
  · cases h
  split at h
  · cases h
  split at h
  · cases h
  obtain ⟨generation, hgeneration, h⟩ := bind_eq_ok.mp h
  cases h
  unfold destinationGeneration at hgeneration
  split at hgeneration
  case h_1 slot hslot =>
    split at hgeneration
    · cases hgeneration
    cases hgeneration
    simp [destinationAt, hslot]
  case h_2 hslot =>
    cases hgeneration
    simp [destinationAt, hslot]

variable {failure : Failure}

theorem destination_reported
    (h : destination source checkpoint builder = .error failure) : failure.Reported := by
  unfold destination at h
  simp only at h
  split at h
  · exact ⟨_, (error.inj h).symm⟩
  split at h
  · exact ⟨_, (error.inj h).symm⟩
  split at h
  · exact ⟨_, (error.inj h).symm⟩
  obtain hgeneration | ⟨_, _, h⟩ := bind_eq_error.mp h
  · unfold destinationGeneration at hgeneration
    split at hgeneration
    · split at hgeneration
      · exact ⟨_, (error.inj hgeneration).symm⟩
      · cases hgeneration
    · cases hgeneration
  · cases h

/-- What holds between two rounds of the walk. The children of a scheduled handle are
scheduled too, unless it still waits in the queue or is `pending`. -/
structure Walk (source : RequestHeap ι δ) (checkpoint : RequestHeapCheckpoint)
    (seeds pending : Set HeapHandle) (builder : RollbackRebaseBuilder) : Prop where
  resolves : ∀ handle ∈ builder.scheduled, source.Resolves handle
  nodup : builder.scheduled.Nodup
  reached : ∀ handle ∈ builder.scheduled, handle ∈ source.Reached seeds
  closed : ∀ handle ∈ builder.scheduled, handle ∈ pending ∨ handle ∈ builder.queue.map Prod.fst ∨
    ∀ child, source.Edge handle child → child ∈ builder.scheduled
  queued : ∀ handle ∈ builder.queue.map Prod.fst, handle ∈ builder.scheduled
  suffixNodup : builder.suffixSources.Nodup
  suffix : ∀ handle, handle ∈ builder.suffixSources ↔
    handle ∈ builder.scheduled ∧ checkpoint.len ≤ handle.index
  mapped : ∀ handle target, builder.mapped.get? handle = some target ↔
    (source.PreCheckpoint checkpoint handle ∧ target = handle) ∨
      ∃ k, builder.suffixSources[k]? = some handle ∧
        target = source.destinationAt (checkpoint.len + k)

variable {seeds pending : Set HeapHandle} {builder next : RollbackRebaseBuilder} {depth : Nat}

theorem walk_new (source : RequestHeap ι δ) (checkpoint : RequestHeapCheckpoint)
    (seeds pending : Set HeapHandle) :
    Walk source checkpoint seeds pending (new source checkpoint) where
  resolves := by simp [new]
  nodup := nodup_nil
  reached := by simp [new]
  closed := by simp [new]
  queued := by simp [new]
  suffixNodup := nodup_nil
  suffix := by simp [new]
  mapped handle target := by
    rw [new_mapped]
    simp [new]

/-- A handle that is met for the first time: it has its place below the checkpoint, or it
is given the next one behind. -/
theorem assign_cases {started : RollbackRebaseBuilder}
    (h : assign source checkpoint started handle = .ok next) :
    (∃ target, started.mapped.get? handle = some target ∧ next = started) ∨
      (started.mapped.get? handle = none ∧ next = { started with
        mapped := started.mapped.insert handle
          (source.destinationAt (checkpoint.len + started.suffixSources.length))
        suffixSources := started.suffixSources ++ [handle] }) := by
  unfold assign at h
  split at h
  case isTrue hmapped =>
    obtain ⟨target, htarget⟩ := contains_iff.mp hmapped
    exact .inl ⟨target, htarget, (ok.inj h).symm⟩
  case isFalse hmapped =>
    obtain ⟨target, htarget, h⟩ := bind_eq_ok.mp h
    obtain rfl := destination_eq htarget
    refine .inr ⟨?_, (ok.inj h).symm⟩
    cases hget : started.mapped.get? handle with
    | none => rfl
    | some other => simp [OrdMap.contains, hget] at hmapped

/-- Take a new handle up, whatever it is mapped to. -/
theorem Walk.take_up (walk : Walk source checkpoint seeds pending builder) (depth : Nat)
    (hresolves : source.Resolves handle) (hreached : handle ∈ source.Reached seeds)
    (hfresh : handle ∉ builder.scheduled)
    (hassign : assign source checkpoint
      { builder with scheduled := handle :: builder.scheduled } handle =
      .ok next) :
    Walk source checkpoint seeds pending { next with queue := next.queue ++ [(handle, depth)] } ∧
      next.scheduled = handle :: builder.scheduled ∧ next.queue = builder.queue ∧
      next.maxDepth = builder.maxDepth := by
  have hbasic : ∀ other ∈ handle :: builder.scheduled, other = handle ∨ other ∈ builder.scheduled :=
    fun other hother => mem_cons.mp hother
  have hmissing : ∀ k : Nat, builder.suffixSources[k]? ≠ some handle := by
    intro k hk
    exact hfresh ((walk.suffix handle).mp (mem_of_getElem? hk)).1
  have hclosed : ∀ other ∈ handle :: builder.scheduled, other ∈ pending ∨
      other ∈ (builder.queue ++ [(handle, depth)]).map Prod.fst ∨
        ∀ child, source.Edge other child → child ∈ handle :: builder.scheduled := by
    intro other hother
    rw [map_append, mem_append]
    obtain rfl | hother := hbasic other hother
    · exact .inr (.inl (.inr (.head _)))
    obtain hpending | hqueue | hchildren := walk.closed other hother
    · exact .inl hpending
    · exact .inr (.inl (.inl hqueue))
    · exact .inr (.inr fun child hedge => .tail _ (hchildren child hedge))
  have hqueued : ∀ other ∈ (builder.queue ++ [(handle, depth)]).map Prod.fst,
      other ∈ handle :: builder.scheduled := by
    intro other hother
    rw [map_append, mem_append] at hother
    obtain hother | hother := hother
    · exact .tail _ (walk.queued other hother)
    obtain rfl := mem_singleton.mp hother
    exact .head _
  have hresolved : ∀ other ∈ handle :: builder.scheduled, source.Resolves other := by
    intro other hother
    obtain rfl | hother := hbasic other hother
    · exact hresolves
    · exact walk.resolves other hother
  have hall : ∀ other ∈ handle :: builder.scheduled, other ∈ source.Reached seeds := by
    intro other hother
    obtain rfl | hother := hbasic other hother
    · exact hreached
    · exact walk.reached other hother
  obtain ⟨target, hmapped, rfl⟩ | ⟨hmapped, rfl⟩ := assign_cases hassign
  · -- The handle has a place already, so its node is below the checkpoint.
    obtain ⟨hpre, -⟩ | ⟨k, hk, -⟩ := (walk.mapped handle target).mp hmapped
    · refine ⟨⟨hresolved, nodup_cons.mpr ⟨hfresh, walk.nodup⟩, hall, hclosed, hqueued,
        walk.suffixNodup, fun other => ?_, walk.mapped⟩, rfl, rfl, rfl⟩
      rw [walk.suffix other]
      constructor
      · rintro ⟨hother, hindex⟩
        exact ⟨.tail _ hother, hindex⟩
      rintro ⟨hother, hindex⟩
      obtain rfl | hother := hbasic other hother
      · exact absurd hpre.2 (Nat.not_lt.mpr hindex)
      · exact ⟨hother, hindex⟩
    · exact absurd hk (hmissing k)
  have hindex : checkpoint.len ≤ handle.index := by
    by_contra hlt
    have hget := (walk.mapped handle handle).mpr (.inl ⟨⟨hresolves, Nat.not_le.mp hlt⟩, rfl⟩)
    change builder.mapped.get? handle = none at hmapped
    rw [hmapped] at hget
    cases hget
  refine ⟨⟨hresolved, nodup_cons.mpr ⟨hfresh, walk.nodup⟩, hall, hclosed, hqueued,
    ?_, fun other => ?_, fun other target => ?_⟩, rfl, rfl, rfl⟩
  · refine nodup_append.mpr ⟨walk.suffixNodup, nodup_singleton _, fun a ha b hb => ?_⟩
    obtain rfl := mem_singleton.mp hb
    rintro rfl
    exact hfresh ((walk.suffix a).mp ha).1
  · change other ∈ builder.suffixSources ++ [handle] ↔ other ∈ handle :: builder.scheduled ∧ _
    rw [mem_append, mem_singleton, walk.suffix other, mem_cons]
    constructor
    · rintro (⟨hother, hle⟩ | rfl)
      · exact ⟨.inr hother, hle⟩
      · exact ⟨.inl rfl, hindex⟩
    rintro ⟨rfl | hother, hle⟩
    · exact .inr rfl
    · exact .inl ⟨hother, hle⟩
  change (builder.mapped.insert handle _).get? other = some target ↔ _ ∨
    ∃ k, (builder.suffixSources ++ [handle])[k]? = some other ∧ _
  rw [get?_insert]
  split
  case isTrue heq =>
    subst heq
    constructor
    · intro htarget
      refine .inr ⟨builder.suffixSources.length, by simp, ?_⟩
      exact (Option.some.inj htarget).symm
    rintro (⟨hpre, -⟩ | ⟨k, hk, rfl⟩)
    · exact absurd hpre.2 (Nat.not_lt.mpr hindex)
    obtain hk | ⟨rfl, -⟩ := getElem?_snoc.mp hk
    · exact absurd hk (hmissing k)
    · rfl
  case isFalse hne =>
    rw [walk.mapped other target]
    refine or_congr_right (exists_congr fun k => and_congr_left fun _ => ?_)
    rw [getElem?_snoc]
    constructor
    · exact .inl
    rintro (hk | ⟨-, heq⟩)
    · exact hk
    · exact absurd heq hne

/-- What scheduling does to the builder, besides keeping the walk. The rounds that are
left to do do not change: each handle is scheduled and queued at once. -/
structure Advances (builder next : RollbackRebaseBuilder) : Prop where
  grows : builder.scheduled ⊆ next.scheduled
  rounds : next.queue.length + builder.scheduled.length = builder.queue.length +
    next.scheduled.length

theorem Advances.refl (builder : RollbackRebaseBuilder) :
    Advances builder builder := ⟨List.Subset.refl _, rfl⟩

theorem Advances.trans {last : RollbackRebaseBuilder} (h : Advances builder next)
    (h' : Advances next last) :
    Advances builder last := by
  refine ⟨fun handle hhandle => h'.grows (h.grows hhandle), ?_⟩
  have hfirst := h.rounds
  have hsecond := h'.rounds
  omega

theorem schedule_walk (walk : Walk source checkpoint seeds pending builder)
    (hreached : handle ∈ source.Reached seeds)
    (h : schedule source checkpoint builder handle depth = .ok next) :
    Walk source checkpoint seeds pending next ∧ Advances builder next ∧
    handle ∈ next.scheduled := by
  obtain ⟨slot, hslot, h⟩ := bind_eq_ok.mp h
  split at h
  case isTrue hmem =>
    cases h
    exact ⟨walk, .refl _, hmem⟩
  case isFalse hfresh =>
    split at h
    · cases h
    obtain ⟨assigned, hassign, h⟩ := bind_eq_ok.mp h
    cases h
    obtain ⟨hwalk, hscheduled, hqueue, -⟩ :=
      walk.take_up depth ⟨slot, hslot⟩ hreached hfresh hassign
    refine ⟨hwalk, ⟨?_, ?_⟩, ?_⟩
    · intro other hother
      change other ∈ assigned.scheduled
      rw [hscheduled]
      exact .tail _ hother
    · change (assigned.queue ++ [(handle, depth)]).length + _ = _ + assigned.scheduled.length
      simp only [hscheduled, hqueue, length_append, length_cons, length_nil]
      omega
    change handle ∈ assigned.scheduled
    rw [hscheduled]
    exact .head _

theorem schedule_reported
    (h : schedule source checkpoint builder handle depth = .error failure) : failure.Reported := by
  obtain hslot | ⟨slot, -, h⟩ := bind_eq_error.mp h
  · exact slot_reported hslot
  split at h
  · cases h
  split at h
  · exact ⟨_, (error.inj h).symm⟩
  obtain hassign | ⟨_, _, h⟩ := bind_eq_error.mp h
  · unfold assign at hassign
    split at hassign
    · cases hassign
    obtain hdestination | ⟨_, _, h⟩ := bind_eq_error.mp hassign
    · exact destination_reported hdestination
    · cases h
  · cases h

variable {handles : List HeapHandle} {rest : List (HeapHandle × Nat)}

theorem scheduleAll_walk (walk : Walk source checkpoint seeds pending builder)
    (hreached : ∀ handle ∈ handles, handle ∈ source.Reached seeds)
    (h : scheduleAll source checkpoint depth builder handles = .ok next) :
    Walk source checkpoint seeds pending next ∧ Advances builder next ∧
    handles ⊆ next.scheduled := by
  induction handles generalizing builder with
  | nil =>
    cases h
    exact ⟨walk, .refl _, nil_subset _⟩
  | cons handle rest ih =>
    obtain ⟨middle, hmiddle, h⟩ := bind_eq_ok.mp h
    obtain ⟨hwalk, hfirst, hmem⟩ := schedule_walk walk (hreached handle (.head _)) hmiddle
    obtain ⟨hwalk, hrest, hsub⟩ := ih hwalk (fun other hother => hreached other (.tail _ hother)) h
    exact ⟨hwalk, hfirst.trans hrest, cons_subset.mpr ⟨hrest.grows hmem, hsub⟩⟩

theorem scheduleAll_reported
    (h : scheduleAll source checkpoint depth builder handles = .error failure) :
    failure.Reported := by
  induction handles generalizing builder with
  | nil => cases h
  | cons handle rest ih =>
    obtain hfirst | ⟨middle, -, h⟩ := bind_eq_error.mp h
    · exact schedule_reported hfirst
    · exact ih h

/-- The next handle leaves the queue and is pending. -/
theorem Walk.pop (walk : Walk source checkpoint seeds ∅ builder)
    (hqueue : builder.queue = (handle, depth) :: rest) (maxDepth : Nat) :
    Walk source checkpoint seeds {handle} { builder with queue := rest, maxDepth := maxDepth } := by
  refine ⟨walk.resolves, walk.nodup, walk.reached, fun other hother => ?_, fun other hother => ?_,
    walk.suffixNodup, walk.suffix, walk.mapped⟩
  · obtain hempty | hmem | hchildren := walk.closed other hother
    · exact absurd hempty (Set.notMem_empty _)
    · rw [hqueue, map_cons] at hmem
      obtain heq | hmem := mem_cons.mp hmem
      · exact .inl heq
      · exact .inr (.inl hmem)
    · exact .inr (.inr hchildren)
  apply walk.queued
  rw [hqueue]
  exact .tail _ hother

/-- A pending handle is done when its children are scheduled. -/
theorem Walk.settle (walk : Walk source checkpoint seeds {handle} builder)
    (hchildren : ∀ child, source.Edge handle child → child ∈ builder.scheduled) :
    Walk source checkpoint seeds ∅ builder := by
  refine ⟨walk.resolves, walk.nodup, walk.reached, fun other hother =>
    ?_, walk.queued, walk.suffixNodup,
    walk.suffix, walk.mapped⟩
  obtain rfl | hrest := walk.closed other hother
  · exact .inr (.inr hchildren)
  · exact .inr hrest

/-- One round of the walk. -/
theorem Walk.round {maxDepth depth' : Nat} (walk : Walk source checkpoint seeds ∅ builder)
    (hqueue : builder.queue = (handle, depth) :: rest) (hslot : source.slot handle = .ok slot)
    (h : scheduleAll source checkpoint depth' { builder with queue := rest, maxDepth := maxDepth }
      (heapNodeChildHandles slot.node) = .ok next) :
    Walk source checkpoint seeds ∅ next ∧
      Advances { builder with queue := rest, maxDepth := maxDepth } next := by
  have hmem : handle ∈ builder.scheduled := by
    apply walk.queued
    rw [hqueue]
    exact .head _
  obtain ⟨start, hstart, hpath⟩ := walk.reached handle hmem
  have hchild : ∀ child ∈ heapNodeChildHandles slot.node, child ∈ source.Reached seeds :=
    fun child hchild => ⟨start, hstart, hpath.tail ⟨slot, hslot, hchild⟩⟩
  obtain ⟨hwalk, hadvances, hsub⟩ := scheduleAll_walk (walk.pop hqueue maxDepth) hchild h
  refine ⟨hwalk.settle fun child hedge => ?_, hadvances⟩
  obtain ⟨slot', hslot', hmem⟩ := hedge
  obtain rfl := ok.inj (hslot.symm.trans hslot')
  exact hsub hmem

theorem drain_walk {rounds : Nat} (walk : Walk source checkpoint seeds ∅ builder)
    (h : drain source checkpoint rounds builder = .ok next) :
    Walk source checkpoint seeds ∅ next ∧ builder.scheduled ⊆ next.scheduled ∧ next.queue = [] := by
  induction rounds generalizing builder with
  | zero => cases h
  | succ rounds ih =>
    rw [drain] at h
    split at h
    case h_1 hqueue =>
      cases h
      exact ⟨walk, List.Subset.refl _, hqueue⟩
    case h_2 handle depth rest hqueue =>
      obtain ⟨slot, hslot, h⟩ := bind_eq_ok.mp h
      obtain ⟨middle, hmiddle, h⟩ := bind_eq_ok.mp h
      obtain ⟨hwalk, hadvances⟩ := walk.round hqueue hslot hmiddle
      obtain ⟨hlast, hgrows, hempty⟩ := ih hwalk h
      exact ⟨hlast, fun other hother => hgrows (hadvances.grows hother), hempty⟩

/-- The rounds suffice: a handle that is still to come is a node not yet scheduled. -/
theorem drain_reported {rounds : Nat} (walk : Walk source checkpoint seeds ∅ builder)
    (hrounds : source.nodes.length + builder.queue.length < rounds + builder.scheduled.length)
    (h : drain source checkpoint rounds builder = .error failure) : failure.Reported := by
  induction rounds generalizing builder with
  | zero =>
    have hle := length_le_of_nodup walk.nodup walk.resolves
    omega
  | succ rounds ih =>
    rw [drain] at h
    split at h
    · cases h
    case h_2 handle depth rest hqueue =>
      obtain hslot | ⟨slot, hslot, h⟩ := bind_eq_error.mp h
      · exact slot_reported hslot
      obtain hschedule | ⟨middle, hmiddle, h⟩ := bind_eq_error.mp h
      · exact scheduleAll_reported hschedule
      obtain ⟨hwalk, hadvances⟩ := walk.round hqueue hslot hmiddle
      refine ih hwalk ?_ h
      have hsame := hadvances.rounds
      rw [hqueue, length_cons] at hrounds
      change middle.queue.length + builder.scheduled.length = rest.length +
        middle.scheduled.length at hsame
      omega

/-- The walk ends with exactly what the nodes below the checkpoint and the roots reach. -/
structure Discovered (source : RequestHeap ι δ) (checkpoint : RequestHeapCheckpoint)
    (roots : List RuntimeValue) (builder : RollbackRebaseBuilder) : Prop where
  reached : ∀ handle, handle ∈ builder.scheduled ↔
    handle ∈ source.Reached (source.starts checkpoint roots)
  resolves : ∀ handle ∈ builder.scheduled, source.Resolves handle
  suffixNodup : builder.suffixSources.Nodup
  suffix : ∀ handle, handle ∈ builder.suffixSources ↔
    handle ∈ builder.scheduled ∧ checkpoint.len ≤ handle.index
  mapped : ∀ handle target, builder.mapped.get? handle = some target ↔
    (source.PreCheckpoint checkpoint handle ∧ target = handle) ∨
      ∃ k, builder.suffixSources[k]? = some handle ∧
        target = source.destinationAt (checkpoint.len + k)

variable {roots : List RuntimeValue}

theorem discover_spec (h : discover source checkpoint roots = .ok builder) :
    Discovered source checkpoint roots builder := by
  obtain ⟨first, hfirst, h⟩ := bind_eq_ok.mp h
  obtain ⟨second, hsecond, h⟩ := bind_eq_ok.mp h
  have hstart : ∀ handle ∈ source.starts checkpoint roots,
      handle ∈ source.Reached (source.starts checkpoint roots) :=
        fun handle hmem => ⟨handle, hmem, .refl⟩
  obtain ⟨walk, -, hinit⟩ := scheduleAll_walk
    (walk_new source checkpoint (source.starts checkpoint roots) ∅)
    (fun handle hmem => hstart handle (.inl (mem_prefixHandles.mp hmem))) hfirst
  have hroot : ∀ handle, handle ∈ roots.filterMap asHeapHandle ↔
    RuntimeValue.heap handle ∈ roots := by
    intro handle
    simp [asHeapHandle_eq_some]
  obtain ⟨walk, hadvances, hroots⟩ := scheduleAll_walk walk
    (fun handle hmem => hstart handle (.inr ((hroot handle).mp hmem))) hsecond
  obtain ⟨walk, hgrows, hqueue⟩ := drain_walk walk h
  refine ⟨fun handle => ⟨walk.reached handle, ?_⟩, walk.resolves, walk.suffixNodup, walk.suffix,
    walk.mapped⟩
  rintro ⟨start, hmem, hpath⟩
  induction hpath with
  | refl =>
    obtain hpre | hmem := hmem
    · exact hgrows (hadvances.grows (hinit (mem_prefixHandles.mpr hpre)))
    · exact hgrows (hroots ((hroot start).mpr hmem))
  | tail _ hedge ih =>
    obtain hempty | hqueued | hchildren := walk.closed _ ih
    · exact absurd hempty (Set.notMem_empty _)
    · simp [hqueue] at hqueued
    · exact hchildren _ hedge

theorem discover_reported (h : discover source checkpoint roots = .error failure) :
    failure.Reported := by
  obtain hfirst | ⟨first, hfirst, h⟩ := bind_eq_error.mp h
  · exact scheduleAll_reported hfirst
  obtain hsecond | ⟨second, hsecond, h⟩ := bind_eq_error.mp h
  · exact scheduleAll_reported hsecond
  have hseed : ∀ handle, handle ∈ source.Reached Set.univ := fun handle => ⟨handle, trivial, .refl⟩
  obtain ⟨walk, hadvances, -⟩ := scheduleAll_walk (walk_new source checkpoint Set.univ ∅)
    (fun handle _ => hseed handle) hfirst
  obtain ⟨walk, hadvances', -⟩ := scheduleAll_walk walk (fun handle _ => hseed handle) hsecond
  have hrounds := (hadvances.trans hadvances').rounds
  refine drain_reported walk ?_ h
  change second.queue.length + 0 = 0 + second.scheduled.length at hrounds
  omega

/-- A kept suffix fits behind the checkpoint: its nodes were there before. -/
theorem Discovered.length_le (found : Discovered source checkpoint roots builder)
    (hlen : checkpoint.len ≤ source.nodes.length) :
    checkpoint.len + builder.suffixSources.length ≤ source.nodes.length := by
  have hnodup : (prefixHandles source checkpoint ++ builder.suffixSources).Nodup := by
    refine nodup_append.mpr ⟨prefixHandles_nodup, found.suffixNodup, fun a ha b hb heq => ?_⟩
    have hbelow := (mem_prefixHandles.mp ha).2
    have habove := ((found.suffix b).mp hb).2
    subst heq
    omega
  have hresolves : ∀ handle ∈ prefixHandles source checkpoint ++ builder.suffixSources,
      source.Resolves handle := by
    intro handle hmem
    obtain hmem | hmem := mem_append.mp hmem
    · exact (mem_prefixHandles.mp hmem).1
    · exact found.resolves handle ((found.suffix handle).mp hmem).1
  have hle := length_le_of_nodup hnodup hresolves
  rw [length_append, prefixHandles, length_mapIdx, List.length_take, min_eq_left hlen] at hle
  exact hle

/-! ## The prepared nodes -/

variable {prepared : PreparedRequestHeapRollback ι δ}

/-- What a preparation consists of: the nodes below the checkpoint in place, then the kept
ones in the order of the walk. -/
structure Prepares (source : RequestHeap ι δ) (checkpoint : RequestHeapCheckpoint)
    (roots : List RuntimeValue) (builder : RollbackRebaseBuilder)
    (prepared : PreparedRequestHeapRollback ι δ) : Prop where
  length : prepared.nodes.length = checkpoint.len + builder.suffixSources.length
  kept : ∀ index < checkpoint.len, prepared.nodes[index]? =
    source.nodes[index]?.map fun slot => slot.rebased slot.generation (rebaseOf builder.mapped)
  moved : ∀ k handle, builder.suffixSources[k]? = some handle →
    ∃ slot, source.slot handle = .ok slot ∧
    prepared.nodes[checkpoint.len + k]? =
      some (slot.rebased (source.destinationAt (checkpoint.len + k)).generation
        (rebaseOf builder.mapped))
  roots : prepared.rebasedRoots = roots.map (renameValue (rebaseOf builder.mapped))
  count : prepared.stats.nodeCount = prepared.nodes.length
  total : prepared.stats.estimatedBytes =
    prepared.nodes.foldl (fun total slot => satAdd total slot.estimatedBytes) 0
  totalFits : prepared.stats.estimatedBytes ≤ source.limits.maxEstimatedBytes

section

variable (found : Discovered source checkpoint roots builder)
include found

/-- The new handle of the k-th kept node. -/
theorem Discovered.mapped_suffix {k : Nat}
    (hk : builder.suffixSources[k]? = some handle) :
    builder.mapped.get? handle = some (source.destinationAt (checkpoint.len + k)) :=
  (found.mapped _ _).mpr (.inr ⟨k, hk, rfl⟩)

theorem Discovered.rebaseOf_suffix {k : Nat}
    (hk : builder.suffixSources[k]? = some handle) :
    rebaseOf builder.mapped handle = source.destinationAt (checkpoint.len + k) := by
  rw [rebaseOf, found.mapped_suffix hk]
  rfl

theorem Discovered.rebaseOf_pre
    (hpre : source.PreCheckpoint checkpoint handle) : rebaseOf builder.mapped handle = handle := by
  rw [rebaseOf, (found.mapped handle handle).mpr (.inl ⟨hpre, rfl⟩)]
  rfl

end

theorem rebaseSuffixSlot_eq {slot' : HeapSlot ι δ}
    (hmapped : builder.mapped.get? handle = some target)
    (h : rebaseSuffixSlot source builder handle = .ok slot') :
    ∃ slot, source.slot handle = .ok slot ∧
      slot' = slot.rebased target.generation (rebaseOf builder.mapped) := by
  obtain ⟨slot, hslot, h⟩ := bind_eq_ok.mp h
  rw [hmapped] at h
  obtain ⟨rewritten, hrewritten, h⟩ := bind_eq_ok.mp h
  cases h
  rw [rewriteHeapSlot_eq hrewritten]
  exact ⟨slot, hslot, rfl⟩

theorem prepare_spec (hlen : checkpoint.len ≤ source.nodes.length)
    (found : Discovered source checkpoint roots builder)
    (h : prepare source checkpoint builder roots = .ok prepared) :
    Prepares source checkpoint roots builder prepared := by
  obtain ⟨kept, hkept, h⟩ := bind_eq_ok.mp h
  obtain ⟨moved, hmoved, h⟩ := bind_eq_ok.mp h
  simp only at h
  split at h
  · cases h
  rename_i hfits
  obtain ⟨rebased, hrebased, h⟩ := bind_eq_ok.mp h
  cases h
  have hnodes := mapM_eq_map hkept fun slot _ _ => rewriteHeapSlot_eq
  have hkeptLength : kept.length = checkpoint.len := by
    rw [hnodes, length_map, List.length_take, min_eq_left hlen]
  have hall := forall₂_of_mapM hmoved
  refine ⟨?_, fun index hindex => ?_, fun k handle hk => ?_, ?_, rfl, rfl, Nat.not_lt.mp hfits⟩
  · rw [length_append, hkeptLength, hall.length_eq]
  · rw [List.getElem?_append_left (by omega), hnodes, List.getElem?_map,
      List.getElem?_take_of_lt hindex]
  · obtain ⟨hlt, hget⟩ := List.getElem?_eq_some_iff.mp hk
    have hlt' : k < moved.length := hall.length_eq ▸ hlt
    have hslot := hall.get hlt hlt'
    rw [get_eq_getElem, hget] at hslot
    obtain ⟨slot, hsource, heq⟩ := rebaseSuffixSlot_eq (found.mapped_suffix hk) hslot
    refine ⟨slot, hsource, ?_⟩
    rw [getElem?_append_right (by omega), hkeptLength, Nat.add_sub_cancel_left,
      getElem?_eq_getElem hlt', ← heq]
    rfl
  · exact mapM_eq_map hrebased fun value _ _ => rewriteRuntimeValue_eq

theorem prepare_reported (found : Discovered source checkpoint roots builder)
    (h : prepare source checkpoint builder roots = .error failure) : failure.Reported := by
  obtain hkept | ⟨kept, -, h⟩ := bind_eq_error.mp h
  · obtain ⟨slot, -, hslot⟩ := mapM_eq_error hkept
    exact rewriteHeapSlot_reported hslot
  obtain hmoved | ⟨moved, -, h⟩ := bind_eq_error.mp h
  · obtain ⟨handle, hmem, hfailed⟩ := mapM_eq_error hmoved
    obtain ⟨k, hk⟩ := getElem?_of_mem hmem
    refine slot_bind_reported hfailed fun slot _ hrest => ?_
    rw [found.mapped_suffix hk] at hrest
    obtain hslot | ⟨_, _, hok⟩ := bind_eq_error.mp hrest
    · exact rewriteHeapSlot_reported hslot
    · cases hok
  simp only at h
  split at h
  · exact ⟨_, (error.inj h).symm⟩
  obtain hroots | ⟨_, _, h⟩ := bind_eq_error.mp h
  · obtain ⟨value, -, hvalue⟩ := mapM_eq_error hroots
    exact rewriteRuntimeValue_reported hvalue
  · cases h

/-! ## The two graphs -/

section

variable (found : Discovered source checkpoint roots builder)
variable (prepares : Prepares source checkpoint roots builder prepared)

include found prepares

theorem slot_rebase (hmem : handle ∈ builder.scheduled) (hslot : source.slot handle = .ok slot) :
    (source.commitPreparedRollbackRebase prepared).slot (rebaseOf builder.mapped handle) =
      .ok (slot.rebased (rebaseOf builder.mapped handle).generation (rebaseOf builder.mapped)) := by
  obtain ⟨hepoch, hnode, hgeneration⟩ := slot_eq_ok.mp hslot
  by_cases hindex : handle.index < checkpoint.len
  · rw [found.rebaseOf_pre ⟨⟨slot, hslot⟩, hindex⟩]
    refine slot_eq_ok.mpr ⟨hepoch, ?_, rfl⟩
    change prepared.nodes[handle.index]? = _
    rw [prepares.kept handle.index hindex, hnode, hgeneration.symm]
    rfl
  obtain ⟨k, hk⟩ := getElem?_of_mem ((found.suffix handle).mpr ⟨hmem, Nat.not_lt.mp hindex⟩)
  obtain ⟨slot', hslot', hmoved⟩ := prepares.moved k handle hk
  obtain rfl := ok.inj (hslot.symm.trans hslot')
  rw [found.rebaseOf_suffix hk]
  exact slot_eq_ok.mpr ⟨rfl, hmoved, rfl⟩

variable {other : HeapHandle}

/-- Every handle of the new heap comes from a scheduled one. -/
theorem exists_rebase (h : (source.commitPreparedRollbackRebase prepared).Resolves other) :
    ∃ handle ∈ builder.scheduled, rebaseOf builder.mapped handle = other := by
  obtain ⟨slot', hslot'⟩ := h
  obtain ⟨hepoch, hnode, hgeneration⟩ := slot_eq_ok.mp hslot'
  change prepared.nodes[other.index]? = some slot' at hnode
  by_cases hindex : other.index < checkpoint.len
  · rw [prepares.kept other.index hindex] at hnode
    obtain ⟨slot, hslot, rfl⟩ := Option.map_eq_some_iff.mp hnode
    have hpre : source.PreCheckpoint checkpoint other :=
      ⟨⟨slot, slot_eq_ok.mpr ⟨hepoch, hslot, hgeneration⟩⟩, hindex⟩
    exact ⟨other, (found.reached other).mpr ⟨other, .inl hpre, .refl⟩, found.rebaseOf_pre hpre⟩
  have hlt := (List.getElem?_eq_some_iff.mp hnode).1
  rw [prepares.length] at hlt
  obtain ⟨k, hk⟩ : ∃ k, other.index = checkpoint.len + k := ⟨other.index - checkpoint.len, by omega⟩
  have hsuffix : k < builder.suffixSources.length := by omega
  have hget := getElem?_eq_getElem hsuffix
  obtain ⟨slot, -, hmoved⟩ := prepares.moved k _ hget
  rw [hk, hmoved] at hnode
  cases hnode
  refine ⟨_, ((found.suffix _).mp (getElem_mem hsuffix)).1, ?_⟩
  rw [found.rebaseOf_suffix hget]
  obtain ⟨index, generation, epoch⟩ := other
  obtain rfl : index = checkpoint.len + k := hk
  obtain rfl : epoch = source.epoch := hepoch
  obtain rfl : _ = generation := hgeneration
  rfl

omit prepares in
theorem rebase_injOn :
    Set.InjOn (rebaseOf builder.mapped) {handle | handle ∈ builder.scheduled} := by
  -- Handles below the checkpoint stay below it; the others differ in their place behind it.
  have hplace : ∀ handle ∈ builder.scheduled,
      (rebaseOf builder.mapped handle = handle ∧ handle.index < checkpoint.len) ∨
        ∃ k, builder.suffixSources[k]? = some handle ∧
          (rebaseOf builder.mapped handle).index = checkpoint.len + k := by
    intro handle hmem
    by_cases hindex : handle.index < checkpoint.len
    · exact .inl ⟨found.rebaseOf_pre ⟨found.resolves handle hmem, hindex⟩, hindex⟩
    obtain ⟨k, hk⟩ := getElem?_of_mem ((found.suffix handle).mpr ⟨hmem, Nat.not_lt.mp hindex⟩)
    exact .inr ⟨k, hk, by rw [found.rebaseOf_suffix hk]; rfl⟩
  intro a ha b hb heq
  obtain ⟨hrebase, hindex⟩ | ⟨k, hk, hindex⟩ := hplace a ha
  · obtain ⟨hrebase', -⟩ | ⟨k', hk', hindex'⟩ := hplace b hb
    · rw [← hrebase, heq, hrebase']
    rw [← heq, hrebase] at hindex'
    omega
  obtain ⟨hrebase', hindex'⟩ | ⟨k', hk', hindex'⟩ := hplace b hb
  · rw [heq, hrebase'] at hindex
    omega
  obtain rfl : k = k' := by
    rw [heq] at hindex
    omega
  exact Option.some.inj (hk.symm.trans hk')

theorem edge_rebase (hmem : handle ∈ builder.scheduled) :
    (source.commitPreparedRollbackRebase prepared).Edge (rebaseOf builder.mapped handle) other ↔
      ∃ child, source.Edge handle child ∧ other = rebaseOf builder.mapped child := by
  obtain ⟨slot, hslot⟩ := found.resolves handle hmem
  have hrebased := slot_rebase found prepares hmem hslot
  constructor
  · rintro ⟨slot', hslot', hchild⟩
    obtain rfl := ok.inj (hrebased.symm.trans hslot')
    obtain ⟨child, hold, rfl⟩ := mem_childHandles_rename.mp hchild
    exact ⟨child, ⟨slot, hslot, hold⟩, rfl⟩
  rintro ⟨child, ⟨slot', hslot', hchild⟩, rfl⟩
  obtain rfl := ok.inj (hslot.symm.trans hslot')
  exact ⟨_, hrebased, mem_childHandles_rename.mpr ⟨child, hchild, rfl⟩⟩

theorem preCheckpoint_rebase :
    (source.commitPreparedRollbackRebase prepared).PreCheckpoint checkpoint other ↔
      source.PreCheckpoint checkpoint other := by
  constructor
  · rintro ⟨hresolves, hindex⟩
    obtain ⟨handle, hmem, rfl⟩ := exists_rebase found prepares hresolves
    by_cases hbelow : handle.index < checkpoint.len
    · have hpre : source.PreCheckpoint checkpoint handle := ⟨found.resolves handle hmem, hbelow⟩
      rwa [found.rebaseOf_pre hpre]
    obtain ⟨k, hk⟩ := getElem?_of_mem ((found.suffix handle).mpr ⟨hmem, Nat.not_lt.mp hbelow⟩)
    rw [found.rebaseOf_suffix hk] at hindex
    exact absurd hindex (Nat.not_lt.mpr (Nat.le_add_right _ _))
  intro hpre
  obtain ⟨slot, hslot⟩ := hpre.1
  have hmem : other ∈ builder.scheduled := (found.reached other).mpr ⟨other, .inl hpre, .refl⟩
  have hrebased := slot_rebase found prepares hmem hslot
  rw [found.rebaseOf_pre hpre] at hrebased
  exact ⟨⟨_, hrebased⟩, hpre.2⟩

theorem mem_starts_rebase :
    other ∈ (source.commitPreparedRollbackRebase prepared).starts checkpoint prepared.rebasedRoots ↔
      ∃ start ∈ source.starts checkpoint roots, rebaseOf builder.mapped start = other := by
  constructor
  · rintro (hpre | hroot)
    · rw [preCheckpoint_rebase found prepares] at hpre
      exact ⟨other, .inl hpre, found.rebaseOf_pre hpre⟩
    rw [prepares.roots] at hroot
    obtain ⟨value, hvalue, heq⟩ := mem_map.mp hroot
    cases value with
    | heap start => exact ⟨start, .inr hvalue, RuntimeValue.heap.inj heq⟩
    | null | bool _ | number _ | date _ | string _ | actorRef _ => cases heq
  rintro ⟨start, hpre | hroot, rfl⟩
  · rw [found.rebaseOf_pre hpre]
    exact .inl ((preCheckpoint_rebase found prepares).mpr hpre)
  refine .inr ?_
  rw [prepares.roots]
  exact mem_map.mpr ⟨.heap start, hroot, rfl⟩

theorem mem_reached_rebase :
    other ∈ (source.commitPreparedRollbackRebase prepared).Reached
        ((source.commitPreparedRollbackRebase prepared).starts checkpoint prepared.rebasedRoots) ↔
      ∃ handle ∈ source.Reached (source.starts checkpoint roots), rebaseOf builder.mapped handle =
        other := by
  constructor
  · rintro ⟨start, hstart, hpath⟩
    induction hpath with
    | refl =>
      obtain ⟨start', hstart', rfl⟩ := (mem_starts_rebase found prepares).mp hstart
      exact ⟨start', ⟨start', hstart', .refl⟩, rfl⟩
    | tail _ hedge ih =>
      obtain ⟨handle, hhandle, rfl⟩ := ih
      obtain ⟨child, hchild, rfl⟩ :=
        (edge_rebase found prepares ((found.reached handle).mpr hhandle)).mp hedge
      obtain ⟨start', hstart', hpath'⟩ := hhandle
      exact ⟨child, ⟨start', hstart', hpath'.tail hchild⟩, rfl⟩
  rintro ⟨handle, ⟨start, hstart, hpath⟩, rfl⟩
  refine ⟨rebaseOf builder.mapped start,
    (mem_starts_rebase found prepares).mpr ⟨start, hstart, rfl⟩, ?_⟩
  induction hpath with
  | refl => exact .refl
  | tail hbefore hedge ih =>
    refine ih.tail ((edge_rebase found prepares ?_).mpr ⟨_, hedge, rfl⟩)
    exact (found.reached _).mpr ⟨start, hstart, hbefore⟩

end

end RollbackRebaseBuilder

end

namespace RequestHeap

/-- `rebase` carries what `starts` reach in one heap onto what `starts'` reach in the
other, one to one, node by node, with the identities kept beside each node. -/
structure GraphIso (source target : RequestHeap ι δ) (starts starts' : Set HeapHandle)
    (rebase : HeapHandle → HeapHandle) : Prop where
  bijective : Set.BijOn rebase (source.Reached starts) (target.Reached starts')
  slots : ∀ handle ∈ source.Reached starts, ∃ slot slot', source.slot handle = .ok slot ∧
    target.slot (rebase handle) = .ok slot' ∧ slot'.node = slot.node.rename rebase ∧
    slot'.carriers = slot.carriers

/-- Prepare a rebase and install it. -/
def rollbackRebase (checkpoint : RequestHeapCheckpoint) (explicitRoots : List RuntimeValue) :
    Mut (RequestHeap ι δ) RollbackRebaseError (List RuntimeValue) := do
  let prepared ← Mut.read (prepareRollbackRebase checkpoint explicitRoots)
  Mut.modify (commitPreparedRollbackRebase prepared)
  pure prepared.rebasedRoots

variable {source : RequestHeap ι δ} {checkpoint : RequestHeapCheckpoint} {roots : List RuntimeValue}

theorem prepareRollbackRebase_ok {prepared : PreparedRequestHeapRollback ι δ}
    (h : source.prepareRollbackRebase checkpoint roots = .ok prepared) :
    checkpoint.len ≤ source.nodes.length ∧
      ∃ builder, discover source checkpoint roots = .ok builder ∧
        prepare source checkpoint builder roots = .ok prepared := by
  unfold prepareRollbackRebase at h
  split at h
  · cases h
  case isFalse hlen =>
    split at h
    case h_1 prepared' hok =>
      cases h
      obtain ⟨builder, hbuilder, hprepare⟩ := bind_eq_ok.mp hok
      exact ⟨Nat.not_lt.mp hlen, builder, hbuilder, hprepare⟩
    · cases h

theorem prepareRollbackRebase_reported {error : RollbackRebaseError}
    (h : source.prepareRollbackRebase checkpoint roots = .error error) :
    ∃ reported, error = .resourceLimit reported ∨ error = .invalidSource reported := by
  unfold prepareRollbackRebase at h
  split at h
  · exact ⟨_, .inr (Except.error.inj h).symm⟩
  split at h
  · cases h
  case h_2 failure hfailed =>
    cases h
    have hreported : failure.Reported := by
      obtain hdiscover | ⟨builder, hbuilder, hprepare⟩ := bind_eq_error.mp hfailed
      · exact discover_reported hdiscover
      · exact prepare_reported (discover_spec hbuilder) hprepare
    obtain ⟨reported, rfl⟩ := hreported
    cases reported with
    | resourceLimitExceeded reason limit current requestedDelta => exact ⟨_, .inl rfl⟩
    | invalidArtifact _ | decode _ | decodeTarget _ _ | unsupported _ | recoverable _ _ _ =>
      exact ⟨_, .inr rfl⟩

/-- Whatever the heap, the checkpoint and the roots are: a rebase that succeeds keeps the
handles below the checkpoint and exactly the graph that they and the roots reach, with
every stored handle valid. One that fails reports an error and leaves the heap alone. -/
theorem rollback_rebase_keeps_graph (source : RequestHeap ι δ) (checkpoint : RequestHeapCheckpoint)
    (roots : List RuntimeValue) (result : Except RollbackRebaseError (List RuntimeValue))
    (target : RequestHeap ι δ) (h : rollbackRebase checkpoint roots source = (result, target)) :
    (∀ rebasedRoots, result = .ok rebasedRoots →
      (∀ handle, source.PreCheckpoint checkpoint handle → target.Resolves handle) ∧
      (∃ rebase, (∀ handle, source.PreCheckpoint checkpoint handle → rebase handle = handle) ∧
        rebasedRoots = roots.map (renameValue rebase) ∧
        GraphIso source target (source.starts checkpoint roots)
        (target.starts checkpoint rebasedRoots) rebase) ∧
      (∀ handle, target.Resolves handle →
        handle ∈ target.Reached (target.starts checkpoint rebasedRoots)) ∧
      (∀ handle child, target.Edge handle child → target.Resolves child)) ∧
    (∀ error, result = .error error → target = source ∧
      ∃ reported, error = .resourceLimit reported ∨ error = .invalidSource reported) := by
  obtain ⟨error, rfl, hfailed, rfl⟩ | ⟨prepared, hprepared, h⟩ := Mut.read_cases h
  · refine ⟨fun _ hok => (nomatch hok), fun error' heq => ?_⟩
    cases heq
    exact ⟨rfl, prepareRollbackRebase_reported hfailed⟩
  rw [Mut.modify_bind] at h
  cases h
  obtain ⟨hlen, builder, hdiscover, hprepare⟩ := prepareRollbackRebase_ok hprepared
  have found := discover_spec hdiscover
  have prepares := prepare_spec hlen found hprepare
  refine ⟨fun rebasedRoots hroots => ?_, fun _ herror => (nomatch herror)⟩
  cases hroots
  have hcomes : ∀ handle, (source.commitPreparedRollbackRebase prepared).Resolves handle →
      ∃ old ∈ source.Reached (source.starts checkpoint roots), rebaseOf builder.mapped old =
        handle := by
    intro handle hresolves
    obtain ⟨old, hold, hrebase⟩ := exists_rebase found prepares hresolves
    exact ⟨old, (found.reached old).mp hold, hrebase⟩
  have hslots : ∀ handle ∈ source.Reached (source.starts checkpoint roots), ∃ slot,
      source.slot handle = .ok slot ∧
        (source.commitPreparedRollbackRebase prepared).slot (rebaseOf builder.mapped handle) =
          .ok (slot.rebased (rebaseOf builder.mapped handle).generation
            (rebaseOf builder.mapped)) := by
    intro handle hhandle
    have hmem := (found.reached handle).mpr hhandle
    obtain ⟨slot, hslot⟩ := found.resolves handle hmem
    exact ⟨slot, hslot, slot_rebase found prepares hmem hslot⟩
  refine ⟨fun handle hpre =>
    ?_, ⟨rebaseOf builder.mapped, fun handle => found.rebaseOf_pre, prepares.roots,
    ⟨⟨fun handle hhandle => ?_, fun a ha b hb => ?_, fun other hother => ?_⟩, fun handle hhandle =>
      ?_⟩⟩,
    fun handle hresolves => ?_, fun handle child hedge => ?_⟩
  · exact ((preCheckpoint_rebase found prepares).mpr hpre).1
  · exact (mem_reached_rebase found prepares).mpr ⟨handle, hhandle, rfl⟩
  · exact rebase_injOn found ((found.reached a).mpr ha) ((found.reached b).mpr hb)
  · exact (mem_reached_rebase found prepares).mp hother
  · obtain ⟨slot, hslot, hrebased⟩ := hslots handle hhandle
    exact ⟨slot, _, hslot, hrebased, rfl, rfl⟩
  · exact (mem_reached_rebase found prepares).mpr (hcomes handle hresolves)
  obtain ⟨slot, hslot, -⟩ := id hedge
  obtain ⟨old, hold, rfl⟩ := hcomes handle ⟨slot, hslot⟩
  obtain ⟨oldChild, holdChild, rfl⟩ :=
    (edge_rebase found prepares ((found.reached old).mpr hold)).mp hedge
  obtain ⟨start, hstart, hpath⟩ := hold
  obtain ⟨_, -, hresolves⟩ := hslots oldChild ⟨start, hstart, hpath.tail holdChild⟩
  exact ⟨_, hresolves⟩

/-- An array below the checkpoint that points past a dropped node. -/
def forwardHeap : RequestHeap Unit Unit :=
  ⟨[⟨0, 48, .array [.heap ⟨2, 0, 0⟩], .array [none]⟩, ⟨0, 32, .bytes [], .none⟩,
    ⟨0, 33, .bytes [7], .none⟩],
    ⟨10, 1000, 10, 10, 1000⟩, ⟨3, 113, 0, 0, 0⟩, 0⟩

theorem rollback_rebase_keeps_graph_forward : ∃ target,
    rollbackRebase ⟨1, ⟨1, 48, 0, 0, 0⟩⟩ [.heap ⟨2, 0, 0⟩] forwardHeap =
      (.ok [.heap ⟨1, 1, 0⟩], target) ∧
      target.Resolves ⟨0, 0, 0⟩ := by
  have hrun : rollbackRebase ⟨1, ⟨1, 48, 0, 0, 0⟩⟩ [.heap ⟨2, 0, 0⟩] forwardHeap =
      (.ok [.heap ⟨1, 1, 0⟩], _) := Prod.ext (by rfl) rfl
  obtain ⟨hinit, -⟩ := (rollback_rebase_keeps_graph _ _ _ _ _ hrun).1 _ rfl
  exact ⟨_, hrun, hinit ⟨0, 0, 0⟩ ⟨⟨_, rfl⟩, by decide⟩⟩

end RequestHeap

end Skiff.Heap
