import Skiff.Runtime.VmHeap.Outcomes
import Skiff.Runtime.VmHeap.Release

/-!
# The handle tables

Whatever is called, no two live handles share a node of the arena: a handle is made for a node that
is new or that no handle is on, and a node that a release gave up is refused.
-/

namespace Skiff.Runtime

open OrdMap

namespace RequestVmHeap

def stale (heapHandle : HeapHandle) : VmHeapError :=
  .invalidHandle .requestHeapRef (encodeHandle 0 heapHandle.index) .staleGenerationOrEpoch

/-- `heap_ref`: the handle of an arena node, made on the first use. -/
def heapRef (heapHandle : HeapHandle) (tag : CompactTypeTag) (flags : ValueFlags) :
    VmHeapM ValueSlot := fun s =>
  match s.handlesByHeap.get? heapHandle with
  | some vmHandle =>
    match s.live.get? vmHandle with
    | none => (.error (stale heapHandle), s)
    | some entry =>
      if entry.compactTypeTag ≠ tag ∨ entry.flags ≠ flags then (.error .invalidValueMetadata, s)
      else (.ok (slotForEntry vmHandle entry), s)
  | none =>
    match s.releasedHeapHandles.get? heapHandle with
    | some vmHandle => (.error (invalidHandle vmHandle .staleGenerationOrEpoch), s)
    | none => registerHandle heapHandle tag flags s

/-- A live handle is on a node, and the table of nodes leads back to it. -/
structure Tables (s : RequestVmHeap) : Prop where
  node : ∀ h entry, s.live.get? h = some entry → ∃ node, s.heap.get entry.heapHandle = .ok node
  byHeap : ∀ h entry, s.live.get? h = some entry → s.handlesByHeap.get? entry.heapHandle = some h

variable {s t : RequestVmHeap}

theorem Tables.separate (hs : s.Tables) : s.Separate := by
  intro h h' entry entry' hentry hentry' heq
  have hfirst := hs.byHeap h entry hentry
  rw [heq, hs.byHeap h' entry' hentry'] at hfirst
  exact (Option.some.inj hfirst).symm

theorem tables_new (domain epoch : Nat) (limits : RequestHeapLimits)
    (resources : Option RequestResourceTable) (ledger : Option MemoryLedger) :
    (RequestVmHeap.new domain epoch limits resources ledger).Tables :=
  ⟨fun _ _ hlive => (Option.some_ne_none _ hlive.symm).elim,
    fun _ _ hlive => (Option.some_ne_none _ hlive.symm).elim⟩

/-- Other parts of the heap do not matter, as long as the nodes stay. -/
theorem Tables.frame (hs : s.Tables) (hlive : t.live = s.live)
    (hhandles : t.handlesByHeap = s.handlesByHeap) (hheap : RequestHeap.Grows s.heap t.heap) :
    t.Tables := by
  constructor
  · intro h entry hentry
    rw [hlive] at hentry
    obtain ⟨node, hnode⟩ := hs.node h entry hentry
    exact hheap.get _ node hnode
  intro h entry hentry
  rw [hlive] at hentry
  rw [hhandles]
  exact hs.byHeap h entry hentry

theorem Tables.same (hs : s.Tables) (hlive : t.live = s.live)
    (hhandles : t.handlesByHeap = s.handlesByHeap) (hheap : t.heap = s.heap) : t.Tables :=
  hs.frame hlive hhandles (hheap ▸ .refl)

/-- An entry may change as long as it stays on its node. -/
theorem Tables.entry (hs : s.Tables) {handle : VmHandle} {entry entry' : LiveEntry}
    (hentry : s.live.get? handle = some entry) (hnode : entry'.heapHandle = entry.heapHandle) :
    ({ s with live := s.live.insert handle entry' } : RequestVmHeap).Tables := by
  constructor
  · intro h found hfound
    obtain ⟨-, rfl⟩ | ⟨-, hfound⟩ := get?_insert_eq_some.mp hfound
    · rw [hnode]
      exact hs.node handle entry hentry
    · exact hs.node h found hfound
  intro h found hfound
  obtain ⟨heq, rfl⟩ | ⟨-, hfound⟩ := get?_insert_eq_some.mp hfound
  · rw [hnode, heq]
    exact hs.byHeap handle entry hentry
  · exact hs.byHeap h found hfound

/-- A handle for a node that no handle is on. -/
theorem Tables.install (hs : s.Tables) {handle : VmHandle} {heapHandle : HeapHandle}
    {node : HeapNode} (hnode : s.heap.get heapHandle = .ok node)
    (hfree : ∀ h entry, s.live.get? h = some entry → entry.heapHandle ≠ heapHandle)
    (tag : CompactTypeTag) (flags : ValueFlags) :
    (s.installHandle handle heapHandle tag flags).Tables := by
  constructor
  · intro h entry hentry
    rw [installHandle] at hentry
    obtain ⟨-, rfl⟩ | ⟨-, hentry⟩ := get?_insert_eq_some.mp hentry
    · exact ⟨node, hnode⟩
    · exact hs.node h entry hentry
  intro h entry hentry
  rw [installHandle, get?_insert] at hentry
  rw [installHandle]
  split at hentry
  case isTrue heq =>
    cases hentry
    rw [heq]
    exact get?_insert_self _ _ _
  case isFalse =>
    rw [get?_insert_of_ne _ _ (hfree h entry hentry)]
    exact hs.byHeap h entry hentry

variable {prepared : PreparedOwnerConsume}

/-- The walk only looks at the live entries. -/
theorem Cascade.frame (hc : Cascade s prepared) (hlive : t.live = s.live) : Cascade t prepared := by
  constructor
  · rw [hlive]
    exact hc.removed
  · rw [hlive]
    exact hc.met
  · exact hc.zero
  · exact hc.nodup

theorem Tables.commit (hs : s.Tables) (hc : Cascade s prepared) :
    (s.commitOwnerConsume prepared).Tables := by
  constructor
  · intro h entry hlive
    obtain ⟨-, found, hfound, rfl⟩ := live_of_commitOwnerConsume hlive
    rw [commitOwnerConsume_heap, setOwners_heapHandle]
    exact hs.node h found hfound
  intro h entry hlive
  obtain ⟨hstays, found, hfound, rfl⟩ := live_of_commitOwnerConsume hlive
  rw [setOwners_heapHandle, get?_handlesByHeap_commitOwnerConsume,
    if_neg (hc.node_stays hs.separate hfound hstays)]
  exact hs.byHeap h found hfound

/-! ## Each operation keeps them -/

/-- However the operation ends, the tables still agree. -/
abbrev KeepsTables {α : Type} (m : VmHeapM α) : Prop := Mut.Keeps Tables m

/-- An update of other parts of the heap. -/
theorem keepsTables_modify {g : RequestVmHeap → RequestVmHeap}
    (h : ∀ s, (g s).live = s.live ∧ (g s).handlesByHeap = s.handlesByHeap ∧ (g s).heap = s.heap) :
    KeepsTables (Mut.modify g : VmHeapM Unit) :=
  .modify fun s hs => hs.same (h s).1 (h s).2.1 (h s).2.2

theorem keepsTables_syncMemory : KeepsTables syncMemory := by
  refine .intro fun s hs => ?_
  obtain ⟨ledger, ht, -⟩ := syncMemory_cases (s := s) (t := (syncMemory s).2) rfl
  rw [ht]
  exact hs.same rfl rfl rfl

theorem keepsTables_accountStructural (delta : Nat) : KeepsTables (accountStructural delta) :=
  (keepsTables_modify fun _ => by exact ⟨rfl, rfl, rfl⟩).bind fun _ => keepsTables_syncMemory

theorem keepsTables_releaseStructural (delta : Nat) : KeepsTables (releaseStructural delta) :=
  .read_bind fun _ => (keepsTables_modify fun _ => by exact ⟨rfl, rfl, rfl⟩).bind fun _ =>
    keepsTables_syncMemory

theorem keepsTables_accountBoundaryStaging (roots : Nat) :
    KeepsTables (accountBoundaryStaging roots) :=
  (keepsTables_modify fun _ => by exact ⟨rfl, rfl, rfl⟩).bind fun _ => keepsTables_syncMemory

theorem keepsTables_releaseBoundaryStaging (roots : Nat) :
    KeepsTables (releaseBoundaryStaging roots) :=
  .read_bind fun _ => (keepsTables_modify fun _ => by exact ⟨rfl, rfl, rfl⟩).bind fun _ =>
    keepsTables_syncMemory

/-- A registration: nothing but a serial is used up, or the handle is installed. -/
theorem registerHandle_tables {heapHandle : HeapHandle} {tag : CompactTypeTag} {flags : ValueFlags}
    (hs : s.Tables)
    (hfree : ∀ h entry, s.live.get? h = some entry → entry.heapHandle ≠ heapHandle) :
    (registerHandle heapHandle tag flags s).2.Tables := by
  cases hnode : s.heap.get heapHandle with
  | error error =>
    have hread : arena .validateLive (s.heap.get heapHandle) =
        .error (mapError .validateLive error) := by
      rw [hnode]
      rfl
    simp only [registerHandle, bind, Mut.bind, Mut.read, hread]
    exact hs
  | ok node =>
    by_cases hserial : s.nextSerial ≤ maxSerial
    · rw [registerHandle_eq tag flags hnode hserial]
      exact (hs.install hnode hfree tag flags).same rfl rfl rfl
    · have hread : arena .validateLive (s.heap.get heapHandle) = .ok node := by
        rw [hnode]
        rfl
      have hserial' : s.ensureSerialAvailable .validateLive =
          .error (.resourceLimitExceeded .validateLive maxSerial s.nextSerial 1) :=
        if_pos (Nat.lt_of_not_le hserial)
      simp only [registerHandle, allocSerial, Mut.read, bind, Mut.bind, hread, hserial']
      exact hs

theorem keepsTables_heapRef (heapHandle : HeapHandle) (tag : CompactTypeTag) (flags : ValueFlags) :
    KeepsTables (heapRef heapHandle tag flags) := by
  refine .intro fun s hs => ?_
  unfold heapRef
  split
  · split
    · exact hs
    · split
      · exact hs
      · exact hs
  case h_2 hnone =>
    split
    · exact hs
    · refine registerHandle_tables hs fun h entry hentry heq => ?_
      rw [← heq, hs.byHeap h entry hentry] at hnone
      cases hnone

theorem Tables.free (hs : s.Tables) (h : VmHandle) (entry : LiveEntry)
    (hentry : s.live.get? h = some entry) : entry.heapHandle ≠ s.heap.nextHandle := by
  obtain ⟨node, hnode⟩ := hs.node h entry hentry
  exact RequestHeap.ne_nextHandle hnode

variable (operation : VmHeapOperation)

theorem keepsTables_allocate (node : HeapNode)
    (carriers : HeapCarrierLayout) (tag : CompactTypeTag) (flags : ValueFlags)
    (sidecar : Option Sidecar) :
    KeepsTables (allocate operation node carriers tag flags sidecar) := by
  refine .intro fun s hs => ?_
  obtain ⟨ht, -⟩ | ⟨heap, ledger, halloc, -, ht, -⟩ := allocate_cases (s := s)
    (t := (allocate operation node carriers tag flags sidecar s).2) rfl
  · rw [ht]
    exact hs
  · obtain ⟨hgrows, hnode⟩ := RequestHeap.grows_alloc halloc
    have harena : ({ s with heap := heap } : RequestVmHeap).Tables := hs.frame rfl rfl hgrows
    rw [ht]
    exact (harena.install hnode hs.free tag flags).same rfl rfl rfl

theorem keepsTables_updateArena {α : Type} {operation : VmHeapOperation}
    {update : RequestHeap → Except RuntimeError (α × RequestHeap)}
    (hgrows : ∀ heap a heap', update heap = .ok (a, heap') → RequestHeap.Grows heap heap') :
    KeepsTables (updateArena operation update) := by
  refine .intro fun s hs => ?_
  unfold updateArena
  split
  case h_1 a heap hupdate => exact hs.frame rfl rfl (hgrows _ _ _ hupdate)
  case h_2 => exact hs

theorem keepsTables_snapshotShare (source : ValueSlot) : KeepsTables (snapshotShare source) := by
  cases source with
  | requestHeapRef handle tag flags =>
    refine .intro fun s hs => ?_
    cases hentry : s.liveEntry (.requestHeapRef handle tag flags) with
    | error error =>
      simp only [snapshotShare, Mut.read, bind, Mut.bind, hentry]
      exact hs
    | ok entry =>
      obtain ⟨handle', hslot, hlive⟩ := liveEntry_eq_ok hentry
      obtain ⟨rfl, -, -⟩ := ValueSlot.requestHeapRef.inj hslot
      simp only [snapshotShare, Mut.read, bind, Mut.bind, hentry]
      exact hs.entry hlive rfl
  | resourceRef route tag flags => exact .fail _
  | callbackClosureRef handle tag flags => exact .fail _
  | _ => exact .read_bind fun _ => .pure _

theorem keepsTables_transferOwner (source : ValueSlot) : KeepsTables (transferOwner source) := by
  cases source with
  | requestHeapRef handle tag flags =>
    refine .intro fun s hs => ?_
    cases hentry : s.liveEntry (.requestHeapRef handle tag flags) with
    | error error =>
      simp only [transferOwner, Mut.read, bind, Mut.bind, hentry]
      exact hs
    | ok entry =>
      obtain ⟨handle', hslot, hlive⟩ := liveEntry_eq_ok hentry
      obtain ⟨rfl, -, -⟩ := ValueSlot.requestHeapRef.inj hslot
      simp only [transferOwner, Mut.read, bind, Mut.bind, hentry]
      exact hs.entry hlive rfl
  | callbackClosureRef handle tag flags => exact .fail _
  | _ => exact .read_bind fun _ => .pure _

theorem keepsTables_releaseSnapshot (owner : ValueSlot) : KeepsTables (releaseSnapshot owner) := by
  cases owner with
  | requestHeapRef handle tag flags =>
    refine .intro fun s hs => ?_
    cases hprepared : s.prepareOwnerConsume .releaseSnapshot none
        (.requestHeapRef handle tag flags) with
    | error error =>
      simp only [releaseSnapshot, Mut.read, bind, Mut.bind, hprepared]
      exact hs
    | ok prepared =>
      simp only [releaseSnapshot, Mut.read, bind, Mut.bind, hprepared]
      exact hs.commit (cascade_prepareOwnerConsume hprepared)
  | resourceRef route tag flags => exact .fail _
  | callbackClosureRef handle tag flags => exact .fail _
  | _ => exact .pure _

theorem keepsTables_releaseResource (owner : ValueSlot) : KeepsTables (releaseResource owner) := by
  cases owner with
  | resourceRef route tag flags =>
    refine .read_bind fun table => (Mut.Keeps.ofExcept _).bind fun released =>
      (keepsTables_modify fun _ => by exact ⟨rfl, rfl, rfl⟩).bind fun _ => ?_
    split
    · exact .pure _
    · exact .read_bind fun _ =>
        (keepsTables_modify fun _ => by exact ⟨rfl, rfl, rfl⟩).bind fun _ =>
        keepsTables_releaseStructural _
  | _ => exact .fail _

theorem keepsTables_releaseReplacedSlot (slot : ValueSlot) :
    KeepsTables (releaseReplacedSlot slot) := by
  cases slot with
  | requestHeapRef handle tag flags =>
    exact keepsTables_releaseSnapshot (.requestHeapRef handle tag flags)
  | resourceRef route tag flags => exact keepsTables_releaseResource (.resourceRef route tag flags)
  | _ => exact .pure _

theorem keepsTables_allocateCell (payload : ValueSlot)
    (tag : CompactTypeTag) (flags : ValueFlags) (sidecar : Sidecar) :
    KeepsTables (allocateCell operation payload tag flags sidecar) :=
  .read_bind fun _ => .read_bind fun _ => keepsTables_allocate _ _ _ _ _ _

theorem keepsTables_allocSerial : KeepsTables (allocSerial operation) :=
  .read_bind fun _ => .intro fun _ hs => hs.same rfl rfl rfl

theorem keepsTables_allocActorStateRef (actor : ActorRef) (tag : CompactTypeTag)
    (flags : ValueFlags) : KeepsTables (allocActorStateRef actor tag flags) :=
  .read_bind fun _ => (keepsTables_allocSerial _).bind fun _ => .read_bind fun _ =>
    (keepsTables_modify fun _ => by exact ⟨rfl, rfl, rfl⟩).bind fun _ =>
      (keepsTables_accountStructural _).bind fun _ => .pure _

theorem keepsTables_admitResourceRef (route : VmHandle) (tag : CompactTypeTag)
    (flags : ValueFlags) : KeepsTables (admitResourceRef route tag flags) :=
  .read_bind fun _ => (Mut.Keeps.ofExcept _).bind fun _ =>
    (keepsTables_modify fun _ => by exact ⟨rfl, rfl, rfl⟩).bind fun _ =>
      (keepsTables_accountStructural _).bind fun _ => .pure _

/-! ### Containers -/

theorem keepsTables_arrayPushOwned (array value : ValueSlot) :
    KeepsTables (arrayPushOwned array value) := by
  refine .read_bind fun handle => .read_bind fun _ => .read_bind fun _ => .read_bind fun _ =>
    .read_bind fun carrier =>
      (keepsTables_updateArena fun heap _ heap' hupdate => ?_).bind fun _ =>
        (keepsTables_modify fun _ => by exact ⟨rfl, rfl, rfl⟩).bind fun _ => keepsTables_syncMemory
  cases hpush : heap.pushArrayItem handle carrier with
  | error error =>
    rw [hpush] at hupdate
    cases hupdate
  | ok next =>
    rw [hpush] at hupdate
    cases hupdate
    exact RequestHeap.grows_pushArrayItem hpush

theorem keepsTables_mapPutOwned (map key value : ValueSlot) :
    KeepsTables (mapPutOwned map key value) :=
  .read_bind fun _ => .read_bind fun _ => .read_bind fun _ => .read_bind fun _ =>
    .read_bind fun _ => .read_bind fun _ =>
      (keepsTables_updateArena fun _ _ _ hupdate =>
        RequestHeap.grows_setEntry hupdate).bind fun _ =>
        (keepsTables_modify fun _ => by exact ⟨rfl, rfl, rfl⟩).bind fun _ =>
          keepsTables_syncMemory.bind fun _ => .pure _

theorem grows_deleteObjectField {heap heap' : RequestHeap} {handle : HeapHandle} {field : String}
    {deleted : Bool} (h : heap.deleteObjectField handle field = .ok (deleted, heap')) :
    RequestHeap.Grows heap heap' := by
  obtain ⟨node, -, h⟩ := bind_eq_ok.mp h
  split at h
  · cases h
    exact RequestHeap.grows_replaceNode _ _ _
  · cases h
    exact RequestHeap.grows_replaceNode _ _ _
  · cases h

/-- The field goes before the owners do, which are settled already. -/
theorem keeps_detachField (prepared : PreparedOwnerConsume) (handle : HeapHandle) (field : String)
    (value : ValueSlot) :
    Mut.Keeps (fun s => s.Tables ∧ Cascade s prepared) (detachField handle field value) := by
  have hslots : ∀ fields : RequestVmHeap → OrdMap String ValueSlot,
      Mut.Keeps (fun s => s.Tables ∧ Cascade s prepared)
        (Mut.modify (fun s => s.setObjectSlots handle (fields s)) : VmHeapM Unit) :=
    fun fields => .modify fun s hs => ⟨hs.1.same rfl rfl rfl, hs.2.frame rfl⟩
  refine (hslots _).bind fun _ => (Mut.Keeps.onError (.intro fun s hs => ?_) fun error =>
    (hslots _).bind fun _ => .fail error).bind fun deleted => ?_
  · unfold updateArena
    split
    case h_1 a heap hupdate =>
      exact ⟨hs.1.frame rfl rfl (grows_deleteObjectField hupdate), hs.2.frame rfl⟩
    case h_2 => exact hs
  · split
    · exact .pure _
    · exact (hslots _).bind fun _ => (.fail _)

theorem cascade_prepareTakeDenseField {record : ValueSlot} {ordinal : Nat}
    {taken : HeapHandle × String × ValueSlot × PreparedOwnerConsume}
    (h : s.prepareTakeDenseField record ordinal = .ok taken) : Cascade s taken.2.2.2 := by
  obtain ⟨_, -, h⟩ := bind_eq_ok.mp h
  obtain ⟨_, -, h⟩ := bind_eq_ok.mp h
  obtain ⟨_, -, h⟩ := bind_eq_ok.mp h
  split at h
  · cases h
  obtain ⟨found, -, h⟩ := bind_eq_ok.mp h
  split at h
  · cases h
  obtain ⟨_, -, h⟩ := bind_eq_ok.mp h
  obtain ⟨prepared, hprepared, h⟩ := bind_eq_ok.mp h
  cases h
  exact cascade_prepareOwnerConsume hprepared

theorem keepsTables_takeDenseField (record : ValueSlot) (ordinal : Nat) :
    KeepsTables (takeDenseField record ordinal) := by
  refine Mut.Contract.bind (Mut.Contract.read _ fun _ hs => hs) fun taken => ?_
  have hdetach : Mut.Contract
      (fun s => s.Tables ∧ s.prepareTakeDenseField record ordinal = .ok taken)
      (detachField taken.1 taken.2.1 taken.2.2.1) (fun _ s => s.Tables ∧ Cascade s taken.2.2.2)
      Tables :=
    (keeps_detachField taken.2.2.2 taken.1 taken.2.1 taken.2.2.1).consequence
      (fun _ hs => ⟨hs.1, cascade_prepareTakeDenseField hs.2⟩) (fun _ _ hs => hs)
      fun _ hs => hs.1
  have hcommit : Mut.Contract (fun s => s.Tables ∧ Cascade s taken.2.2.2)
      (Mut.modify (fun s => s.commitOwnerConsume taken.2.2.2) : VmHeapM Unit) (fun _ => Tables)
      Tables :=
    Mut.Contract.modify fun _ hs => hs.1.commit hs.2
  exact hdetach.bind fun _ => hcommit.bind fun _ => keepsTables_syncMemory.bind fun _ => .pure _

/-! ### Writable paths -/

theorem keepsTables_storeField (handle : HeapHandle) (field : String) (carrier : RuntimeValue)
    (value : ValueSlot) : KeepsTables (storeField handle field carrier value) :=
  .read_bind fun _ =>
    (keepsTables_updateArena fun _ _ _ hupdate => RequestHeap.grows_setEntry hupdate).bind fun _ =>
      (keepsTables_modify fun _ => by exact ⟨rfl, rfl, rfl⟩).bind fun _ => .pure _

theorem keepsTables_storeItem (handle : HeapHandle) (index : Nat) (carrier : RuntimeValue)
    (value : ValueSlot) : KeepsTables (storeItem handle index carrier value) := by
  refine .read_bind fun old => ?_
  split
  · exact .fail _
  · refine (keepsTables_updateArena fun heap _ heap' hupdate => ?_).bind fun _ =>
      (keepsTables_modify fun _ => by exact ⟨rfl, rfl, rfl⟩).bind fun _ => .pure _
    cases hset : heap.setArrayItem handle index carrier with
    | error error =>
      rw [hset] at hupdate
      cases hupdate
    | ok next =>
      rw [hset] at hupdate
      cases hupdate
      exact RequestHeap.grows_setArrayItem hset

theorem keepsTables_replaceChildSlot (container : ValueSlot) (segment : PinnedWritablePathSegment)
    (value : ValueSlot) : KeepsTables (replaceChildSlot container segment value) := by
  have hfinish : ∀ old : Option ValueSlot,
      KeepsTables (old.elim (pure ()) releaseReplacedSlot >>= fun _ => syncMemory) := by
    intro old
    cases old with
    | none => exact Mut.Keeps.bind (.pure _) fun _ => keepsTables_syncMemory
    | some slot => exact (keepsTables_releaseReplacedSlot slot).bind fun _ => keepsTables_syncMemory
  refine .read_bind fun handle => .read_bind fun carrier => ?_
  cases segment with
  | denseField field => exact (keepsTables_storeField handle field carrier value).bind hfinish
  | arrayIndex index => exact (keepsTables_storeItem handle index carrier value).bind hfinish
  | mapKey key => exact (Mut.Keeps.fail _).bind hfinish

theorem contract_restoreShares {α : Type} (shared : List ValueSlot) (error : VmHeapError)
    (Q : α → RequestVmHeap → Prop) : Mut.Contract Tables (restoreShares shared error) Q Tables :=
  Mut.Contract.bind (Mut.Keeps.each keepsTables_releaseSnapshot shared) fun _ =>
    Mut.Contract.fail error fun _ hs => hs

/-- A new node is free until its handle is there. -/
theorem contract_allocArena (node : HeapNode)
    (carriers : HeapCarrierLayout) :
    Mut.Contract Tables (allocArena operation node carriers)
      (fun handle s => s.Tables ∧
        ∀ h entry, s.live.get? h = some entry → entry.heapHandle ≠ handle) Tables := by
  intro s hs
  unfold allocArena
  split
  case h_1 handle heap halloc =>
    refine ⟨fun a t h => ?_, fun error t h => by cases h⟩
    cases h
    obtain ⟨rfl, -⟩ := RequestHeap.allocNodeWithCarriers_eq_ok halloc
    exact ⟨hs.frame rfl rfl (RequestHeap.grows_alloc halloc).1, hs.free⟩
  case h_2 error _ =>
    refine ⟨fun a t h => (by cases h), fun error t h => ?_⟩
    cases h
    exact hs

theorem contract_registerHandle (heapHandle : HeapHandle) (tag : CompactTypeTag)
    (flags : ValueFlags) : Mut.Contract (fun s => s.Tables ∧
        ∀ h entry, s.live.get? h = some entry → entry.heapHandle ≠ heapHandle)
      (registerHandle heapHandle tag flags) (fun _ => Tables) Tables := by
  intro s hs
  have hafter := @registerHandle_tables s heapHandle tag flags hs.1 hs.2
  refine ⟨fun a t h => ?_, fun error t h => ?_⟩
  · rw [h] at hafter
    exact hafter
  · rw [h] at hafter
    exact hafter

theorem keepsTables_cloneContainer (container : ValueSlot) :
    KeepsTables (cloneContainer container) :=
  .read_bind fun _ => .read_bind fun _ =>
    (Mut.Keeps.each (fun child => (keepsTables_snapshotShare child).bind fun _ =>
      .pure _) _).bind fun _ => .read_bind fun _ => .read_bind fun _ =>
    Mut.Contract.bind
      (Mut.Contract.onError (contract_allocArena _ _ _) fun _ => contract_restoreShares _ _ _)
      fun _ => Mut.Contract.bind
        (Mut.Contract.onError (contract_registerHandle _ _ _) fun _ => contract_restoreShares _ _ _)
        fun _ => Mut.Keeps.bind (keepsTables_modify fun _ => by exact ⟨rfl, rfl, rfl⟩) fun _ =>
          keepsTables_syncMemory.bind fun _ => .pure _

theorem keepsTables_copyPath (segments : List PinnedWritablePathSegment)
    (containers : List ValueSlot) (current value : ValueSlot) :
    KeepsTables (copyPath segments containers current value) := by
  fun_induction copyPath segments containers current value with
  | case1 => exact .pure _
  | case2 => exact keepsTables_replaceChildSlot _ _ _
  | case3 segment next segments container containers current value ih =>
    exact (keepsTables_cloneContainer container).bind fun replacement =>
      (keepsTables_replaceChildSlot current segment replacement).bind fun _ => ih replacement
  | case4 => exact .fail _

theorem keepsTables_commitWritablePath (prepared : WritablePathPreparation) (value : ValueSlot) :
    KeepsTables (commitWritablePath prepared value) := by
  refine .read_bind fun _ => .read_bind fun _ => .read_bind fun exclusive => ?_
  split
  · unfold commitInPlace
    split
    · exact (keepsTables_replaceChildSlot _ _ _).bind fun _ => .pure _
    · exact .fail _
    · exact .fail _
  · exact (keepsTables_cloneContainer _).bind fun _ => (keepsTables_copyPath _ _ _ _).bind fun _ =>
      .pure _

/-! ## Every run -/

/-- A call of a mutating operation. -/
inductive HeapCall where
  | heapRef (heapHandle : HeapHandle) (tag : CompactTypeTag) (flags : ValueFlags)
  | allocateArray (elements : List ValueSlot) (tag : CompactTypeTag) (flags : ValueFlags)
  | allocateMap (entries : List VmMapEntry) (tag : CompactTypeTag) (flags : ValueFlags)
  | allocateRecord (fields : List VmRecordField) (tag : CompactTypeTag) (flags : ValueFlags)
  | allocateRepresentation (payload : ValueSlot) (tag : CompactTypeTag) (flags : ValueFlags)
  | allocateLocalInterface (payload : ValueSlot) (table : InterfaceTable) (tag : CompactTypeTag)
      (flags : ValueFlags)
  | allocateRemoteInterface (table : InterfaceTable) (tag : CompactTypeTag) (flags : ValueFlags)
  | allocTypedString (value : String) (tag : CompactTypeTag) (flags : ValueFlags)
  | allocTypedBytes (value : List UInt8) (tag : CompactTypeTag) (flags : ValueFlags)
  | allocActorStateRef (actor : ActorRef) (tag : CompactTypeTag) (flags : ValueFlags)
  | admitResourceRef (route : VmHandle) (tag : CompactTypeTag) (flags : ValueFlags)
  | snapshotShare (source : ValueSlot)
  | transferOwner (source : ValueSlot)
  | releaseSnapshot (owner : ValueSlot)
  | releaseResource (owner : ValueSlot)
  | arrayPushOwned (array value : ValueSlot)
  | mapPutOwned (map key value : ValueSlot)
  | takeDenseField (record : ValueSlot) (ordinal : Nat)
  | commitWritablePath (prepared : WritablePathPreparation) (value : ValueSlot)
  | accountBoundaryStaging (roots : Nat)
  | releaseBoundaryStaging (roots : Nat)

/-- What a call makes of the heap, whether it succeeds or fails. -/
def HeapCall.run (s : RequestVmHeap) : HeapCall → RequestVmHeap
  | .heapRef heapHandle tag flags => (RequestVmHeap.heapRef heapHandle tag flags s).2
  | .allocateArray elements tag flags => (RequestVmHeap.allocateArray elements tag flags s).2
  | .allocateMap entries tag flags => (RequestVmHeap.allocateMap entries tag flags s).2
  | .allocateRecord fields tag flags => (RequestVmHeap.allocateRecord fields tag flags s).2
  | .allocateRepresentation payload tag flags =>
    (RequestVmHeap.allocateRepresentation payload tag flags s).2
  | .allocateLocalInterface payload table tag flags =>
    (RequestVmHeap.allocateLocalInterface payload table tag flags s).2
  | .allocateRemoteInterface table tag flags =>
    (RequestVmHeap.allocateRemoteInterface table tag flags s).2
  | .allocTypedString value tag flags => (RequestVmHeap.allocTypedString value tag flags s).2
  | .allocTypedBytes value tag flags => (RequestVmHeap.allocTypedBytes value tag flags s).2
  | .allocActorStateRef actor tag flags => (RequestVmHeap.allocActorStateRef actor tag flags s).2
  | .admitResourceRef route tag flags => (RequestVmHeap.admitResourceRef route tag flags s).2
  | .snapshotShare source => (RequestVmHeap.snapshotShare source s).2
  | .transferOwner source => (RequestVmHeap.transferOwner source s).2
  | .releaseSnapshot owner => (RequestVmHeap.releaseSnapshot owner s).2
  | .releaseResource owner => (RequestVmHeap.releaseResource owner s).2
  | .arrayPushOwned array value => (RequestVmHeap.arrayPushOwned array value s).2
  | .mapPutOwned map key value => (RequestVmHeap.mapPutOwned map key value s).2
  | .takeDenseField record ordinal => (RequestVmHeap.takeDenseField record ordinal s).2
  | .commitWritablePath prepared value => (RequestVmHeap.commitWritablePath prepared value s).2
  | .accountBoundaryStaging roots => (RequestVmHeap.accountBoundaryStaging roots s).2
  | .releaseBoundaryStaging roots => (RequestVmHeap.releaseBoundaryStaging roots s).2

theorem Tables.run (hs : s.Tables) (call : HeapCall) : (call.run s).Tables := by
  cases call with
  | heapRef heapHandle tag flags => exact (keepsTables_heapRef _ _ _).after hs
  | allocateArray elements tag flags =>
    exact (Mut.Keeps.read_bind fun _ => .read_bind fun _ =>
      keepsTables_allocate _ _ _ _ _ _).after hs
  | allocateMap entries tag flags =>
    exact (Mut.Keeps.read_bind fun _ => keepsTables_allocate _ _ _ _ _ _).after hs
  | allocateRecord fields tag flags =>
    exact (Mut.Keeps.read_bind fun _ => keepsTables_allocate _ _ _ _ _ _).after hs
  | allocateRepresentation payload tag flags => exact (keepsTables_allocateCell _ _ _ _ _).after hs
  | allocateLocalInterface payload table tag flags =>
    exact (keepsTables_allocateCell _ _ _ _ _).after hs
  | allocateRemoteInterface table tag flags => exact (keepsTables_allocate _ _ _ _ _ _).after hs
  | allocTypedString value tag flags => exact (keepsTables_allocate _ _ _ _ _ _).after hs
  | allocTypedBytes value tag flags => exact (keepsTables_allocate _ _ _ _ _ _).after hs
  | allocActorStateRef actor tag flags => exact (keepsTables_allocActorStateRef _ _ _).after hs
  | admitResourceRef route tag flags => exact (keepsTables_admitResourceRef _ _ _).after hs
  | snapshotShare source => exact (keepsTables_snapshotShare _).after hs
  | transferOwner source => exact (keepsTables_transferOwner _).after hs
  | releaseSnapshot owner => exact (keepsTables_releaseSnapshot _).after hs
  | releaseResource owner => exact (keepsTables_releaseResource _).after hs
  | arrayPushOwned array value => exact (keepsTables_arrayPushOwned _ _).after hs
  | mapPutOwned map key value => exact (keepsTables_mapPutOwned _ _ _).after hs
  | takeDenseField record ordinal => exact (keepsTables_takeDenseField _ _).after hs
  | commitWritablePath prepared value => exact (keepsTables_commitWritablePath _ _).after hs
  | accountBoundaryStaging roots => exact (keepsTables_accountBoundaryStaging _).after hs
  | releaseBoundaryStaging roots => exact (keepsTables_releaseBoundaryStaging _).after hs

theorem tables_run (calls : List HeapCall) (hs : s.Tables) :
    (calls.foldl HeapCall.run s).Tables := by
  induction calls generalizing s with
  | nil => exact hs
  | cons call rest ih => exact ih (hs.run call)

/-- No run makes two live handles share a node. -/
theorem separate_run (domain epoch : Nat) (limits : RequestHeapLimits)
    (resources : Option RequestResourceTable) (ledger : Option MemoryLedger)
    (calls : List HeapCall) :
    (calls.foldl HeapCall.run (.new domain epoch limits resources ledger)).Separate :=
  (tables_run calls (tables_new domain epoch limits resources ledger)).separate

end RequestVmHeap

end Skiff.Runtime
