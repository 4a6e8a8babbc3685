import Skiff.Runtime.VmHeap.Model

/-!
# The request VM heap: operations

The mutating operations of `VmHeap for RequestVmHeap`, step by step as the source takes
them: a step that fails leaves what the steps before it have changed.

Slots of a container are owned by it. Releasing the last owner of a container releases
its children; the whole cascade is computed first (`prepareOwnerConsume`) and applied
afterwards (`commitOwnerConsume`).
-/

namespace Skiff.Runtime

open RequestVmHeap Mut

abbrev VmHeapM (α : Type) : Type := Mut RequestVmHeap VmHeapError α

namespace RequestVmHeap

/-! ## Accounting -/

def syncMemory : VmHeapM Unit := fun s =>
  match s.ledger with
  | none => (.ok (), s)
  | some ledger =>
    match ledger.setCommittedLeaseAmount (s.heap.stats.estimatedBytes + s.structuralBytes) with
    | .ok next => (.ok (), { s with ledger := some next })
    | .error error => (.error (.heapOperationFailed .allocateRepresentation error.toString), s)

def accountStructural (delta : Nat) : VmHeapM Unit := do
  modify fun s => { s with structuralBytes := s.structuralBytes + delta }
  syncMemory

def releaseStructural (delta : Nat) : VmHeapM Unit := do
  read fun s =>
    if s.structuralBytes < delta then .error (.heapOperationFailed .allocateRepresentation
      "request heap structural accounting underflowed")
    else .ok ()
  modify fun s => { s with structuralBytes := s.structuralBytes - delta }
  syncMemory

def boundaryRootBytes : Nat := 64
def actorStateBytes : Nat := 64
def resourceRouteBytes : Nat := 64

def accountBoundaryStaging (roots : Nat) : VmHeapM Unit := do
  modify fun s => { s with
    boundaryStagingRoots := s.boundaryStagingRoots + roots
    structuralBytes := s.structuralBytes + roots * boundaryRootBytes }
  syncMemory

def releaseBoundaryStaging (roots : Nat) : VmHeapM Unit := do
  read fun s =>
    if s.boundaryStagingRoots < roots then
      .error (.heapOperationFailed .validateLive "boundary staging accounting underflowed")
    else .ok ()
  modify fun s => { s with
    boundaryStagingRoots := s.boundaryStagingRoots - roots
    structuralBytes := s.structuralBytes - roots * boundaryRootBytes }
  syncMemory

/-! ## Handles -/

def allocSerial (operation : VmHeapOperation) : VmHeapM Nat := do
  read fun s => s.ensureSerialAvailable operation
  fun s => (.ok s.nextSerial, { s with nextSerial := s.nextSerial + 1 })

/-- A new handle with one owner. -/
def installHandle (s : RequestVmHeap) (handle : VmHandle) (heapHandle : HeapHandle)
    (tag : CompactTypeTag) (flags : ValueFlags) : RequestVmHeap :=
  { s with
    live := s.live.insert handle ⟨heapHandle, tag, flags, 1, 0⟩
    handlesByHeap := s.handlesByHeap.insert heapHandle handle
    releasedHeapHandles := s.releasedHeapHandles.erase heapHandle }

def registerHandle (heapHandle : HeapHandle) (tag : CompactTypeTag) (flags : ValueFlags) :
    VmHeapM ValueSlot := do
  let _ ← read fun s => arena .validateLive (s.heap.get heapHandle)
  let serial ← allocSerial .validateLive
  fun s =>
    let handle := encodeHandle s.domain serial
    (.ok (.requestHeapRef handle tag flags), s.installHandle handle heapHandle tag flags)

def allocArena (operation : VmHeapOperation) (node : HeapNode) (carriers : HeapCarrierLayout) :
    VmHeapM HeapHandle := fun s =>
  match s.heap.allocNodeWithCarriers node carriers with
  | .ok (handle, heap) => (.ok handle, { s with heap := heap })
  | .error error => (.error (mapError operation error), s)

/-- An update of the arena, with its result. -/
def updateArena {α : Type} (operation : VmHeapOperation)
    (update : RequestHeap → Except RuntimeError (α × RequestHeap)) : VmHeapM α := fun s =>
  match update s.heap with
  | .ok (a, heap) => (.ok a, { s with heap := heap })
  | .error error => (.error (mapError operation error), s)

def setSidecar (s : RequestVmHeap) (handle : HeapHandle) (sidecar : Sidecar) : RequestVmHeap :=
  { s with slots := s.slots.insert handle sidecar }

/-! ## Allocation -/

/-- The common tail of the allocating operations: a node, a handle for it, its child
slots, and the memory it takes. Strings and bytes have no child slots. -/
def allocate (operation : VmHeapOperation) (node : HeapNode) (carriers : HeapCarrierLayout)
    (tag : CompactTypeTag) (flags : ValueFlags) (sidecar : Option Sidecar) :
    VmHeapM ValueSlot := do
  read fun s => s.ensureSerialAvailable operation
  let handle ← allocArena operation node carriers
  let slot ← registerHandle handle tag flags
  modify fun s => sidecar.elim s (s.setSidecar handle)
  syncMemory
  return slot

def allocateArray (elements : List ValueSlot) (tag : CompactTypeTag) (flags : ValueFlags) :
    VmHeapM ValueSlot := do
  read fun s => elements.forM s.validateLive
  let carriers ← read fun s =>
    elements.mapM fun element => s.runtimeCarrierForSlot element .allocateArray
  allocate .allocateArray (.array carriers) .plain tag flags (some { array := some elements })

structure VmMapEntry where
  key : ValueSlot
  value : ValueSlot

/-- The loop of `allocate_map`; of two entries with one key the later one stands. -/
def collectMapEntries (s : RequestVmHeap) : List VmMapEntry →
    OrdMap String RuntimeValue → OrdMap String (ValueSlot × ValueSlot) →
    Except VmHeapError (OrdMap String RuntimeValue × OrdMap String (ValueSlot × ValueSlot))
  | [], carriers, slots => .ok (carriers, slots)
  | entry :: rest, carriers, slots => do
    s.validateLive entry.key
    s.validateLive entry.value
    let key ← s.mapKeyFromSlot entry.key .allocateMap
    let carrier ← s.runtimeCarrierForSlot entry.value .allocateMap
    collectMapEntries s rest (carriers.insert key carrier)
      (slots.insert key (entry.key, entry.value))

def allocateMap (entries : List VmMapEntry) (tag : CompactTypeTag) (flags : ValueFlags) :
    VmHeapM ValueSlot := do
  let collected ← read fun s => s.collectMapEntries entries ∅ ∅
  allocate .allocateMap (.map collected.1) .plain tag flags (some { map := some collected.2 })

structure VmRecordField where
  name : String
  value : ValueSlot

/-- The loop of `allocate_record`; a name may occur once. -/
def collectRecordFields (s : RequestVmHeap) : List VmRecordField →
    OrdMap String RuntimeValue → OrdMap String ValueSlot →
    Except VmHeapError (OrdMap String RuntimeValue × OrdMap String ValueSlot)
  | [], carriers, slots => .ok (carriers, slots)
  | field :: rest, carriers, slots =>
    if field.name = "" then
      .error (.heapOperationFailed .allocateRecord "record field name must not be empty")
    else do
      s.validateLive field.value
      if slots.contains field.name then
        .error (.heapOperationFailed .allocateRecord s!"duplicate record field {field.name}")
      else do
        let carrier ← s.runtimeCarrierForSlot field.value .allocateRecord
        collectRecordFields s rest (carriers.insert field.name carrier)
          (slots.insert field.name field.value)

def allocateRecord (fields : List VmRecordField) (tag : CompactTypeTag) (flags : ValueFlags) :
    VmHeapM ValueSlot := do
  let collected ← read fun s => s.collectRecordFields fields ∅ ∅
  allocate .allocateRecord (.object collected.1) .plain tag flags
    (some { object := some collected.2 })

/-- A carrier cell over one payload. -/
def allocateCell (operation : VmHeapOperation) (payload : ValueSlot) (tag : CompactTypeTag)
    (flags : ValueFlags) (sidecar : Sidecar) : VmHeapM ValueSlot := do
  read fun s => s.validateLive payload
  let carrier ← read fun s => s.runtimeCarrierForSlot payload operation
  allocate operation (.array [carrier]) .localCarrierCell tag flags (some sidecar)

def allocateRepresentation (payload : ValueSlot) (tag : CompactTypeTag) (flags : ValueFlags) :
    VmHeapM ValueSlot :=
  allocateCell .allocateRepresentation payload tag flags { representation := some payload }

def allocateLocalInterface (payload : ValueSlot) (table : InterfaceTable) (tag : CompactTypeTag)
    (flags : ValueFlags) : VmHeapM ValueSlot :=
  allocateCell .allocateLocalInterface payload tag flags { localInterface := some (table, payload) }

def allocateRemoteInterface (table : InterfaceTable) (tag : CompactTypeTag) (flags : ValueFlags) :
    VmHeapM ValueSlot :=
  allocate .allocateRemoteInterface (.array [.null]) .localCarrierCell tag flags
    (some { remoteInterface := some table })

def allocTypedString (value : String) (tag : CompactTypeTag) (flags : ValueFlags) :
    VmHeapM ValueSlot :=
  allocate .allocateRepresentation (.array [.string value]) .localCarrierCell tag flags none

def allocTypedBytes (value : List UInt8) (tag : CompactTypeTag) (flags : ValueFlags) :
    VmHeapM ValueSlot :=
  allocate .allocateArray (.bytes value) .plain tag flags none

def allocActorStateRef (actor : ActorRef) (tag : CompactTypeTag) (flags : ValueFlags) :
    VmHeapM ValueSlot := do
  read fun s => s.ensureSerialAvailable .allocateRepresentation
  let serial ← allocSerial .allocateRepresentation
  let handle ← read fun s => .ok (encodeHandle s.domain serial)
  modify fun s => { s with actorStateSlots := s.actorStateSlots.insert handle (tag, actor) }
  accountStructural actorStateBytes
  return .actorStateRef handle tag flags

def admitResourceRef (route : VmHandle) (tag : CompactTypeTag) (flags : ValueFlags) :
    VmHeapM ValueSlot := do
  let table ← read fun s => s.resourcesFor .validateLive
  let admitted ← ofExcept ((table.admitVmRoute route tag flags).mapError (mapResourceLookup route))
  modify fun s => { s with
    resources := some admitted
    resourceRoutes := s.resourceRoutes + 1 }
  accountStructural resourceRouteBytes
  return .resourceRef route tag flags

/-! ## Owners -/

structure PreparedOwnerConsume where
  remainingOwners : OrdMap VmHandle Nat
  removals : List (VmHandle × HeapHandle)
  resourceReleases : List VmHandle

/-- The field that leaves a record instead of being dropped with it. -/
structure ExcludedOwnerField where
  root : HeapHandle
  field : String

section Consume

variable (s : RequestVmHeap) (operation : VmHeapOperation) (excluded : Option ExcludedOwnerField)

def excludedAt (handle : HeapHandle) : Option String :=
  (excluded.filter fun excluded => excluded.root = handle).map ExcludedOwnerField.field

/-- One round of the loop: the owner is taken off its count, and at zero the children of
the container are owners to consume in turn. -/
def consumeOwner (owner : ValueSlot) (prepared : PreparedOwnerConsume) :
    Except VmHeapError (PreparedOwnerConsume × List ValueSlot) :=
  match owner with
  | .null | .bool _ | .number _ | .integer _ | .date _ => do
    s.validateLive owner
    .ok (prepared, [])
  | .requestHeapRef handle _ _ => do
    let entry ← s.liveEntry owner
    match (prepared.remainingOwners.get? handle).getD entry.snapshotOwners with
    | 0 => .error (.ownershipViolation .requestHeapRef handle)
    | remaining + 1 =>
      let counted := prepared.remainingOwners.insert handle remaining
      if remaining = 0 then
        .ok ({ prepared with
          remainingOwners := counted
          removals := prepared.removals ++ [(handle, entry.heapHandle)] },
          (s.sidecar entry.heapHandle).childrenExcept (excludedAt excluded entry.heapHandle))
      else .ok ({ prepared with remainingOwners := counted }, [])
  | .resourceRef route _ _ => do
    let _ ← s.validateResourceSlot owner operation
    if route ∈ prepared.resourceReleases then .error (.ownershipViolation .resourceRef route)
    else .ok ({ prepared with resourceReleases := prepared.resourceReleases ++ [route] }, [])
  | .actorStateRef .. | .constRef .. | .callbackClosureRef .. =>
    .error (.operationKindMismatch operation owner.kind)

/-- The loop over the pending owners, the last one first. -/
def consumeOwners : Nat → List ValueSlot → PreparedOwnerConsume →
    Except VmHeapError PreparedOwnerConsume
  | _, [], prepared => .ok prepared
  | 0, _ :: _, _ => .error .invalidValueMetadata
  | rounds + 1, owner :: pending, prepared => do
    let (prepared, children) ← consumeOwner s operation excluded owner prepared
    consumeOwners rounds (children.reverse ++ pending) prepared

/-- A handle is removed at most once, and its removal puts the child slots of its node on the list,
so their number bounds the rounds. -/
def childCount : Nat :=
  s.live.weight fun _ entry => ((s.sidecar entry.heapHandle).childrenExcept none).length

def prepareOwnerConsume (root : ValueSlot) : Except VmHeapError PreparedOwnerConsume :=
  consumeOwners s operation excluded (s.childCount + 1) [root] ⟨∅, [], []⟩

end Consume

/-- The owner counts that the cascade left. -/
def setOwners (remaining : OrdMap VmHandle Nat) (handle : VmHandle) (entry : LiveEntry) :
    LiveEntry :=
  match remaining.get? handle with
  | some (count + 1) => { entry with snapshotOwners := count + 1 }
  | _ => entry

def removeHandle (s : RequestVmHeap) (removal : VmHandle × HeapHandle) : RequestVmHeap :=
  { s with
    live := s.live.erase removal.1
    slots := s.slots.erase removal.2
    handlesByHeap := s.handlesByHeap.erase removal.2
    releasedHeapHandles := s.releasedHeapHandles.insert removal.2 removal.1 }

def commitOwnerConsume (s : RequestVmHeap) (prepared : PreparedOwnerConsume) : RequestVmHeap :=
  let counted := { s with live := s.live.mapWithKey (setOwners prepared.remainingOwners) }
  let removed := prepared.removals.foldl removeHandle counted
  { removed with
    resources := removed.resources.map fun table =>
      prepared.resourceReleases.foldl RequestResourceTable.release table }

def addOwner (s : RequestVmHeap) (handle : VmHandle) (entry : LiveEntry) : RequestVmHeap :=
  { s with live := s.live.insert handle { entry with snapshotOwners := entry.snapshotOwners + 1 } }

def addTransfer (s : RequestVmHeap) (handle : VmHandle) (entry : LiveEntry) : RequestVmHeap :=
  { s with live := s.live.insert handle { entry with ownerTransfers := entry.ownerTransfers + 1 } }

def snapshotShare (source : ValueSlot) : VmHeapM ValueSlot :=
  match source with
  | .requestHeapRef handle _ _ => do
    let entry ← read fun s => s.liveEntry source
    modify fun s => s.addOwner handle entry
    return source
  | .resourceRef .. | .callbackClosureRef .. =>
    fail (.operationKindMismatch .snapshotShare source.kind)
  | _ => do
    read fun s => s.validateLive source
    return source

def transferOwner (source : ValueSlot) : VmHeapM ValueSlot :=
  match source with
  | .requestHeapRef handle _ _ => do
    let entry ← read fun s => s.liveEntry source
    modify fun s => s.addTransfer handle entry
    return source
  | .resourceRef .. => do
    let _ ← read fun s => s.validateResourceSlot source .transferOwner
    return source
  | .callbackClosureRef .. => fail (.operationKindMismatch .transferOwner source.kind)
  | _ => do
    read fun s => s.validateLive source
    return source

def releaseSnapshot (owner : ValueSlot) : VmHeapM Unit :=
  match owner with
  | .requestHeapRef .. => do
    let prepared ← read fun s => s.prepareOwnerConsume .releaseSnapshot none owner
    modify fun s => s.commitOwnerConsume prepared
  | .resourceRef .. | .callbackClosureRef .. =>
    fail (.operationKindMismatch .releaseSnapshot owner.kind)
  | _ => pure ()

def releaseResource (owner : ValueSlot) : VmHeapM Unit :=
  match owner with
  | .resourceRef route tag flags => do
    let table ← read fun s => s.resourcesFor .releaseResource
    let released ← ofExcept
      ((table.releaseVmRouteMetadata route tag flags).mapError (mapResourceLookup route))
    modify fun s => { s with resources := some released.2 }
    if released.1 = .alreadyReleased then pure ()
    else do
      read fun s =>
        if s.resourceRoutes = 0 then
          .error (.heapOperationFailed .releaseResource "resource route accounting underflowed")
        else .ok ()
      modify fun s => { s with resourceRoutes := s.resourceRoutes - 1 }
      releaseStructural resourceRouteBytes
  | _ => fail (.operationKindMismatch .releaseResource owner.kind)

def releaseReplacedSlot (slot : ValueSlot) : VmHeapM Unit :=
  match slot with
  | .requestHeapRef .. => releaseSnapshot slot
  | .resourceRef .. => releaseResource slot
  | _ => pure ()

/-! ## Containers -/

def arrayPushOwned (array value : ValueSlot) : VmHeapM Unit := do
  let handle ← read fun s => s.requestHandle array .arrayPushOwned
  read fun s => s.ensureExclusiveOwner array
  read fun s => s.ensureNodeKind handle .arrayPushOwned isArray
  read fun s => s.validateLive value
  let carrier ← read fun s => s.runtimeCarrierForSlot value .arrayPushOwned
  updateArena .arrayPushOwned fun heap => (heap.pushArrayItem handle carrier).map ((), ·)
  modify fun s => s.setSidecar handle { s.sidecar handle with
    array := some ((s.sidecar handle).array.getD [] ++ [value]) }
  syncMemory

def mapPutOwned (map key value : ValueSlot) : VmHeapM Bool := do
  let keyValue ← read fun s => s.mapKeyFromSlot key .mapPutOwned
  let handle ← read fun s => s.requestHandle map .mapPutOwned
  read fun s => s.ensureExclusiveOwner map
  read fun s => s.ensureNodeKind handle .mapPutOwned isMap
  read fun s => s.validateLive value
  let carrier ← read fun s => s.runtimeCarrierForSlot value .mapPutOwned
  let existed ← updateArena .mapPutOwned fun heap => heap.setMapEntry handle keyValue carrier
  modify fun s => s.setSidecar handle { s.sidecar handle with
    map := some ((s.sidecar handle).mapEntries.insert keyValue (key, value)) }
  syncMemory
  return existed

def setObjectSlots (s : RequestVmHeap) (handle : HeapHandle) (fields : OrdMap String ValueSlot) :
    RequestVmHeap :=
  s.setSidecar handle { s.sidecar handle with object := some fields }

/-- A kind that may leave a record. -/
def validateTakenField (s : RequestVmHeap) (value : ValueSlot) : Except VmHeapError Unit :=
  match value with
  | .requestHeapRef .. => discard (s.liveEntry value)
  | .resourceRef .. => discard (s.validateResourceSlot value .takeDenseField)
  | .actorStateRef .. | .constRef .. | .callbackClosureRef .. =>
    .error (.operationKindMismatch .takeDenseField value.kind)
  | _ => s.validateLive value

/-- What `take_dense_field` settles before it changes anything: the field, its slot and
the release of the rest. -/
def prepareTakeDenseField (s : RequestVmHeap) (record : ValueSlot) (ordinal : Nat) :
    Except VmHeapError (HeapHandle × String × ValueSlot × PreparedOwnerConsume) := do
  let handle ← s.requestHandle record .takeDenseField
  s.ensureExclusiveOwner record
  s.ensureNodeKind handle .takeDenseField isObject
  match (s.sidecar handle).objectFields.entries[ordinal]? with
  | none => .error (.heapOperationFailed .takeDenseField
      s!"record ordinal {ordinal} is out of bounds")
  | some (field, value) => do
    if (← arena .takeDenseField (s.heap.objectField handle field)).isNone then
      .error (.heapOperationFailed .takeDenseField
        s!"record field {field.quote} is absent from the physical object")
    else do
      s.validateTakenField value
      let prepared ← s.prepareOwnerConsume .takeDenseField (some ⟨handle, field⟩) record
      .ok (handle, field, value, prepared)

/-- The field leaves the sidecar first, and comes back if the arena refuses. -/
def detachField (handle : HeapHandle) (field : String) (value : ValueSlot) : VmHeapM Unit := do
  modify fun s => s.setObjectSlots handle ((s.sidecar handle).objectFields.erase field)
  let deleted ← onError
    (updateArena .takeDenseField fun heap => heap.deleteObjectField handle field)
    fun error => do
      modify fun s => s.setObjectSlots handle ((s.sidecar handle).objectFields.insert field value)
      fail error
  if deleted then pure ()
  else do
    modify fun s => s.setObjectSlots handle ((s.sidecar handle).objectFields.insert field value)
    fail (.heapOperationFailed .takeDenseField
      s!"record field {field.quote} was not physically present")

def takeDenseField (record : ValueSlot) (ordinal : Nat) : VmHeapM ValueSlot := do
  let taken ← read fun s => s.prepareTakeDenseField record ordinal
  detachField taken.1 taken.2.1 taken.2.2.1
  modify fun s => s.commitOwnerConsume taken.2.2.2
  syncMemory
  return taken.2.2.1

end RequestVmHeap

end Skiff.Runtime
