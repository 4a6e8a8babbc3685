import Skiff.Runtime.RequestHeap

/-!
# The request VM heap: state and checks

`RequestVmHeap` (`runtime/request/src/vm_heap.rs`) keeps stable VM handles over an arena
of nodes, an owner count for each of them, and the exact slots that each container holds.
This module has the state, the slots, the memory ledger and the resource routes, and the
checks that only look.

Slots are what their constructors can build, so a slot always has a kind. The six tables
of child slots, which the source keys by the same heap handle, are one table of records
here. Catch identities are left out, and interface tables are numbers. Counters are
natural numbers.
-/

namespace Skiff.Runtime

/-! ## Slots -/

abbrev VmHandle := Nat
abbrev CompactTypeTag := Nat
abbrev ValueFlags := Nat

inductive ValueKind where
  | null
  | bool
  | number
  | integer
  | date
  | requestHeapRef
  | actorStateRef
  | constRef
  | resourceRef
  | callbackClosureRef
deriving DecidableEq

inductive ValueSlot where
  | null
  | bool (value : Bool)
  | number (bits : BitVec 64)
  | integer (value : BitVec 64)
  | date (millis : BitVec 64)
  | requestHeapRef (handle : VmHandle) (tag : CompactTypeTag) (flags : ValueFlags)
  | actorStateRef (handle : VmHandle) (tag : CompactTypeTag) (flags : ValueFlags)
  | constRef (handle : VmHandle) (tag : CompactTypeTag) (flags : ValueFlags)
  | resourceRef (route : VmHandle) (tag : CompactTypeTag) (flags : ValueFlags)
  | callbackClosureRef (handle : VmHandle) (tag : CompactTypeTag) (flags : ValueFlags)

namespace ValueSlot

def kind : ValueSlot → ValueKind
  | null => .null
  | bool _ => .bool
  | number _ => .number
  | integer _ => .integer
  | date _ => .date
  | requestHeapRef _ _ _ => .requestHeapRef
  | actorStateRef _ _ _ => .actorStateRef
  | constRef _ _ _ => .constRef
  | resourceRef _ _ _ => .resourceRef
  | callbackClosureRef _ _ _ => .callbackClosureRef

def asRequestHeapRef : ValueSlot → Option VmHandle
  | requestHeapRef handle _ _ => some handle
  | _ => none

end ValueSlot

/-! ## Errors -/

inductive VmHeapOperation where
  | validateLive
  | allocateArray
  | allocateMap
  | allocateRecord
  | allocateRepresentation
  | allocateLocalInterface
  | allocateRemoteInterface
  | arrayGet
  | mapGet
  | recordField
  | takeDenseField
  | arrayPushOwned
  | mapPutOwned
  | prepareWritablePath
  | commitWritablePath
  | snapshotShare
  | transferOwner
  | releaseSnapshot
  | releaseResource

inductive VmHandleInvalidReason where
  | wrongDomain
  | staleGenerationOrEpoch

inductive VmHeapError where
  | invalidValueMetadata
  | invalidHandle (kind : ValueKind) (handle : VmHandle) (reason : VmHandleInvalidReason)
  | operationKindMismatch (operation : VmHeapOperation) (kind : ValueKind)
  | ownershipViolation (kind : ValueKind) (handle : VmHandle)
  | heapOperationFailed (operation : VmHeapOperation) (message : String)
  | resourceLimitExceeded (operation : VmHeapOperation) (limit current requestedDelta : Nat)

/-- Errors of the arena, as errors of an operation. -/
def mapError (operation : VmHeapOperation) : RuntimeError → VmHeapError
  | .resourceLimitExceeded _ limit current requestedDelta =>
    .resourceLimitExceeded operation limit current requestedDelta
  | error => .heapOperationFailed operation error.toString

/-! ## The memory ledger -/

inductive MemoryLedgerError where
  | hardCapExceeded (hardCap reserved committed requested : Nat)
  | terminal
  | releaseUnderflow (committed amount : Nat)

def MemoryLedgerError.toString : MemoryLedgerError → String
  | hardCapExceeded hardCap reserved committed requested =>
    s!"request memory hard cap exceeded: hard_cap {hardCap}, reserved {reserved}, committed {committed}, requested {requested}"
  | terminal => "request memory ledger is terminal"
  | releaseUnderflow committed amount =>
    s!"request memory ledger release underflow: committed {committed}, amount {amount}"

/-- The ledger of a request, with the amount of the lease that this heap holds. -/
structure MemoryLedger where
  hardCap : Nat
  reserved : Nat
  committed : Nat
  terminal : Bool
  lease : Nat

def MemoryLedger.setCommittedLeaseAmount (ledger : MemoryLedger) (amount : Nat) :
    Except MemoryLedgerError MemoryLedger :=
  if ledger.terminal then .error .terminal
  else if amount = ledger.lease then .ok ledger
  else if ledger.lease < amount then
    let requested := amount - ledger.lease
    if ledger.hardCap < ledger.reserved + ledger.committed + requested then
      .error (.hardCapExceeded ledger.hardCap ledger.reserved ledger.committed requested)
    else .ok { ledger with committed := ledger.committed + requested, lease := amount }
  else
    let released := ledger.lease - amount
    if ledger.committed < released then .error (.releaseUnderflow ledger.committed released)
    else .ok { ledger with committed := ledger.committed - released, lease := amount }

/-! ## Resource routes -/

/-- What the scheduler's table knows about a packed route. -/
inductive RouteState where
  | live (metadata : Option (CompactTypeTag × ValueFlags))
  | closed (metadata : Option (CompactTypeTag × ValueFlags))

structure RequestResourceTable where
  owner : Nat
  routes : OrdMap VmHandle RouteState

inductive RequestResourceLookupError where
  | wrongOwner
  | unknownSlot
  | staleGeneration
  | vmRouteAlreadyAdmitted
  | vmMetadataMismatch

inductive RequestResourceRelease where
  | released
  | alreadyReleased
deriving DecidableEq

namespace RequestResourceTable

/-! A route packs its owner, slot and generation, none of them zero. -/

def routeOwner (route : VmHandle) : Nat := route / 2 ^ 32
def routeSlot (route : VmHandle) : Nat := route / 2 ^ 16 % 2 ^ 16
def routeGeneration (route : VmHandle) : Nat := route % 2 ^ 16

def keyFor (table : RequestResourceTable) (route : VmHandle) :
    Except RequestResourceLookupError Unit :=
  if routeOwner route = 0 ∨ routeSlot route = 0 ∨ routeGeneration route = 0 then .error .unknownSlot
  else if routeOwner route ≠ table.owner then .error .wrongOwner
  else .ok ()

/-- The entry of a live route. A slot that was ever issued makes other routes stale. -/
def liveEntry (table : RequestResourceTable) (route : VmHandle) :
    Except RequestResourceLookupError (Option (CompactTypeTag × ValueFlags)) :=
  match table.routes.get? route with
  | some (.live metadata) => .ok metadata
  | _ =>
    if table.routes.keys.any fun other => routeSlot other = routeSlot route then
      .error .staleGeneration
    else .error .unknownSlot

def admitVmRoute (table : RequestResourceTable) (route : VmHandle) (tag : CompactTypeTag)
    (flags : ValueFlags) : Except RequestResourceLookupError RequestResourceTable := do
  table.keyFor route
  match ← table.liveEntry route with
  | some _ => .error .vmRouteAlreadyAdmitted
  | none => .ok { table with routes := table.routes.insert route (.live (some (tag, flags))) }

def validateVmRouteMetadata (table : RequestResourceTable) (route : VmHandle) (tag : CompactTypeTag)
    (flags : ValueFlags) : Except RequestResourceLookupError Unit := do
  table.keyFor route
  if (← table.liveEntry route) = some (tag, flags) then .ok () else .error .vmMetadataMismatch

/-- `release` of a handle that was validated before; a closed route stays closed. -/
def release (table : RequestResourceTable) (route : VmHandle) : RequestResourceTable :=
  match table.routes.get? route with
  | some (.live metadata) => { table with routes := table.routes.insert route (.closed metadata) }
  | _ => table

def releaseVmRouteMetadata (table : RequestResourceTable) (route : VmHandle) (tag : CompactTypeTag)
    (flags : ValueFlags) :
    Except RequestResourceLookupError (RequestResourceRelease × RequestResourceTable) := do
  table.keyFor route
  match table.routes.get? route with
  | some (.closed metadata) =>
    if metadata = some (tag, flags) then .ok (.alreadyReleased, table)
    else .error .vmMetadataMismatch
  | _ =>
    if (← table.liveEntry route) = some (tag, flags) then .ok (.released, table.release route)
    else .error .vmMetadataMismatch

end RequestResourceTable

def mapResourceLookup (route : VmHandle) : RequestResourceLookupError → VmHeapError
  | .wrongOwner => .invalidHandle .resourceRef route .wrongDomain
  | .unknownSlot => .invalidHandle .resourceRef route .staleGenerationOrEpoch
  | .staleGeneration => .invalidHandle .resourceRef route .staleGenerationOrEpoch
  | .vmRouteAlreadyAdmitted => .invalidValueMetadata
  | .vmMetadataMismatch => .invalidValueMetadata

/-! ## The heap -/

abbrev InterfaceTable := Nat

structure LiveEntry where
  heapHandle : HeapHandle
  compactTypeTag : CompactTypeTag
  flags : ValueFlags
  snapshotOwners : Nat
  ownerTransfers : Nat

/-- The exact child slots of one node, by the table that holds them. -/
structure Sidecar where
  array : Option (List ValueSlot) := none
  object : Option (OrdMap String ValueSlot) := none
  map : Option (OrdMap String (ValueSlot × ValueSlot)) := none
  representation : Option ValueSlot := none
  localInterface : Option (InterfaceTable × ValueSlot) := none
  remoteInterface : Option InterfaceTable := none

namespace Sidecar

def objectFields (sidecar : Sidecar) : OrdMap String ValueSlot := sidecar.object.getD ∅
def mapEntries (sidecar : Sidecar) : OrdMap String (ValueSlot × ValueSlot) := sidecar.map.getD ∅

/-- `container_children_except`: every child slot, without one field of the object. -/
def childrenExcept (sidecar : Sidecar) (excluded : Option String) : List ValueSlot :=
  sidecar.array.getD [] ++
    (sidecar.objectFields.entries.filter fun entry => excluded ≠ some entry.1).map Prod.snd ++
    sidecar.mapEntries.entries.flatMap (fun entry => [entry.2.1, entry.2.2]) ++
    sidecar.representation.toList ++ sidecar.localInterface.toList.map Prod.snd

end Sidecar

structure RequestVmHeap where
  heap : RequestHeap
  resources : Option RequestResourceTable
  domain : Nat
  nextSerial : Nat
  live : OrdMap VmHandle LiveEntry
  handlesByHeap : OrdMap HeapHandle VmHandle
  releasedHeapHandles : OrdMap HeapHandle VmHandle
  ledger : Option MemoryLedger
  boundaryStagingRoots : Nat
  resourceRoutes : Nat
  structuralBytes : Nat
  slots : OrdMap HeapHandle Sidecar
  actorStateSlots : OrdMap VmHandle (CompactTypeTag × ActorRef)

def maxSerial : Nat := 2 ^ 32 - 1

def encodeHandle (domain serial : Nat) : VmHandle := domain * 2 ^ 32 + serial

def domainOf (handle : VmHandle) : Nat := handle / 2 ^ 32

namespace RequestVmHeap

/-- A heap over an empty arena. -/
def new (domain epoch : Nat) (limits : RequestHeapLimits) (resources : Option RequestResourceTable)
    (ledger : Option MemoryLedger) : RequestVmHeap where
  heap := { RequestHeap.new limits with epoch := epoch }
  resources := resources
  domain := domain
  nextSerial := 1
  live := ∅
  handlesByHeap := ∅
  releasedHeapHandles := ∅
  ledger := ledger
  boundaryStagingRoots := 0
  resourceRoutes := 0
  structuralBytes := 0
  slots := ∅
  actorStateSlots := ∅

def sidecar (s : RequestVmHeap) (handle : HeapHandle) : Sidecar := (s.slots.get? handle).getD {}

/-! ## Checks -/

section Checks

variable (s : RequestVmHeap)

def resourcesFor (operation : VmHeapOperation) : Except VmHeapError RequestResourceTable :=
  match s.resources with
  | some table => .ok table
  | none => .error (.operationKindMismatch operation .resourceRef)

def validateResourceSlot (value : ValueSlot) (operation : VmHeapOperation) :
    Except VmHeapError VmHandle :=
  match value with
  | .resourceRef route tag flags => do
    let table ← s.resourcesFor operation
    (table.validateVmRouteMetadata route tag flags).mapError (mapResourceLookup route)
    .ok route
  | _ => .error .invalidValueMetadata

def actorStateRefValue (value : ValueSlot) : Except VmHeapError ActorRef :=
  match value with
  | .actorStateRef handle tag _ =>
    match s.actorStateSlots.get? handle with
    | none => .error (.invalidHandle .actorStateRef handle .staleGenerationOrEpoch)
    | some (expected, actor) =>
      if expected ≠ tag then .error .invalidValueMetadata else .ok actor
  | _ => .error .invalidValueMetadata

def invalidHandle (handle : VmHandle) (reason : VmHandleInvalidReason) : VmHeapError :=
  .invalidHandle .requestHeapRef handle reason

def liveEntry (value : ValueSlot) : Except VmHeapError LiveEntry :=
  match value with
  | .requestHeapRef handle tag flags =>
    if domainOf handle ≠ s.domain then .error (invalidHandle handle .wrongDomain)
    else
      match s.live.get? handle with
      | none => .error (invalidHandle handle .staleGenerationOrEpoch)
      | some entry =>
        if entry.compactTypeTag ≠ tag ∨ entry.flags ≠ flags then .error .invalidValueMetadata
        else
          match s.heap.get entry.heapHandle with
          | .ok _ => .ok entry
          | .error _ => .error (invalidHandle handle .staleGenerationOrEpoch)
  | _ => .error .invalidValueMetadata

def validateLive (value : ValueSlot) : Except VmHeapError Unit :=
  match value with
  | .null | .bool _ | .number _ | .integer _ | .date _ => .ok ()
  | .requestHeapRef .. => discard (s.liveEntry value)
  | .resourceRef .. => discard (s.validateResourceSlot value .validateLive)
  | .actorStateRef .. => discard (s.actorStateRefValue value)
  | .constRef .. => .ok ()
  | .callbackClosureRef .. => .error (.operationKindMismatch .validateLive value.kind)

/-- The arena node of a value, which must not be an interface carrier. -/
def requestHandle (value : ValueSlot) (operation : VmHeapOperation) :
    Except VmHeapError HeapHandle :=
  if value.kind ≠ .requestHeapRef then .error (.operationKindMismatch operation value.kind)
  else do
    let entry ← s.liveEntry value
    if (s.sidecar entry.heapHandle).localInterface.isSome then
      .error (.operationKindMismatch operation .requestHeapRef)
    else if (s.sidecar entry.heapHandle).remoteInterface.isSome then
      .error (.operationKindMismatch operation .requestHeapRef)
    else .ok entry.heapHandle

def arena {α : Type} (operation : VmHeapOperation) (x : Except RuntimeError α) :
    Except VmHeapError α :=
  x.mapError (mapError operation)

def ensureNodeKind (handle : HeapHandle) (operation : VmHeapOperation)
    (expected : HeapNode → Bool) : Except VmHeapError Unit := do
  if expected (← arena operation (s.heap.get handle)) then .ok ()
  else .error (.operationKindMismatch operation .requestHeapRef)

def isArray : HeapNode → Bool
  | .array _ => true
  | _ => false

def isObject : HeapNode → Bool
  | .object _ => true
  | _ => false

def isMap : HeapNode → Bool
  | .map _ => true
  | _ => false

/-- What the arena stores for a slot. Integers and resources have no runtime value; the
exact slot is in the sidecar. -/
def runtimeCarrierForSlot (value : ValueSlot) (operation : VmHeapOperation) :
    Except VmHeapError RuntimeValue := do
  s.validateLive value
  match value with
  | .null => .ok .null
  | .bool value => .ok (.bool value)
  | .number bits => .ok (.number bits)
  | .date millis => .ok (.date millis)
  | .integer _ => .ok .null
  | .requestHeapRef .. => do
    let entry ← s.liveEntry value
    .ok (.heap entry.heapHandle)
  | .resourceRef .. => .ok .null
  | .actorStateRef .. | .constRef .. | .callbackClosureRef .. =>
    .error (.operationKindMismatch operation value.kind)

def slotForEntry (handle : VmHandle) (entry : LiveEntry) : ValueSlot :=
  .requestHeapRef handle entry.compactTypeTag entry.flags

/-- The string behind a key, through any number of representations. Each of them has a
sidecar of its own, so their number bounds the depth. -/
def mapKeyFromSlotAt (operation : VmHeapOperation) : Nat → ValueSlot → Except VmHeapError String
  | 0, _ => .error (.heapOperationFailed operation "map key nesting is too deep")
  | depth + 1, key => do
    s.validateLive key
    match key with
    | .requestHeapRef handle _ _ => do
      let entry ← s.liveEntry key
      match (s.sidecar entry.heapHandle).representation with
      | some payload => mapKeyFromSlotAt operation depth payload
      | none => do
        match ← arena operation (s.heap.localCarrierCell entry.heapHandle) with
        | some (.string text) => .ok text
        | _ =>
          .error (.heapOperationFailed operation s!"VmHandle({handle}) is not a string map key")
    | _ => .error (.heapOperationFailed operation
        "map key must be a request-local string or string representation")

def mapKeyFromSlot (key : ValueSlot) (operation : VmHeapOperation) : Except VmHeapError String :=
  s.mapKeyFromSlotAt operation (s.slots.size + 1) key

def snapshotOwnerCount (container : ValueSlot) : Except VmHeapError Nat := do
  let entry ← s.liveEntry container
  .ok entry.snapshotOwners

def ensureExclusiveOwner (container : ValueSlot) : Except VmHeapError Unit :=
  match container.asRequestHeapRef with
  | none => .error .invalidValueMetadata
  | some handle => do
    if 1 < (← s.snapshotOwnerCount container) then
      .error (.ownershipViolation .requestHeapRef handle)
    else .ok ()

def ensureSerialAvailable (operation : VmHeapOperation) : Except VmHeapError Unit :=
  if maxSerial < s.nextSerial then
    .error (.resourceLimitExceeded operation maxSerial s.nextSerial 1)
  else .ok ()

/-! ## Reads -/

end Checks

end RequestVmHeap

end Skiff.Runtime
