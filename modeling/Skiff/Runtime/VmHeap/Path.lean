import Skiff.Runtime.VmHeap.Ops

/-!
# Writable paths

A prepared path of fields and indices from a root pins the containers on it, and
`commit_writable_path` stores a value at its end. When every container has one owner the
last one is changed in place; otherwise the containers are copied from the root down, each
copy holding shares of the children of the original, and the copy of the root is returned.
-/

namespace Skiff.Runtime

open Mut

inductive PinnedWritablePathSegment where
  | denseField (field : String)
  | arrayIndex (index : Nat)
  | mapKey (key : ValueSlot)

/-- Pinned facts of a path: one container for each segment, the first of them the root. -/
structure WritablePathPreparation where
  root : ValueSlot
  segments : List PinnedWritablePathSegment
  containers : List ValueSlot
  leaf : Option ValueSlot
  nonempty : segments ≠ []
  length_eq : segments.length = containers.length
  head_eq : containers.head? = some root

namespace RequestVmHeap

/-! ## Committing -/

def commitError (message : String) : VmHeapError := .heapOperationFailed .commitWritablePath message

/-- Store a value under a field of a record, in the arena and in the sidecar. The result is
the slot that was there. -/
def storeField (handle : HeapHandle) (field : String) (carrier : RuntimeValue) (value : ValueSlot) :
    VmHeapM (Option ValueSlot) := do
  let old ← read fun s => .ok ((s.sidecar handle).objectFields.get? field)
  let _ ← updateArena .commitWritablePath fun heap => heap.setObjectField handle field carrier
  modify fun s => s.setObjectSlots handle ((s.sidecar handle).objectFields.insert field value)
  return old

/-- The same for an item of an array, which has to be there. -/
def storeItem (handle : HeapHandle) (index : Nat) (carrier : RuntimeValue) (value : ValueSlot) :
    VmHeapM (Option ValueSlot) := do
  let old ← read fun s => .ok (((s.sidecar handle).array.getD [])[index]?)
  if old = none then fail (commitError s!"array index {index} is out of bounds")
  else do
    updateArena .commitWritablePath fun heap => (heap.setArrayItem handle index carrier).map ((), ·)
    modify fun s => s.setSidecar handle { s.sidecar handle with
      array := some (((s.sidecar handle).array.getD []).set index value) }
    return old

def replaceChildSlot (container : ValueSlot) (segment : PinnedWritablePathSegment)
    (value : ValueSlot) : VmHeapM Unit := do
  let handle ← read fun s => s.requestHandle container .commitWritablePath
  let carrier ← read fun s => s.runtimeCarrierForSlot value .commitWritablePath
  let old ← match segment with
    | .denseField field => storeField handle field carrier value
    | .arrayIndex index => storeItem handle index carrier value
    | .mapKey _ => fail (.operationKindMismatch .commitWritablePath .requestHeapRef)
  old.elim (pure ()) releaseReplacedSlot
  syncMemory

/-- The slots of an array or a record, by its node. -/
def copiedSidecar (s : RequestVmHeap) (container : ValueSlot) : Except VmHeapError Sidecar := do
  let handle ← s.requestHandle container .commitWritablePath
  match ← arena .commitWritablePath (s.heap.get handle) with
  | .array _ =>
    match (s.sidecar handle).array with
    | some items => .ok { array := some items }
    | none => .error (commitError "array container has no slot sidecar")
  | .object _ =>
    match (s.sidecar handle).object with
    | some fields => .ok { object := some fields }
    | none => .error (commitError "record container has no slot sidecar")
  | _ => .error (.operationKindMismatch .commitWritablePath .requestHeapRef)

/-- The arena node for copied slots. -/
def copiedNode (s : RequestVmHeap) (sidecar : Sidecar) : Except VmHeapError HeapNode := do
  let carriers ← (sidecar.childrenExcept none).mapM fun child =>
    s.runtimeCarrierForSlot child .commitWritablePath
  match sidecar.object with
  | some fields => .ok (.object (.ofList (fields.keys.zip carriers)))
  | none => .ok (.array carriers)

/-- Undo the shares and report the error that made it necessary. -/
def restoreShares {α : Type} (shared : List ValueSlot) (error : VmHeapError) : VmHeapM α := do
  each releaseSnapshot shared
  fail error

/-- The tag and the flags that a copy takes from the slot of the original. -/
def slotMetadata : ValueSlot → CompactTypeTag × ValueFlags
  | .requestHeapRef _ tag flags => (tag, flags)
  | _ => (0, 0)

/-- `clone_container`. A share returns the slot it was given, so the copy holds the same
slots as the original. -/
def cloneContainer (container : ValueSlot) : VmHeapM ValueSlot := do
  let sidecar ← read fun s => s.copiedSidecar container
  let children := sidecar.childrenExcept none
  read fun s => children.forM s.validateLive
  each (fun child => do let _ ← snapshotShare child) children
  let node ← read fun s => s.copiedNode sidecar
  read fun s => s.ensureSerialAvailable .commitWritablePath
  let handle ← onError (allocArena .commitWritablePath node .plain) (restoreShares children)
  let slot ← onError
    (registerHandle handle (slotMetadata container).1 (slotMetadata container).2)
    (restoreShares children)
  modify fun s => s.setSidecar handle sidecar
  syncMemory
  return slot

/-- The loop of `commit_copy_on_write` below the copy of the root. -/
def copyPath : List PinnedWritablePathSegment → List ValueSlot → ValueSlot → ValueSlot →
    VmHeapM Unit
  | [], _, _, _ => pure ()
  | [segment], _, current, value => replaceChildSlot current segment value
  | segment :: next :: segments, container :: containers, current, value => do
    let replacement ← cloneContainer container
    replaceChildSlot current segment replacement
    copyPath (next :: segments) containers replacement value
  | _ :: _ :: _, [], _, _ => fail (commitError "writable path preparation has no container")

def commitCopyOnWrite (prepared : WritablePathPreparation) (value : ValueSlot) :
    VmHeapM ValueSlot := do
  let newRoot ← cloneContainer prepared.root
  copyPath prepared.segments prepared.containers.tail newRoot value
  return newRoot

/-- Every pinned container has one owner. -/
def exclusivePath (s : RequestVmHeap) (prepared : WritablePathPreparation) : Bool :=
  prepared.containers.all fun container => (s.snapshotOwnerCount container).toOption = some 1

def commitInPlace (prepared : WritablePathPreparation) (value : ValueSlot) : VmHeapM ValueSlot :=
  match prepared.containers.getLast?, prepared.segments.getLast? with
  | some terminal, some segment => do
    replaceChildSlot terminal segment value
    return prepared.root
  | none, _ => fail (commitError "writable path preparation has no terminal container")
  | some _, none => fail (commitError "writable path preparation has no terminal segment")

def commitWritablePath (prepared : WritablePathPreparation) (value : ValueSlot) :
    VmHeapM ValueSlot := do
  read fun s => s.validateLive prepared.root
  read fun s => s.validateLive value
  let exclusive ← read fun s => .ok (s.exclusivePath prepared)
  if exclusive then commitInPlace prepared value else commitCopyOnWrite prepared value

end RequestVmHeap

end Skiff.Runtime
