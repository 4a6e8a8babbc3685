import Skiff.Heap.Model

/-!
# Changes in place

The operations of `RequestHeap` that change a node that is there: push, set, pop and
delete, each with the cycle check, the byte check, and the update of node, identities and
counters that the source makes. Then the counters and the plain rollback.

Every one of them either fails and leaves the heap alone or is one `Edit` of one slot;
`Mutation.outcome` says so, and the properties of whole runs start from it.
-/

namespace Skiff.Heap

open Skiff.Runtime (HeapHandle RuntimeValue RuntimeError)
open Mut

variable {ι δ α : Type}

namespace RequestHeap

/-! ## The cycle check -/

/-- The first value that reaches decides; a value that is no handle reaches nothing. -/
def valuesContainReachable (reach : HeapHandle → Except Failure Bool) :
    List RuntimeValue → Except Failure Bool
  | [] => .ok false
  | .heap handle :: rest => do
    if ← reach handle then .ok true else valuesContainReachable reach rest
  | _ :: rest => valuesContainReachable reach rest

/-- A search that turns back at the nodes of its own path. -/
def isReachableInner (heap : RequestHeap ι δ) (target : HeapHandle) :
    Nat → HeapHandle → List HeapHandle → Except Failure Bool
  | 0, _, _ => .error .outOfDepth
  | depth + 1, start, visiting =>
    if start = target then .ok true
    else if start ∈ visiting then .ok false
    else do
      let node ← heap.get start
      valuesContainReachable (fun handle => heap.isReachableInner target depth handle
        (start :: visiting)) (childValues node)

/-- The nodes of a path differ, so a depth of one more than the nodes is never used up. -/
def isReachable (heap : RequestHeap ι δ) (start target : HeapHandle) : Except Failure Bool :=
  heap.isReachableInner target (heap.nodes.length + 1) start []

def canInsertWithoutCycle (heap : RequestHeap ι δ) (target : HeapHandle) :
    RuntimeValue → Except Failure Bool
  | .heap inserted => (heap.isReachable inserted target).map not
  | _ => .ok true

def cycleError (target inserted : HeapHandle) : Failure :=
  decodeError (s!"heap mutation would create a cycle by inserting Heap(HeapHandle \x7b "
    ++ s!"index: {inserted.index}, generation: {inserted.generation}, epoch: {inserted.epoch}"
    ++ s!" \x7d) into {target.index}:{target.generation}")

def checkInsertWithoutCycle (heap : RequestHeap ι δ) (target : HeapHandle)
    (inserted : RuntimeValue) :
    Except Failure Unit := do
  if ← heap.canInsertWithoutCycle target inserted then .ok ()
  else .error (cycleError target ((asHeapHandle inserted).getD target))

/-! ## Bytes -/

def checkEstimatedBytesReplacement (heap : RequestHeap ι δ) (oldBytes newBytes : Nat) :
    Except Failure Unit :=
  if heap.limits.maxEstimatedBytes < satAdd (heap.stats.estimatedBytes - oldBytes) newBytes then
    .error (resourceLimitError "max estimated heap bytes" heap.limits.maxEstimatedBytes
      (heap.stats.estimatedBytes - oldBytes) newBytes)
  else .ok ()

def applyStatsEstimatedBytesReplacement (oldBytes newBytes : Nat) (heap : RequestHeap ι δ) :
    RequestHeap ι δ :=
  { heap with stats := { heap.stats with
      estimatedBytes := satAdd (heap.stats.estimatedBytes - oldBytes) newBytes } }

/-- Bytes that went are taken off; nothing is written when none did. -/
def releaseStatsEstimatedBytes (bytes : Nat) (heap : RequestHeap ι δ) : RequestHeap ι δ :=
  if 0 < bytes then
    { heap with stats := { heap.stats with estimatedBytes := heap.stats.estimatedBytes - bytes } }
  else heap

end RequestHeap

namespace HeapSlot

def applyEstimatedBytesReplacement (slot : HeapSlot ι δ) (oldBytes newBytes : Nat) : HeapSlot ι δ :=
  { slot with estimatedBytes := satAdd (slot.estimatedBytes - oldBytes) newBytes }

def releaseEstimatedBytes (slot : HeapSlot ι δ) (bytes : Nat) : HeapSlot ι δ :=
  if 0 < bytes then { slot with estimatedBytes := slot.estimatedBytes - bytes } else slot

end HeapSlot

namespace RequestHeap

def setSlot (heap : RequestHeap ι δ) (handle : HeapHandle) (slot : HeapSlot ι δ) :
    RequestHeap ι δ :=
  { heap with nodes := heap.nodes.set handle.index slot }

/-- Change the slot of a handle, through `slot_mut`. -/
def slotMut (handle : HeapHandle) (change : HeapSlot ι δ → Except Failure (α × HeapSlot ι δ)) :
    Action ι δ α := fun heap =>
  match heap.slot handle >>= change with
  | .ok (result, slot) => (.ok result, heap.setSlot handle slot)
  | .error failure => (.error failure, heap)

/-! ## Arrays -/

/-- The items of an array node, or the error for any other node. -/
def arrayItems (mismatch : String) (slot : HeapSlot ι δ) : Except Failure (List RuntimeValue) :=
  match slot.node with
  | .array items => .ok items
  | _ => .error (decodeError mismatch)

def pushIdentity (carriers : HeapCarrierLayout ι) (len : Nat) (identity : Option ι) :
    HeapCarrierLayout ι :=
  match carriers with
  | .array identities => .array (identities ++ [identity])
  | _ => .array (arrayIdentitySlots len ++ [identity])

def pushArrayItemCarrierInner (handle : HeapHandle) (carrier : RuntimeValueCarrier ι) :
    Action ι δ Unit := do
  let itemBytes ← read fun heap => do
    let _ ← arrayItems "Array.push target is not an array" (← heap.slot handle)
    .ok (estimateArrayItemBytes carrier.value)
  read fun heap => heap.checkEstimatedBytesReplacement 0 itemBytes
  slotMut handle fun slot => do
    let items ← arrayItems "Array.push target is not an array" slot
    .ok ((), { slot with
      node := .array (items ++ [carrier.value])
      carriers := pushIdentity slot.carriers items.length carrier.catchIdentity
      estimatedBytes := satAdd slot.estimatedBytes itemBytes })
  modify fun heap => { heap with stats := { heap.stats with
    estimatedBytes := satAdd heap.stats.estimatedBytes itemBytes } }

def pushArrayItemCarrier (handle : HeapHandle) (carrier : RuntimeValueCarrier ι) :
    Action ι δ Unit := do
  read fun heap => heap.checkInsertWithoutCycle handle carrier.value
  pushArrayItemCarrierInner handle carrier

/-- `identities[index] = identity` panics outside of the list. -/
def setIdentity (carriers : HeapCarrierLayout ι) (len index : Nat) (identity : Option ι) :
    Except Failure (HeapCarrierLayout ι) :=
  match carriers with
  | .array identities =>
    if index < identities.length then .ok (.array (identities.set index identity))
    else .error (.panic "index out of bounds")
  | _ => .ok (.array ((arrayIdentitySlots len).set index identity))

def setArrayItemCarrier (handle : HeapHandle) (index : Nat) (carrier : RuntimeValueCarrier ι) :
    Action ι δ Unit := do
  read fun heap => heap.checkInsertWithoutCycle handle carrier.value
  let oldBytes ← read fun heap => do
    let items ← arrayItems "Array.set target is not an array" (← heap.slot handle)
    match items[index]? with
    | none => .error (decodeError s!"Array.set index {index} is out of bounds")
    | some old => .ok (estimateArrayItemBytes old)
  let newBytes := estimateArrayItemBytes carrier.value
  read fun heap => heap.checkEstimatedBytesReplacement oldBytes newBytes
  slotMut handle fun slot => do
    let items ← arrayItems "Array.set target is not an array" slot
    let carriers ← setIdentity slot.carriers items.length index carrier.catchIdentity
    .ok ((), { slot with
      node := .array (items.set index carrier.value)
      carriers := carriers }.applyEstimatedBytesReplacement oldBytes newBytes)
  modify (applyStatsEstimatedBytesReplacement oldBytes newBytes)

def popIdentity : HeapCarrierLayout ι → Option ι × HeapCarrierLayout ι
  | .array identities => (identities.getLast?.join, .array identities.dropLast)
  | carriers => (none, carriers)

def popArrayItemCarrier (handle : HeapHandle) : Action ι δ (RuntimeValueCarrier ι) := do
  let poppedBytes ← read fun heap => do
    let items ← arrayItems "Array.pop target is not an array" (← heap.slot handle)
    .ok (items.getLast?.elim 0 estimateArrayItemBytes)
  let carrier ← slotMut handle fun slot => do
    let items ← arrayItems "Array.pop target is not an array" slot
    let (identity, carriers) := popIdentity slot.carriers
    .ok (⟨items.getLast?.getD .null, identity⟩, { slot with
      node := .array items.dropLast
      carriers := carriers }.releaseEstimatedBytes poppedBytes)
  modify (releaseStatsEstimatedBytes poppedBytes)
  pure carrier

/-! ## Objects and maps

Fields and entries are set and deleted on either kind of node. The node decides how the
entry is counted and where its identity is kept. -/

/-- Which of the two tables of a node an operation works on. -/
inductive EntryKind where
  | object
  | map

def EntryKind.estimate : EntryKind → String → RuntimeValue → Nat
  | .object => estimateObjectFieldBytes
  | .map => estimateMapEntryBytes

/-- The entries of a node, with the kind of the node. -/
def nodeEntries (mismatch : String) (slot : HeapSlot ι δ) :
    Except Failure (EntryKind × OrdMap String RuntimeValue) :=
  match slot.node with
  | .object fields => .ok (.object, fields)
  | .map entries => .ok (.map, entries)
  | _ => .error (decodeError mismatch)

/-- The entries of a node of the given kind, as `slot_mut` finds them again. -/
def entriesOf (mismatch : String) (kind : EntryKind) (slot : HeapSlot ι δ) :
    Except Failure (OrdMap String RuntimeValue) :=
  match kind, slot.node with
  | .object, .object fields => .ok fields
  | .map, .map entries => .ok entries
  | _, _ => .error (decodeError mismatch)

def EntryKind.node : EntryKind → OrdMap String RuntimeValue → HeapNode ι δ
  | .object => .object
  | .map => .map

/-- What the error of a failed second look says. -/
def EntryKind.mismatch : EntryKind → String
  | .object => "field assignment target is not an object"
  | .map => "Map target is not an object"

/-- `set_object_field_with_bytes` and `set_map_entry_with_bytes`. -/
def setEntryWithBytes (handle : HeapHandle) (kind : EntryKind) (key : String) (value : RuntimeValue)
    (existed : Bool) (oldBytes newBytes : Nat) : Action ι δ Bool := do
  read fun heap => heap.checkEstimatedBytesReplacement oldBytes newBytes
  slotMut handle fun slot => do
    let entries ← entriesOf kind.mismatch kind slot
    .ok ((), { slot with
      node := kind.node (entries.insert key value) }.applyEstimatedBytesReplacement oldBytes
        newBytes)
  modify (applyStatsEstimatedBytesReplacement oldBytes newBytes)
  pure existed

/-- A layout of another shape is replaced by one that has this entry only. -/
def insertIdentity (kind : EntryKind) (carriers : HeapCarrierLayout ι) (key : String)
    (identity : Option ι) : HeapCarrierLayout ι :=
  match kind, carriers with
  | .object, .object identities => .object (identities.insert key identity)
  | .object, _ => .object ((∅ : OrdMap String (Option ι)).insert key identity)
  | .map, .map identities => .map (identities.insert key identity)
  | .map, _ => .map ((∅ : OrdMap String (Option ι)).insert key identity)

def setCollectionIdentity (handle : HeapHandle) (kind : EntryKind) (key : String)
    (identity : Option ι) :
    Action ι δ Unit :=
  slotMut handle fun slot =>
    .ok ((), { slot with carriers := insertIdentity kind slot.carriers key identity })

/-- Set an entry of an object or a map. The two public forms differ in what they say
about any other target. -/
def setEntryCarrier (mismatch : String) (handle : HeapHandle) (key : String)
    (carrier : RuntimeValueCarrier ι) : Action ι δ Bool := do
  read fun heap => heap.checkInsertWithoutCycle handle carrier.value
  let (kind, entries) ← read fun heap => do nodeEntries mismatch (← heap.slot handle)
  let oldBytes := entries.weightAt kind.estimate key
  let newBytes := kind.estimate key carrier.value
  let existed ← setEntryWithBytes handle kind key carrier.value
    (entries.contains key) oldBytes newBytes
  setCollectionIdentity handle kind key carrier.catchIdentity
  pure existed

def setMapEntryCarrier : HeapHandle → String → RuntimeValueCarrier ι → Action ι δ Bool :=
  setEntryCarrier "Map target is not an object"

def setObjectFieldCarrier : HeapHandle → String → RuntimeValueCarrier ι → Action ι δ Bool :=
  setEntryCarrier "field assignment target is not an object"

/-- An identity goes from a layout of the node's own shape only. -/
def eraseIdentity (kind : EntryKind) (carriers : HeapCarrierLayout ι) (key : String) :
    HeapCarrierLayout ι :=
  match kind, carriers with
  | .object, .object identities => .object (identities.erase key)
  | .map, .map identities => .map (identities.erase key)
  | _, carriers => carriers

def deleteEntryWithBytes (handle : HeapHandle) (kind : EntryKind) (key : String) (oldBytes : Nat) :
    Action ι δ Bool := do
  let existed ← slotMut handle fun slot => do
    let entries ← entriesOf "Map target is not an object" kind slot
    .ok (entries.contains key, { slot with
      node := kind.node (entries.erase key)
      carriers := eraseIdentity kind slot.carriers key }.releaseEstimatedBytes oldBytes)
  modify (releaseStatsEstimatedBytes oldBytes)
  pure existed

/-- `delete_object_field` and `delete_map_entry` differ in the order of their branches. -/
def deleteEntry (handle : HeapHandle) (key : String) : Action ι δ Bool := do
  let (kind, entries) ← read fun heap => do
    nodeEntries "Map target is not an object" (← heap.slot handle)
  deleteEntryWithBytes handle kind key (entries.weightAt kind.estimate key)

def deleteMapEntry : HeapHandle → String → Action ι δ Bool := deleteEntry

def deleteObjectField : HeapHandle → String → Action ι δ Bool := deleteEntry

/-! ## Counters and checkpoints -/

def recomputeStats : Action ι δ Unit :=
  modify fun heap =>
    let nodes := heap.nodes.map fun slot =>
      { slot with estimatedBytes := estimateHeapNodeBytes slot.node }
    { heap with
      nodes := nodes
      stats := { heap.stats with
        nodeCount := nodes.length
        estimatedBytes := nodes.foldl (fun total slot => satAdd total slot.estimatedBytes) 0 } }

def recordCloneDepth (depth : Nat) : Action ι δ Unit := do
  read fun heap =>
    if heap.limits.maxCloneDepth < depth then
      .error (resourceLimitError "max clone depth" heap.limits.maxCloneDepth heap.stats.cloneDepth
        (depth - heap.stats.cloneDepth))
    else .ok ()
  modify fun heap =>
    { heap with stats := { heap.stats with cloneDepth := max heap.stats.cloneDepth depth } }

def recordMaterializeStats (depth outputBytes : Nat) : Action ι δ Unit := do
  read fun heap =>
    if heap.limits.maxMaterializeDepth < depth then
      .error (resourceLimitError "max materialize depth" heap.limits.maxMaterializeDepth
        heap.stats.materializeDepth (depth - heap.stats.materializeDepth))
    else .ok ()
  read fun heap =>
    if heap.limits.maxMaterializeOutputBytes < outputBytes then
      .error (resourceLimitError "max materialize output bytes"
        heap.limits.maxMaterializeOutputBytes
        heap.stats.materializeOutputBytes (outputBytes - heap.stats.materializeOutputBytes))
    else .ok ()
  modify fun heap =>
    { heap with stats := { heap.stats with
        materializeDepth := max heap.stats.materializeDepth depth
        materializeOutputBytes := max heap.stats.materializeOutputBytes outputBytes } }

def checkpoint (heap : RequestHeap ι δ) : RequestHeapCheckpoint := ⟨heap.nodes.length, heap.stats⟩

def rollbackToCheckpoint (checkpoint : RequestHeapCheckpoint) : Action ι δ Unit :=
  modify fun heap =>
    { heap with nodes := heap.nodes.take checkpoint.len, stats := checkpoint.stats }

end RequestHeap

end Skiff.Heap
