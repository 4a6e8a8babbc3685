import Skiff.Runtime.RequestHeap

/-!
# The request heap in full

`RequestHeap` (`runtime/model/src/request_heap.rs`) with everything its own accounting
reads: the bytes counted for each slot, the catch identities beside each value, interface
payloads, exceptions with a local value, and saturating counters. The heap under the
codecs and under the VM heap leaves these out.

Methods that take `&mut self` are computations over the heap, so a failure leaves what was
changed before it. A failure is an error of the source or a panic. Recursion through the
graph is bounded by a depth, and running out of it is a failure of its own.

Catch identities `ι` and the other data of exceptions `δ` are only carried along.
-/

namespace Skiff.Heap

open Skiff.Runtime (HeapHandle RuntimeValue ActorRef RuntimeError utf8)

variable {ι δ : Type}

/-! ## Values and nodes -/

structure RuntimeValueCarrier (ι : Type) where
  value : RuntimeValue
  catchIdentity : Option ι

/-- A method of an interface table, with the text of its executable. -/
structure InterfaceMethodSlot where
  slot : Nat
  methodAbiId : String
  target : String

structure InterfaceMethodTable where
  id : String
  interfaceAbiId : String
  slots : List InterfaceMethodSlot

structure CallbackCapabilityCarrier where
  ownerRuntimeReplicaId : String
  ownerActivationId : String
  requestGeneration : Nat
  interfaceOrAdapterContract : String
  opaqueCapabilityId : String

inductive InterfaceCarrier where
  | localPayload (concreteType : String) (methodTable : InterfaceMethodTable)
      (payload : RuntimeValue)
  | callbackCapability (capability : CallbackCapabilityCarrier)

structure InterfaceValue where
  interface : String
  carrier : InterfaceCarrier

/-- Only a local throw and an imported error with a local value point into the heap. -/
inductive RequestExceptionCause (ι δ : Type) where
  | localValue (value : RuntimeValueCarrier ι)
  | vmLocal (slot : δ) (identity : ι)
  | opaqueService (error : δ) (value : Option (RuntimeValueCarrier ι))

structure RequestException (ι δ : Type) where
  cause : RequestExceptionCause ι δ
  source : δ
  stack : List δ
  traceId : String
  errorId : String

namespace RequestException

def localValue (exception : RequestException ι δ) : Option (RuntimeValueCarrier ι) :=
  match exception.cause with
  | .localValue value => some value
  | .vmLocal _ _ => none
  | .opaqueService _ value => value

def mapLocalValue (exception : RequestException ι δ)
    (f : RuntimeValueCarrier ι → RuntimeValueCarrier ι) : RequestException ι δ :=
  match exception.cause with
  | .localValue value => { exception with cause := .localValue (f value) }
  | .vmLocal _ _ => exception
  | .opaqueService error (some value) =>
      { exception with cause := .opaqueService error (some (f value)) }
  | .opaqueService _ none => exception

end RequestException

inductive HeapNode (ι δ : Type) where
  | bytes (bytes : List UInt8)
  | array (items : List RuntimeValue)
  | object (fields : OrdMap String RuntimeValue)
  | map (entries : OrdMap String RuntimeValue)
  | interface (value : InterfaceValue)
  | exception (exception : RequestException ι δ)

/-- The values a node points to others with. -/
def childValues : HeapNode ι δ → List RuntimeValue
  | .bytes _ => []
  | .array items => items
  | .object fields => fields.values
  | .map entries => entries.values
  | .interface ⟨_, .localPayload _ _ payload⟩ => [payload]
  | .interface ⟨_, .callbackCapability _⟩ => []
  | .exception exception => (exception.localValue.map (·.value)).toList

def asHeapHandle : RuntimeValue → Option HeapHandle
  | .heap handle => some handle
  | _ => none

def heapNodeChildHandles (node : HeapNode ι δ) : List HeapHandle :=
  (childValues node).filterMap asHeapHandle

theorem asHeapHandle_eq_some {value : RuntimeValue} {handle : HeapHandle} :
    asHeapHandle value = some handle ↔ value = .heap handle := by
  cases value <;> simp [asHeapHandle]

theorem mem_heapNodeChildHandles {node : HeapNode ι δ} {handle : HeapHandle} :
    handle ∈ heapNodeChildHandles node ↔ RuntimeValue.heap handle ∈ childValues node := by
  simp [heapNodeChildHandles, asHeapHandle_eq_some]

/-! ## Estimates -/

def usizeMax : Nat := 2 ^ 64 - 1

/-- `usize::saturating_add`. -/
def satAdd (a b : Nat) : Nat := min (a + b) usizeMax

def nodeOverheadBytes : Nat := 32
def arrayItemOverheadBytes : Nat := 8
def objectFieldOverheadBytes : Nat := 16
def mapEntryOverheadBytes : Nat := 24
def interfaceValueOverheadBytes : Nat := 48
def interfaceMethodSlotOverheadBytes : Nat := 32
def handleBytes : Nat := 8

def textLen (text : String) : Nat := (utf8 text).length

def estimateActorRefBytes (actor : ActorRef) : Nat :=
  satAdd (satAdd (satAdd (satAdd (satAdd (satAdd (textLen actor.serviceId)
    (textLen actor.actorTypeIdentity)) (textLen actor.actorIdTypeIdentity))
    (textLen actor.actorIdEncodingVersion)) actor.canonicalActorIdKeyBytes.length)
    (textLen actor.actorIdHash)) 16

def estimateValueBytes : RuntimeValue → Nat
  | .null => 0
  | .bool _ => 1
  | .number _ => 8
  | .date _ => 8
  | .string text => textLen text
  | .actorRef actor => estimateActorRefBytes actor
  | .heap _ => handleBytes

def estimateArrayItemBytes (value : RuntimeValue) : Nat :=
  satAdd arrayItemOverheadBytes (estimateValueBytes value)

def estimateObjectFieldBytes (key : String) (value : RuntimeValue) : Nat :=
  satAdd (satAdd objectFieldOverheadBytes (textLen key)) (estimateValueBytes value)

def estimateMapEntryBytes (key : String) (value : RuntimeValue) : Nat :=
  satAdd (satAdd mapEntryOverheadBytes (textLen key)) (estimateValueBytes value)

def estimateInterfaceMethodTableBytes (table : InterfaceMethodTable) : Nat :=
  satAdd (satAdd (textLen table.id) (textLen table.interfaceAbiId))
    (table.slots.foldl (fun total slot =>
      satAdd (satAdd (satAdd total interfaceMethodSlotOverheadBytes) (textLen slot.methodAbiId))
        (textLen slot.target)) 0)

def estimateInterfaceValueBytes (value : InterfaceValue) : Nat :=
  let base := satAdd (satAdd nodeOverheadBytes interfaceValueOverheadBytes)
    (textLen value.interface)
  match value.carrier with
  | .localPayload concreteType methodTable payload =>
    satAdd (satAdd (satAdd base (textLen concreteType))
      (estimateInterfaceMethodTableBytes methodTable)) (estimateValueBytes payload)
  | .callbackCapability capability =>
    satAdd (satAdd (satAdd (satAdd (satAdd base (textLen capability.ownerRuntimeReplicaId))
      (textLen capability.ownerActivationId)) 8)
      (textLen capability.interfaceOrAdapterContract)) (textLen capability.opaqueCapabilityId)

/-- The entries of a map or an object, counted in key order. -/
def estimateEntries (estimate : String → RuntimeValue → Nat)
    (entries : OrdMap String RuntimeValue) : Nat :=
  entries.entries.foldl (fun total entry => satAdd total (estimate entry.1 entry.2))
    nodeOverheadBytes

def estimateHeapNodeBytes : HeapNode ι δ → Nat
  | .bytes bytes => satAdd nodeOverheadBytes bytes.length
  | .array items => satAdd nodeOverheadBytes (items.map estimateArrayItemBytes).sum
  | .object fields => estimateEntries estimateObjectFieldBytes fields
  | .map entries => estimateEntries estimateMapEntryBytes entries
  | .interface value => estimateInterfaceValueBytes value
  | .exception exception =>
    satAdd (satAdd
      (satAdd nodeOverheadBytes (min (exception.stack.length * nodeOverheadBytes) usizeMax))
      (textLen exception.traceId)) (textLen exception.errorId)

/-! ## The heap -/

/-- The catch identities of a slot, in the shape of its node. -/
inductive HeapCarrierLayout (ι : Type) where
  | none
  | array (identities : List (Option ι))
  | object (identities : OrdMap String (Option ι))
  | map (identities : OrdMap String (Option ι))
  | interface (identity : Option ι)
  | localCarrierCell (identity : Option ι)

def arrayIdentitySlots (len : Nat) : List (Option ι) := List.replicate len .none

def HeapCarrierLayout.forNode : HeapNode ι δ → HeapCarrierLayout ι
  | .array items => .array (arrayIdentitySlots items.length)
  | .object fields => .object (fields.map fun _ => .none)
  | .map entries => .map (entries.map fun _ => .none)
  | .interface _ => .interface .none
  | .bytes _ => .none
  | .exception _ => .none

structure HeapSlot (ι δ : Type) where
  generation : Nat
  estimatedBytes : Nat
  node : HeapNode ι δ
  carriers : HeapCarrierLayout ι

structure RequestHeapLimits where
  maxNodes : Nat
  maxEstimatedBytes : Nat
  maxCloneDepth : Nat
  maxMaterializeDepth : Nat
  maxMaterializeOutputBytes : Nat

structure RequestHeapStats where
  nodeCount : Nat
  estimatedBytes : Nat
  cloneDepth : Nat
  materializeDepth : Nat
  materializeOutputBytes : Nat

structure RequestHeapCheckpoint where
  len : Nat
  stats : RequestHeapStats

structure RequestHeap (ι δ : Type) where
  nodes : List (HeapSlot ι δ)
  limits : RequestHeapLimits
  stats : RequestHeapStats
  epoch : Nat

/-- How a computation over the heap ends when it does not return. -/
inductive Failure where
  | error (error : RuntimeError)
  | panic (reason : String)
  | outOfDepth

def decodeError (message : String) : Failure := .error (.decode message)

def resourceLimitError (reason : String) (limit current requestedDelta : Nat) : Failure :=
  .error (.resourceLimitExceeded reason limit current requestedDelta)

def invalidHandleError (handle : HeapHandle) (reason : String) : Failure :=
  decodeError s!"invalid heap handle {handle.index}:{handle.generation}: {reason}"

abbrev Action (ι δ α : Type) := Mut (RequestHeap ι δ) Failure α

namespace RequestHeap

def newWithEpoch (epoch : Nat) (limits : RequestHeapLimits) : RequestHeap ι δ :=
  ⟨[], limits, ⟨0, 0, 0, 0, 0⟩, epoch⟩

def initialGeneration : Nat := 0
def u32Max : Nat := 2 ^ 32 - 1

def slot (heap : RequestHeap ι δ) (handle : HeapHandle) : Except Failure (HeapSlot ι δ) :=
  if handle.epoch ≠ heap.epoch then
    .error (invalidHandleError handle "epoch does not match heap slot")
  else
    match heap.nodes[handle.index]? with
    | none => .error (invalidHandleError handle "index is out of bounds")
    | some slot =>
      if slot.generation ≠ handle.generation then
        .error (invalidHandleError handle "generation does not match heap slot")
      else .ok slot

def get (heap : RequestHeap ι δ) (handle : HeapHandle) : Except Failure (HeapNode ι δ) :=
  (heap.slot handle).map HeapSlot.node

/-- The handle of the slot at an index. -/
def handleAt (heap : RequestHeap ι δ) (index : Nat) (slot : HeapSlot ι δ) : HeapHandle :=
  ⟨index, slot.generation, heap.epoch⟩

/-! ## Allocation -/

def checkNodeLimit (heap : RequestHeap ι δ) : Except Failure Unit :=
  if heap.limits.maxNodes < satAdd heap.stats.nodeCount 1 then
    .error (resourceLimitError "max heap nodes" heap.limits.maxNodes heap.stats.nodeCount 1)
  else .ok ()

def checkEstimatedBytesLimit (heap : RequestHeap ι δ) (estimatedBytes : Nat) :
    Except Failure Unit :=
  if heap.limits.maxEstimatedBytes < satAdd heap.stats.estimatedBytes estimatedBytes then
    .error (resourceLimitError "max estimated heap bytes" heap.limits.maxEstimatedBytes
      heap.stats.estimatedBytes estimatedBytes)
  else .ok ()

def checkIndexSpace (heap : RequestHeap ι δ) : Except Failure Unit :=
  if u32Max ≤ heap.nodes.length then
    .error (resourceLimitError "heap handle index space" u32Max heap.nodes.length 1)
  else .ok ()

def pushSlot (heap : RequestHeap ι δ) (node : HeapNode ι δ) (carriers : HeapCarrierLayout ι) :
    RequestHeap ι δ :=
  { heap with
    nodes := heap.nodes ++ [⟨initialGeneration, estimateHeapNodeBytes node, node, carriers⟩]
    stats := { heap.stats with
      nodeCount := heap.stats.nodeCount + 1
      estimatedBytes := satAdd heap.stats.estimatedBytes (estimateHeapNodeBytes node) } }

def allocNodeWithCarriers (node : HeapNode ι δ) (carriers : HeapCarrierLayout ι) :
    Action ι δ HeapHandle := do
  Mut.read checkNodeLimit
  Mut.read fun heap => heap.checkEstimatedBytesLimit (estimateHeapNodeBytes node)
  Mut.read checkIndexSpace
  let handle ← Mut.read fun heap => .ok ⟨heap.nodes.length, initialGeneration, heap.epoch⟩
  Mut.modify fun heap => heap.pushSlot node carriers
  pure handle

def allocNode (node : HeapNode ι δ) : Action ι δ HeapHandle :=
  allocNodeWithCarriers node (.forNode node)

def allocArray (items : List RuntimeValue) : Action ι δ HeapHandle := allocNode (.array items)

def allocArrayCarriers (items : List (RuntimeValueCarrier ι)) : Action ι δ HeapHandle :=
  allocNodeWithCarriers (.array (items.map (·.value))) (.array (items.map (·.catchIdentity)))

/-- A cell with one value that keeps its identity. It is not an ordinary array. -/
def allocLocalCarrierCell (carrier : RuntimeValueCarrier ι) : Action ι δ HeapHandle :=
  allocNodeWithCarriers (.array [carrier.value]) (.localCarrierCell carrier.catchIdentity)

def allocBytes (bytes : List UInt8) : Action ι δ HeapHandle := allocNode (.bytes bytes)

def allocObject (fields : OrdMap String RuntimeValue) : Action ι δ HeapHandle :=
  allocNode (.object fields)

def allocObjectCarriers (fields : OrdMap String (RuntimeValueCarrier ι)) : Action ι δ HeapHandle :=
  allocNodeWithCarriers (.object (fields.map (·.value))) (.object (fields.map (·.catchIdentity)))

def allocMap (entries : OrdMap String RuntimeValue) : Action ι δ HeapHandle :=
  allocNode (.map entries)

def allocMapCarriers (entries : OrdMap String (RuntimeValueCarrier ι)) : Action ι δ HeapHandle :=
  allocNodeWithCarriers (.map (entries.map (·.value))) (.map (entries.map (·.catchIdentity)))

def allocInterface (value : InterfaceValue) : Action ι δ HeapHandle := allocNode (.interface value)

def allocInterfaceWithLocalPayloadIdentity (value : InterfaceValue) (identity : Option ι) :
    Action ι δ HeapHandle :=
  allocNodeWithCarriers (.interface value) (.interface identity)

def allocException (exception : RequestException ι δ) : Action ι δ HeapHandle :=
  allocNode (.exception exception)

/-! ## Reads -/

def arrayItemCarrier (heap : RequestHeap ι δ) (handle : HeapHandle) (index : Nat) :
    Except Failure (Option (RuntimeValueCarrier ι)) := do
  match ← heap.slot handle with
  | ⟨_, _, .array _, .localCarrierCell _⟩ => .ok none
  | ⟨_, _, .array items, .array identities⟩ =>
    .ok (items[index]?.map fun value => ⟨value, identities[index]?.join⟩)
  | ⟨_, _, .array items, _⟩ => .ok (items[index]?.map fun value => ⟨value, none⟩)
  | _ => .ok none

def localCarrierCell (heap : RequestHeap ι δ) (handle : HeapHandle) :
    Except Failure (Option (RuntimeValueCarrier ι)) := do
  match ← heap.slot handle with
  | ⟨_, _, .array (value :: _), .localCarrierCell identity⟩ => .ok (some ⟨value, identity⟩)
  | ⟨_, _, .array [], .localCarrierCell _⟩ =>
    .error (decodeError "request-local carrier cell is empty")
  | _ => .ok none

/-- The identities kept for the fields of an object or the entries of a map. -/
def entryCarrier (values : OrdMap String RuntimeValue) (identities : OrdMap String (Option ι))
    (key : String) : Option (RuntimeValueCarrier ι) :=
  (values.get? key).map fun value => ⟨value, (identities.get? key).join⟩

def objectFieldCarrier (heap : RequestHeap ι δ) (handle : HeapHandle) (field : String) :
    Except Failure (Option (RuntimeValueCarrier ι)) := do
  match ← heap.slot handle with
  | ⟨_, _, .object fields, .object identities⟩ => .ok (entryCarrier fields identities field)
  | ⟨_, _, .object fields, _⟩ => .ok (entryCarrier fields ∅ field)
  | ⟨_, _, .map entries, .map identities⟩ => .ok (entryCarrier entries identities field)
  | ⟨_, _, .map entries, _⟩ => .ok (entryCarrier entries ∅ field)
  | _ => .ok none

/-- A key is a string, so entries and fields are read alike. -/
def mapEntryCarrier (heap : RequestHeap ι δ) (handle : HeapHandle) (key : String) :
    Except Failure (Option (RuntimeValueCarrier ι)) := do
  match ← heap.slot handle with
  | ⟨_, _, .map entries, .map identities⟩ => .ok (entryCarrier entries identities key)
  | ⟨_, _, .map entries, _⟩ => .ok (entryCarrier entries ∅ key)
  | ⟨_, _, .object _, _⟩ => heap.objectFieldCarrier handle key
  | _ => .ok none

def interfaceLocalPayloadCarrier (heap : RequestHeap ι δ) (handle : HeapHandle) :
    Except Failure (Option (RuntimeValueCarrier ι)) := do
  match ← heap.slot handle with
  | ⟨_, _, .interface ⟨_, .localPayload _ _ payload⟩, .interface identity⟩ =>
    .ok (some ⟨payload, identity⟩)
  | ⟨_, _, .interface ⟨_, .localPayload _ _ payload⟩, _⟩ => .ok (some ⟨payload, none⟩)
  | _ => .ok none

end RequestHeap

end Skiff.Heap
