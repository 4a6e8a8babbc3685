import Skiff.Data.OrdMap
import Skiff.Data.Wire
import Mathlib.Data.Prod.Lex
import Mathlib.Data.String.Basic

/-!
# The request heap

Runtime values, the nodes they point to, allocation within the limits of a request, and
updates in place (`runtime/model/src/request_heap.rs`). Numbers and dates are kept as
their 64 bits. Handles carry an index, a generation and the epoch of their arena.

What nothing here reads is left out: the catch identities of carriers, of which only the
local carrier cell remains as a layout of its own, and the byte counts per slot, which
only a recount uses. Counters are natural numbers.
-/

namespace Skiff.Runtime

/-! ## Texts -/

/-- The bytes of a string. -/
def utf8 (text : String) : List UInt8 := text.toByteArray.data.toList

/-- `str::from_utf8`. -/
def fromUtf8 (bytes : List UInt8) : Option String := String.fromUTF8? ⟨⟨bytes⟩⟩

@[simp] theorem fromUtf8_utf8 (text : String) : fromUtf8 (utf8 text) = some text := by
  have hvalid : ByteArray.IsValidUTF8 ⟨⟨utf8 text⟩⟩ := text.isValidUTF8
  rw [fromUtf8, String.fromUTF8?, dif_pos hvalid]
  rfl

theorem fromUtf8_eq_some {bytes : List UInt8} {text : String} :
    fromUtf8 bytes = some text ↔ bytes = utf8 text := by
  constructor
  · intro h
    rw [fromUtf8, String.fromUTF8?] at h
    split at h
    case isTrue hvalid =>
      cases h
      rfl
    case isFalse => cases h
  rintro rfl
  exact fromUtf8_utf8 text

/-! ## Values -/

structure HeapHandle where
  index : Nat
  generation : Nat
  epoch : Nat
deriving DecidableEq

namespace HeapHandle

def key (handle : HeapHandle) : ℕ ×ₗ ℕ ×ₗ ℕ :=
  toLex (handle.index, toLex (handle.generation, handle.epoch))

theorem key_injective : Function.Injective key := by
  rintro ⟨i, g, e⟩ ⟨i', g', e'⟩ h
  cases h
  rfl

instance : LinearOrder HeapHandle := LinearOrder.lift' key key_injective

end HeapHandle

structure ActorRef where
  serviceId : String
  actorTypeIdentity : String
  actorIdTypeIdentity : String
  actorIdEncodingVersion : String
  canonicalActorIdKeyBytes : List UInt8
  actorIdHash : String
deriving DecidableEq

inductive RuntimeValue where
  | null
  | bool (value : Bool)
  | number (bits : BitVec 64)
  | date (millis : BitVec 64)
  | string (text : String)
  | actorRef (actor : ActorRef)
  | heap (handle : HeapHandle)
deriving DecidableEq

/-- An interface value, by what the codec says about it. -/
structure InterfaceValue where
  diagnosticLabel : String
  estimatedBytes : Nat

/-- Map keys have one form, a string. -/
inductive HeapNode where
  | bytes (bytes : List UInt8)
  | array (items : List RuntimeValue)
  | object (fields : OrdMap String RuntimeValue)
  | map (entries : OrdMap String RuntimeValue)
  | interface (value : InterfaceValue)
  | exception (estimatedBytes : Nat)

/-! ## Errors -/

inductive RuntimeError where
  | invalidArtifact (message : String)
  | decode (message : String)
  | decodeTarget (target message : String)
  | unsupported (message : String)
  | recoverable (operation expected value : String)
  | resourceLimitExceeded (reason : String) (limit current requestedDelta : Nat)
deriving DecidableEq

def RuntimeError.toString : RuntimeError → String
  | invalidArtifact message => message
  | decode message => message
  | decodeTarget target message => s!"decode error for {target}: {message}"
  | unsupported message => message
  | recoverable operation expected value =>
    s!"recoverable {operation} is unsupported for expected type {expected}; {value} requires a recoverable envelope"
  | resourceLimitExceeded reason _ _ _ => s!"resource limit exceeded for requestHeap: {reason}"

/-! ## Estimates -/

def estimateValueBytes : RuntimeValue → Nat
  | .null => 0
  | .bool _ => 1
  | .number _ => 8
  | .date _ => 8
  | .string text => (utf8 text).length
  | .actorRef actor =>
    (utf8 actor.serviceId).length + (utf8 actor.actorTypeIdentity).length +
      (utf8 actor.actorIdTypeIdentity).length + (utf8 actor.actorIdEncodingVersion).length +
      actor.canonicalActorIdKeyBytes.length + (utf8 actor.actorIdHash).length + 16
  | .heap _ => 8

def estimateArrayItemBytes (value : RuntimeValue) : Nat := 8 + estimateValueBytes value

def estimateObjectFieldBytes (key : String) (value : RuntimeValue) : Nat :=
  16 + (utf8 key).length + estimateValueBytes value

def estimateMapEntryBytes (key : String) (value : RuntimeValue) : Nat :=
  24 + (utf8 key).length + estimateValueBytes value

def nodeOverheadBytes : Nat := 32

def estimateHeapNodeBytes : HeapNode → Nat
  | .bytes bytes => nodeOverheadBytes + bytes.length
  | .array items => nodeOverheadBytes + (items.map estimateArrayItemBytes).sum
  | .object fields => nodeOverheadBytes + fields.weight estimateObjectFieldBytes
  | .map entries => nodeOverheadBytes + entries.weight estimateMapEntryBytes
  | .interface value => value.estimatedBytes
  | .exception estimatedBytes => estimatedBytes

/-! ## The heap -/

/-- How a slot keeps its values. A local carrier cell is an array node with one value
that is not an ordinary array. -/
inductive HeapCarrierLayout where
  | plain
  | localCarrierCell

structure HeapSlot where
  generation : Nat
  node : HeapNode
  carriers : HeapCarrierLayout

structure RequestHeapLimits where
  maxNodes : Nat
  maxEstimatedBytes : Nat

structure RequestHeapStats where
  nodeCount : Nat
  estimatedBytes : Nat

structure RequestHeap where
  nodes : List HeapSlot
  limits : RequestHeapLimits
  stats : RequestHeapStats
  epoch : Nat

namespace RequestHeap

def new (limits : RequestHeapLimits) : RequestHeap := ⟨[], limits, ⟨0, 0⟩, 0⟩

def u32Max : Nat := 2 ^ 32 - 1

def allocNodeWithCarriers (heap : RequestHeap) (node : HeapNode) (carriers : HeapCarrierLayout) :
    Except RuntimeError (HeapHandle × RequestHeap) :=
  let estimatedBytes := estimateHeapNodeBytes node
  if heap.limits.maxNodes < heap.stats.nodeCount + 1 then
    .error (.resourceLimitExceeded "max heap nodes" heap.limits.maxNodes heap.stats.nodeCount 1)
  else if heap.limits.maxEstimatedBytes < heap.stats.estimatedBytes + estimatedBytes then
    .error (.resourceLimitExceeded "max estimated heap bytes" heap.limits.maxEstimatedBytes
      heap.stats.estimatedBytes estimatedBytes)
  else if u32Max ≤ heap.nodes.length then
    .error (.resourceLimitExceeded "heap handle index space" u32Max heap.nodes.length 1)
  else
    .ok (⟨heap.nodes.length, 0, heap.epoch⟩,
      { heap with
        nodes := heap.nodes ++ [⟨0, node, carriers⟩]
        stats := ⟨heap.stats.nodeCount + 1, heap.stats.estimatedBytes + estimatedBytes⟩ })

def allocNode (heap : RequestHeap) (node : HeapNode) :
    Except RuntimeError (HeapHandle × RequestHeap) :=
  heap.allocNodeWithCarriers node .plain

def invalidHandleError (handle : HeapHandle) (reason : String) : RuntimeError :=
  .decode s!"invalid heap handle {handle.index}:{handle.generation}: {reason}"

def slot (heap : RequestHeap) (handle : HeapHandle) : Except RuntimeError HeapSlot :=
  if handle.epoch ≠ heap.epoch then
    .error (invalidHandleError handle "epoch does not match heap slot")
  else
    match heap.nodes[handle.index]? with
    | none => .error (invalidHandleError handle "index is out of bounds")
    | some slot =>
      if slot.generation ≠ handle.generation then
        .error (invalidHandleError handle "generation does not match heap slot")
      else .ok slot

def get (heap : RequestHeap) (handle : HeapHandle) : Except RuntimeError HeapNode :=
  (heap.slot handle).map HeapSlot.node

/-! ## Updates in place -/

/-- The values a node holds. Interface and exception nodes keep theirs outside of the
model. -/
def childValues : HeapNode → List RuntimeValue
  | .bytes _ => []
  | .array items => items
  | .object fields => fields.values
  | .map entries => entries.values
  | .interface _ => []
  | .exception _ => []

/-- `value_contains_reachable` over a list: the first value that is reached decides. -/
def valuesContainReachable (reach : HeapHandle → Except RuntimeError Bool) :
    List RuntimeValue → Except RuntimeError Bool
  | [] => .ok false
  | .heap handle :: rest => do
    if ← reach handle then .ok true else valuesContainReachable reach rest
  | _ :: rest => valuesContainReachable reach rest

/-- A search that cuts off at nodes on its own path. The nodes of a path differ, so a
depth of one more than the number of nodes is never used up. -/
def isReachableInner (heap : RequestHeap) (target : HeapHandle) :
    Nat → HeapHandle → List HeapHandle → Except RuntimeError Bool
  | 0, _, _ => .error (.decode "search too deep")
  | depth + 1, start, visiting =>
    if start = target then .ok true
    else if start ∈ visiting then .ok false
    else do
      let node ← heap.get start
      valuesContainReachable (fun handle => heap.isReachableInner target depth handle
        (start :: visiting)) (childValues node)

def isReachable (heap : RequestHeap) (start target : HeapHandle) : Except RuntimeError Bool :=
  heap.isReachableInner target (heap.nodes.length + 1) start []

def checkInsertWithoutCycle (heap : RequestHeap) (target : HeapHandle) :
    RuntimeValue → Except RuntimeError Unit
  | .heap inserted => do
    if ← heap.isReachable inserted target then
      .error (.decode (s!"heap mutation would create a cycle by inserting Heap(HeapHandle \x7b "
        ++ s!"index: {inserted.index}, generation: {inserted.generation}, epoch: {inserted.epoch}"
        ++ s!" \x7d) into {target.index}:{target.generation}"))
    else .ok ()
  | _ => .ok ()

def checkEstimatedBytesReplacement (heap : RequestHeap) (oldBytes newBytes : Nat) :
    Except RuntimeError Unit :=
  if heap.limits.maxEstimatedBytes < heap.stats.estimatedBytes - oldBytes + newBytes then
    .error (.resourceLimitExceeded "max estimated heap bytes" heap.limits.maxEstimatedBytes
      (heap.stats.estimatedBytes - oldBytes) newBytes)
  else .ok ()

/-- Store a node in its slot, with the bytes it gained and lost. -/
def replaceNode (heap : RequestHeap) (handle : HeapHandle) (node : HeapNode)
    (oldBytes newBytes : Nat) :
    RequestHeap :=
  { heap with
    nodes := heap.nodes.modify handle.index fun slot => ⟨slot.generation, node, .plain⟩
    stats := ⟨heap.stats.nodeCount, heap.stats.estimatedBytes - oldBytes + newBytes⟩ }

def pushArrayItem (heap : RequestHeap) (handle : HeapHandle) (value : RuntimeValue) :
    Except RuntimeError RequestHeap := do
  heap.checkInsertWithoutCycle handle value
  match ← heap.get handle with
  | .array items =>
    heap.checkEstimatedBytesReplacement 0 (estimateArrayItemBytes value)
    .ok (heap.replaceNode handle (.array (items ++ [value])) 0 (estimateArrayItemBytes value))
  | _ => .error (.decode "Array.push target is not an array")

def setArrayItem (heap : RequestHeap) (handle : HeapHandle) (index : Nat) (value : RuntimeValue) :
    Except RuntimeError RequestHeap := do
  heap.checkInsertWithoutCycle handle value
  match ← heap.get handle with
  | .array items =>
    match items[index]? with
    | none => .error (.decode s!"Array.set index {index} is out of bounds")
    | some old =>
      heap.checkEstimatedBytesReplacement (estimateArrayItemBytes old)
        (estimateArrayItemBytes value)
      .ok (heap.replaceNode handle (.array (items.set index value))
        (estimateArrayItemBytes old) (estimateArrayItemBytes value))
  | _ => .error (.decode "Array.set target is not an array")

/-- The bytes an entry counts, if it is there. -/
def entryBytes (estimate : String → RuntimeValue → Nat) (key : String) : Option RuntimeValue → Nat
  | none => 0
  | some value => estimate key value

/-- `set_map_entry_carrier` and `set_object_field_carrier` take objects and maps alike and
differ in what they say about any other target. -/
def setEntry (heap : RequestHeap) (mismatch : String) (handle : HeapHandle) (key : String)
    (value : RuntimeValue) : Except RuntimeError (Bool × RequestHeap) := do
  heap.checkInsertWithoutCycle handle value
  match ← heap.get handle with
  | .map entries =>
    let oldBytes := entryBytes estimateMapEntryBytes key (entries.get? key)
    let newBytes := estimateMapEntryBytes key value
    heap.checkEstimatedBytesReplacement oldBytes newBytes
    .ok (entries.contains key,
      heap.replaceNode handle (.map (entries.insert key value)) oldBytes newBytes)
  | .object fields =>
    let oldBytes := entryBytes estimateObjectFieldBytes key (fields.get? key)
    let newBytes := estimateObjectFieldBytes key value
    heap.checkEstimatedBytesReplacement oldBytes newBytes
    .ok (fields.contains key,
      heap.replaceNode handle (.object (fields.insert key value)) oldBytes newBytes)
  | _ => .error (.decode mismatch)

def setMapEntry (heap : RequestHeap) : HeapHandle → String → RuntimeValue →
    Except RuntimeError (Bool × RequestHeap) :=
  heap.setEntry "Map target is not an object"

def setObjectField (heap : RequestHeap) : HeapHandle → String → RuntimeValue →
    Except RuntimeError (Bool × RequestHeap) :=
  heap.setEntry "field assignment target is not an object"

def deleteObjectField (heap : RequestHeap) (handle : HeapHandle) (field : String) :
    Except RuntimeError (Bool × RequestHeap) := do
  match ← heap.get handle with
  | .object fields =>
    .ok (fields.contains field, heap.replaceNode handle (.object (fields.erase field))
      (entryBytes estimateObjectFieldBytes field (fields.get? field)) 0)
  | .map entries =>
    .ok (entries.contains field, heap.replaceNode handle (.map (entries.erase field))
      (entryBytes estimateMapEntryBytes field (entries.get? field)) 0)
  | _ => .error (.decode "Map target is not an object")

/-! ## Reads -/

/-- `local_carrier_cell`: the value of a cell, and nothing for any other node. -/
def localCarrierCell (heap : RequestHeap) (handle : HeapHandle) :
    Except RuntimeError (Option RuntimeValue) := do
  match ← heap.slot handle with
  | ⟨_, .array (value :: _), .localCarrierCell⟩ => .ok (some value)
  | ⟨_, .array [], .localCarrierCell⟩ => .error (.decode "request-local carrier cell is empty")
  | _ => .ok none

/-- Objects and maps both have fields. -/
def objectField (heap : RequestHeap) (handle : HeapHandle) (field : String) :
    Except RuntimeError (Option RuntimeValue) := do
  match ← heap.get handle with
  | .object fields => .ok (fields.get? field)
  | .map entries => .ok (entries.get? field)
  | _ => .ok none

/-! Handles stay valid when nodes are added. -/

variable {handle : HeapHandle} {heap : RequestHeap}

variable {stats : RequestHeapStats}

theorem slot_append {slots : List HeapSlot} {slot : HeapSlot} (h : heap.slot handle = .ok slot) :
    ({ heap with nodes := heap.nodes ++ slots, stats := stats } : RequestHeap).slot handle =
      .ok slot := by
  unfold RequestHeap.slot at h ⊢
  split at h
  · cases h
  case isFalse hepoch =>
    rw [if_neg hepoch]
    cases hslot : heap.nodes[handle.index]? with
    | none => simp [hslot] at h
    | some slot =>
      have hbound := (List.getElem?_eq_some_iff.mp hslot).1
      simp only [List.getElem?_append_left hbound, hslot]
      simpa [hslot] using h

theorem get_eq_ok {node : HeapNode} :
    heap.get handle = .ok node ↔ ∃ slot, heap.slot handle = .ok slot ∧ slot.node = node := by
  unfold get
  cases heap.slot handle <;> simp [Except.map]

theorem get_append {slots : List HeapSlot} {node : HeapNode} (h : heap.get handle = .ok node) :
    ({ heap with nodes := heap.nodes ++ slots, stats := stats } : RequestHeap).get handle =
      .ok node := by
  obtain ⟨slot, hslot, hnode⟩ := get_eq_ok.mp h
  exact get_eq_ok.mpr ⟨slot, slot_append hslot, hnode⟩

end RequestHeap

end Skiff.Runtime
