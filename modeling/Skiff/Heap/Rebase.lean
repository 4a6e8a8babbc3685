import Skiff.Heap.Edits

/-!
# Rollback that keeps what is still reachable

`prepare_rollback_rebase` walks the graph from the nodes below a checkpoint and from the
given roots, breadth first, and gives every node above the checkpoint that it meets a new
handle right behind the checkpoint. It then rewrites all kept nodes and the roots with the
new handles. `commit_prepared_rollback_rebase` installs the result.
-/

namespace Skiff.Heap

open Relation
open Skiff.Runtime (HeapHandle RuntimeValue RuntimeError)
open RequestHeap

variable {ι δ : Type}

/-! ## Rewriting -/

def undiscoveredError (handle : HeapHandle) : Failure :=
  decodeError
    s!"heap handle {handle.index}:{handle.generation} was not discovered during rollback rebase"

def rewriteRuntimeValue (mapped : OrdMap HeapHandle HeapHandle) :
    RuntimeValue → Except Failure RuntimeValue
  | .heap handle =>
    match mapped.get? handle with
    | some destination => .ok (.heap destination)
    | none => .error (undiscoveredError handle)
  | value => .ok value

def rewriteEntries (mapped : OrdMap HeapHandle HeapHandle) (entries : OrdMap String RuntimeValue) :
    Except Failure (OrdMap String RuntimeValue) := do
  let rewritten ← entries.entries.mapM fun entry => do
    .ok (entry.1, ← rewriteRuntimeValue mapped entry.2)
  .ok (OrdMap.ofList rewritten)

def rewriteInterfaceValue (mapped : OrdMap HeapHandle HeapHandle) (source : InterfaceValue) :
    Except Failure InterfaceValue :=
  match source.carrier with
  | .localPayload concreteType methodTable payload => do
    .ok ⟨source.interface, .localPayload concreteType methodTable
      (← rewriteRuntimeValue mapped payload)⟩
  | .callbackCapability capability => .ok ⟨source.interface, .callbackCapability capability⟩

def rewriteHeapNode (mapped : OrdMap HeapHandle HeapHandle) :
    HeapNode ι δ → Except Failure (HeapNode ι δ)
  | .bytes bytes => .ok (.bytes bytes)
  | .array items => do .ok (.array (← items.mapM (rewriteRuntimeValue mapped)))
  | .object fields => do .ok (.object (← rewriteEntries mapped fields))
  | .map entries => do .ok (.map (← rewriteEntries mapped entries))
  | .interface value => do .ok (.interface (← rewriteInterfaceValue mapped value))
  | .exception exception =>
    match exception.localValue with
    | some carrier => do
      let rewritten ← rewriteRuntimeValue mapped carrier.value
      .ok (.exception (exception.mapLocalValue fun _ => ⟨rewritten, carrier.catchIdentity⟩))
    | none => .ok (.exception exception)

def rewriteHeapSlot (mapped : OrdMap HeapHandle HeapHandle) (source : HeapSlot ι δ) :
    Except Failure (HeapSlot ι δ) := do
  let node ← rewriteHeapNode mapped source.node
  .ok ⟨source.generation, estimateHeapNodeBytes node, node, source.carriers⟩

/-! ## The builder -/

structure RollbackRebaseBuilder where
  mapped : OrdMap HeapHandle HeapHandle
  suffixSources : List HeapHandle
  scheduled : List HeapHandle
  queue : List (HeapHandle × Nat)
  maxDepth : Nat

structure PreparedRequestHeapRollback (ι δ : Type) where
  nodes : List (HeapSlot ι δ)
  stats : RequestHeapStats
  rebasedRoots : List RuntimeValue

/-- The handles of the nodes below a checkpoint. -/
def prefixHandles (source : RequestHeap ι δ) (checkpoint : RequestHeapCheckpoint) :
    List HeapHandle :=
  (source.nodes.take checkpoint.len).mapIdx source.handleAt

namespace RollbackRebaseBuilder

def new (source : RequestHeap ι δ) (checkpoint : RequestHeapCheckpoint) :
    RollbackRebaseBuilder where
  mapped := OrdMap.ofList ((prefixHandles source checkpoint).map fun handle => (handle, handle))
  suffixSources := []
  scheduled := []
  queue := []
  maxDepth := 0

section

variable (source : RequestHeap ι δ) (checkpoint : RequestHeapCheckpoint)

/-- The generation that the slot at a destination is given. -/
def destinationGeneration (index : Nat) : Except Failure Nat :=
  match source.nodes[index]? with
  | some slot =>
    if u32Max < slot.generation + 1 then
      .error (resourceLimitError "heap slot generation space" u32Max slot.generation 1)
    else .ok (slot.generation + 1)
  | none => .ok initialGeneration

/-- The next handle behind the checkpoint. -/
def destination (builder : RollbackRebaseBuilder) : Except Failure HeapHandle := do
  let index := checkpoint.len + builder.suffixSources.length
  if usizeMax < index then
    .error (resourceLimitError "heap handle index space" u32Max checkpoint.len
      builder.suffixSources.length)
  else if source.limits.maxNodes ≤ index then
    .error (resourceLimitError "max heap nodes" source.limits.maxNodes index 1)
  else if u32Max ≤ index then
    .error (resourceLimitError "heap handle index space" u32Max index 1)
  else
    .ok ⟨index, ← destinationGeneration source index, source.epoch⟩

/-- Map a handle that has no destination yet. -/
def assign (builder : RollbackRebaseBuilder) (handle : HeapHandle) :
    Except Failure RollbackRebaseBuilder :=
  if builder.mapped.contains handle then .ok builder
  else do
    let target ← destination source checkpoint builder
    .ok { builder with
      mapped := builder.mapped.insert handle target
      suffixSources := builder.suffixSources ++ [handle] }

def schedule (builder : RollbackRebaseBuilder) (handle : HeapHandle) (depth : Nat) :
    Except Failure RollbackRebaseBuilder := do
  let _ ← source.slot handle
  if handle ∈ builder.scheduled then .ok builder
  else if source.limits.maxCloneDepth < depth then
    .error (resourceLimitError "max clone depth" source.limits.maxCloneDepth builder.maxDepth
      (depth - builder.maxDepth))
  else do
    let assigned ← assign source checkpoint
      { builder with scheduled := handle :: builder.scheduled } handle
    .ok { assigned with queue := assigned.queue ++ [(handle, depth)] }

def scheduleAll (depth : Nat) :
    RollbackRebaseBuilder → List HeapHandle → Except Failure RollbackRebaseBuilder
  | builder, [] => .ok builder
  | builder, handle :: rest => do
    let builder ← schedule source checkpoint builder handle depth
    scheduleAll depth builder rest

/-- The loop over the queue. Every handle is queued once, so one round more than there
are nodes is never used up. -/
def drain : Nat → RollbackRebaseBuilder → Except Failure RollbackRebaseBuilder
  | 0, _ => .error .outOfDepth
  | rounds + 1, builder =>
    match builder.queue with
    | [] => .ok builder
    | (handle, depth) :: rest => do
      let slot ← source.slot handle
      let next ← scheduleAll source checkpoint (satAdd depth 1)
        { builder with queue := rest, maxDepth := max builder.maxDepth depth }
        (heapNodeChildHandles slot.node)
      drain rounds next

def discover (explicitRoots : List RuntimeValue) : Except Failure RollbackRebaseBuilder := do
  let builder ← scheduleAll source checkpoint 0 (new source checkpoint)
    (prefixHandles source checkpoint)
  let builder ← scheduleAll source checkpoint 0 builder (explicitRoots.filterMap asHeapHandle)
  drain source checkpoint (source.nodes.length + 1) builder

/-- A kept node behind the checkpoint, with the generation of its new handle. -/
def rebaseSuffixSlot (builder : RollbackRebaseBuilder) (handle : HeapHandle) :
    Except Failure (HeapSlot ι δ) := do
  let slot ← source.slot handle
  match builder.mapped.get? handle with
  | none => .error (.panic "no entry found for key")
  | some target => do
    let rewritten ← rewriteHeapSlot builder.mapped slot
    .ok { rewritten with generation := target.generation }

def prepare (builder : RollbackRebaseBuilder) (explicitRoots : List RuntimeValue) :
    Except Failure (PreparedRequestHeapRollback ι δ) := do
  let kept ← (source.nodes.take checkpoint.len).mapM (rewriteHeapSlot builder.mapped)
  let rebased ← builder.suffixSources.mapM (rebaseSuffixSlot source builder)
  let nodes := kept ++ rebased
  let estimatedBytes := nodes.foldl (fun total slot => satAdd total slot.estimatedBytes) 0
  if source.limits.maxEstimatedBytes < estimatedBytes then
    .error (resourceLimitError "max estimated heap bytes" source.limits.maxEstimatedBytes 0
      estimatedBytes)
  else do
    let rebasedRoots ← explicitRoots.mapM (rewriteRuntimeValue builder.mapped)
    .ok ⟨nodes, { checkpoint.stats with
      nodeCount := nodes.length
      estimatedBytes := estimatedBytes
      cloneDepth := max checkpoint.stats.cloneDepth builder.maxDepth }, rebasedRoots⟩

end

end RollbackRebaseBuilder

/-! ## The operations -/

/-- Errors of the preparation; a panic or a walk cut short would be a failure that is
neither. -/
inductive RollbackRebaseError where
  | resourceLimit (error : RuntimeError)
  | invalidSource (error : RuntimeError)
  | other (failure : Failure)

def RollbackRebaseError.classify : Failure → RollbackRebaseError
  | .error (.resourceLimitExceeded reason limit current requestedDelta) =>
    .resourceLimit (.resourceLimitExceeded reason limit current requestedDelta)
  | .error error => .invalidSource error
  | failure => .other failure

namespace RequestHeap

def prepareRollbackRebase (checkpoint : RequestHeapCheckpoint) (explicitRoots : List RuntimeValue)
    (heap : RequestHeap ι δ) : Except RollbackRebaseError (PreparedRequestHeapRollback ι δ) :=
  if heap.nodes.length < checkpoint.len then
    .error (.invalidSource (.decode (s!"request heap checkpoint length {checkpoint.len} exceeds "
      ++ s!"current heap length {heap.nodes.length}")))
  else
    match (do
      let builder ← RollbackRebaseBuilder.discover heap checkpoint explicitRoots
      RollbackRebaseBuilder.prepare heap checkpoint builder explicitRoots) with
    | .ok prepared => .ok prepared
    | .error failure => .error (.classify failure)

def commitPreparedRollbackRebase (prepared : PreparedRequestHeapRollback ι δ)
    (heap : RequestHeap ι δ) :
    RequestHeap ι δ :=
  { heap with nodes := prepared.nodes, stats := prepared.stats }

end RequestHeap

end Skiff.Heap
