import Skiff.Data.Run
import Skiff.Heap.Clones

/-!
# Runs of the request heap

Runs of all operations of a request heap, with the two kinds of rollback, from the empty heap.
Every state of a run is accounted. Checkpoints and plans are kept as heaps: a rollback or a
commit installs one of them.
-/

namespace Skiff.Heap

open Relation
open Skiff.Runtime (HeapHandle RuntimeValue RuntimeError)
open List

variable {ι δ : Type}

/-- The operations that act on the heap alone and may fail. -/
inductive Call (ι δ : Type) where
  | allocate (allocation : Allocation ι δ)
  | mutate (mutation : Mutation ι)
  | deepClone (clone : DeepClone ι δ)
  | recomputeStats
  | recordCloneDepth (depth : Nat)
  | recordMaterializeStats (depth outputBytes : Nat)

namespace Call

def apply : Call ι δ → Action ι δ Unit
  | .allocate allocation => do
    let _ ← allocation.apply
    pure ()
  | .mutate mutation => mutation.apply
  | .deepClone clone => clone.apply
  | .recomputeStats => RequestHeap.recomputeStats
  | .recordCloneDepth depth => RequestHeap.recordCloneDepth depth
  | .recordMaterializeStats depth outputBytes =>
      RequestHeap.recordMaterializeStats depth outputBytes

/-- The handles that a call stores unchecked. -/
def stored : Call ι δ → List HeapHandle
  | .allocate allocation => heapNodeChildHandles allocation.node
  | .mutate _ | .deepClone _ | .recomputeStats | .recordCloneDepth _
  | .recordMaterializeStats .. => []

/-- The other heap that a call reads has identities in the shape of its nodes, as all heaps of
runs have. -/
def SourceFits : Call ι δ → Prop
  | .deepClone clone => ∀ source ∈ clone.source?, ∀ slot ∈ source.nodes, slot.LayoutFits
  | .allocate _ | .mutate _ | .recomputeStats | .recordCloneDepth _
  | .recordMaterializeStats .. => True

/-- A deep clone within the heap is the one call that fails halfway. -/
def FailsWhole : Call ι δ → Prop
  | .deepClone clone => clone.source?.isSome
  | .allocate _ | .mutate _ | .recomputeStats | .recordCloneDepth _
  | .recordMaterializeStats .. => True

end Call

/-- The heap with the checkpoints taken so far, each with the nodes it was taken over, and
the rollbacks prepared so far. -/
structure Session (ι δ : Type) where
  heap : RequestHeap ι δ
  checkpoints : List (RequestHeapCheckpoint × List (HeapSlot ι δ))
  plans : List (PreparedRequestHeapRollback ι δ)

inductive SessionEvent (ι δ : Type) where
  | call (call : Call ι δ)
  | checkpoint
  | rollback (checkpoint : Nat)
  | prepare (checkpoint : Nat) (roots : List RuntimeValue)
  | commit (plan : Nat)

namespace Session

def new (epoch : Nat) (limits : RequestHeapLimits) :
    Session ι δ := ⟨.newWithEpoch epoch limits, [], []⟩

def rollback (s : Session ι δ) (checkpoint : Nat) : Session ι δ :=
  match s.checkpoints[checkpoint]? with
  | some (saved, _) => { s with heap := (RequestHeap.rollbackToCheckpoint saved s.heap).2 }
  | none => s

def prepare (s : Session ι δ) (checkpoint : Nat) (roots : List RuntimeValue) : Session ι δ :=
  match s.checkpoints[checkpoint]? with
  | some (saved, _) =>
    match s.heap.prepareRollbackRebase saved roots with
    | .ok prepared => { s with plans := s.plans ++ [prepared] }
    | .error _ => s
  | none => s

def commit (s : Session ι δ) (plan : Nat) : Session ι δ :=
  match s.plans[plan]? with
  | some prepared => { s with heap := s.heap.commitPreparedRollbackRebase prepared }
  | none => s

def step (s : Session ι δ) : SessionEvent ι δ → Session ι δ
  | .call call => { s with heap := (call.apply s.heap).2 }
  | .checkpoint => { s with checkpoints := s.checkpoints ++ [(s.heap.checkpoint, s.heap.nodes)] }
  | .rollback checkpoint => s.rollback checkpoint
  | .prepare checkpoint roots => s.prepare checkpoint roots
  | .commit plan => s.commit plan

/-- A caller stores only handles that resolve, and rolls back to a checkpoint only while
the nodes below it are what they were. -/
def Allowed (s : Session ι δ) : SessionEvent ι δ → Prop
  | .call call => call.SourceFits ∧ ∀ child ∈ call.stored, s.heap.Resolves child
  | .rollback checkpoint => ∀ saved nodes, s.checkpoints[checkpoint]? = some (saved, nodes) →
      s.heap.nodes.take saved.len = nodes
  | _ => True

def AllowedRun : Session ι δ → List (SessionEvent ι δ) → Session ι δ → Prop :=
  Run fun s event t => s.Allowed event ∧ t = s.step event

/-- The heap is accounted, and so is every heap that a rollback or a commit may install. -/
structure Accounted (epoch : Nat) (limits : RequestHeapLimits) (s : Session ι δ) : Prop where
  heap : s.heap.Accounted
  sameLimits : s.heap.limits = limits
  sameEpoch : s.heap.epoch = epoch
  checkpoints : ∀ saved nodes, (saved, nodes) ∈ s.checkpoints →
    (⟨nodes, limits, saved.stats, epoch⟩ : RequestHeap ι δ).Accounted
  plans : ∀ prepared ∈ s.plans,
    (⟨prepared.nodes, limits, prepared.stats, epoch⟩ : RequestHeap ι δ).Accounted

end Session

variable {heap heap' : RequestHeap ι δ}

/-- However a call ends, the heap stays accounted if what was stored resolves. A failure is
reported and leaves the heap alone, apart from the nodes that a clone within the heap has
appended. -/
structure Call.Spec (call : Call ι δ) (heap : RequestHeap ι δ) (result : Except Failure Unit)
    (heap' : RequestHeap ι δ) : Prop where
  accounted : (∀ child ∈ call.stored, heap.Resolves child) → heap'.Accounted
  limits : heap'.limits = heap.limits
  epoch : heap'.epoch = heap.epoch
  reported : ∀ failure, result = .error failure → failure.Reported
  kept : ∀ failure, result = .error failure → call.FailsWhole → heap' = heap
  grown : ∀ failure, result = .error failure → heap.nodes <+: heap'.nodes

section

variable {call : Call ι δ} {result : Except Failure Unit} {failure : Failure}

theorem Call.Spec.refused (accounted : heap.Accounted) (reported : failure.Reported) :
    call.Spec heap (.error failure) heap := by
  refine ⟨fun _ => accounted, rfl, rfl, fun _ herror => ?_, fun _ _ _ => rfl,
    fun _ _ => prefix_refl _⟩
  cases herror
  exact reported

theorem Call.Spec.done (accounted : (∀ child ∈ call.stored, heap.Resolves child) → heap'.Accounted)
    (limits : heap'.limits = heap.limits) (epoch : heap'.epoch = heap.epoch) :
    call.Spec heap (.ok ()) heap' :=
  ⟨accounted, limits, epoch, fun _ herror => (by cases herror), fun _ herror => (by cases herror),
    fun _ herror => by cases herror⟩

theorem Call.apply_spec (accounted : heap.Accounted)
    (hmax : heap.limits.maxEstimatedBytes < usizeMax) (hsource : call.SourceFits)
    (h : call.apply heap = (result, heap')) : call.Spec heap result heap' := by
  cases call with
  | allocate allocation =>
    obtain ⟨failure, rfl, hfailed⟩ | ⟨handle, middle, hrun, hpure⟩ := Mut.bind_cases h
    · rw [allocation.apply_eq] at hfailed
      obtain ⟨failure', heq, hreported, rfl⟩ | ⟨hok, -⟩ :=
        RequestHeap.allocNodeWithCarriers_cases hfailed
      · cases heq
        exact .refused accounted hreported
      · cases hok
    cases hpure
    rw [allocation.apply_eq] at hrun
    obtain ⟨_, hfailed, -⟩ | ⟨-, rfl, hspace, hcount, hbytes⟩ :=
      RequestHeap.allocNodeWithCarriers_cases hrun
    · cases hfailed
    exact .done (fun hvalid => accounted.allocate hmax allocation.layoutFits hvalid hspace hcount
      hbytes) rfl rfl
  | mutate mutation =>
    cases Mutation.outcome h with
    | refused reported =>
      exact .refused accounted (reported fun slot hslot =>
        accounted.layout slot (RequestHeap.mem_nodes_of_slot hslot))
    | edited checked edit =>
      exact .done (fun _ => accounted.edit hmax checked edit) edit.limits edit.epoch
  | deepClone clone =>
    obtain ⟨hgrown, hfailed⟩ := clone.apply_grows accounted hmax hsource _ _ h
    exact ⟨fun _ => hgrown.accounted, hgrown.limits, hgrown.epoch, fun failure herror =>
      (hfailed failure herror).1, fun failure herror => (hfailed failure herror).2,
      fun _ _ => hgrown.nodes⟩
  | recomputeStats =>
    cases h
    exact .done (fun _ => accounted.recompute hmax) rfl rfl
  | recordCloneDepth depth =>
    obtain ⟨failure, rfl, hfailed, rfl⟩ | ⟨_, _, hmodify⟩ := Mut.read_cases h
    · split at hfailed
      · exact .refused accounted ⟨_, (Except.error.inj hfailed).symm⟩
      · cases hfailed
    cases hmodify
    exact .done (fun _ => accounted.record rfl rfl) rfl rfl
  | recordMaterializeStats depth outputBytes =>
    obtain ⟨failure, rfl, hfailed, rfl⟩ | ⟨_, _, h⟩ := Mut.read_cases h
    · split at hfailed
      · exact .refused accounted ⟨_, (Except.error.inj hfailed).symm⟩
      · cases hfailed
    obtain ⟨failure, rfl, hfailed, rfl⟩ | ⟨_, _, hmodify⟩ := Mut.read_cases h
    · split at hfailed
      · exact .refused accounted ⟨_, (Except.error.inj hfailed).symm⟩
      · cases hfailed
    cases hmodify
    exact .done (fun _ => accounted.record rfl rfl) rfl rfl

end

namespace Session

variable {s : Session ι δ} {event : SessionEvent ι δ} {epoch : Nat} {limits : RequestHeapLimits}

/-- Install another accounted heap. -/
theorem Accounted.install (accounted : s.Accounted epoch limits) {heap : RequestHeap ι δ}
    (h : heap.Accounted) (hlimits : heap.limits = limits) (hepoch : heap.epoch = epoch) :
    ({ s with heap := heap } : Session ι δ).Accounted epoch limits :=
  ⟨h, hlimits, hepoch, accounted.checkpoints, accounted.plans⟩

theorem Accounted.step (accounted : s.Accounted epoch limits)
    (hmax : limits.maxEstimatedBytes < usizeMax) (hallowed : s.Allowed event) :
    (s.step event).Accounted epoch limits := by
  have hbytes : s.heap.limits.maxEstimatedBytes < usizeMax := accounted.sameLimits ▸ hmax
  cases event with
  | call call =>
    have hspec := Call.apply_spec accounted.heap hbytes hallowed.1 rfl
    exact accounted.install (hspec.accounted hallowed.2) (hspec.limits.trans accounted.sameLimits)
      (hspec.epoch.trans accounted.sameEpoch)
  | checkpoint =>
    refine ⟨accounted.heap, accounted.sameLimits, accounted.sameEpoch, fun saved nodes hmem => ?_,
      accounted.plans⟩
    obtain hmem | hmem := mem_append.mp hmem
    · exact accounted.checkpoints saved nodes hmem
    obtain ⟨rfl, rfl⟩ := Prod.mk.inj (mem_singleton.mp hmem)
    rw [← accounted.sameLimits, ← accounted.sameEpoch]
    exact accounted.heap
  | rollback checkpoint =>
    rw [Session.step, Session.rollback]
    split
    case h_1 saved nodes hsaved =>
      have hnodes := hallowed saved nodes hsaved
      refine accounted.install ?_ accounted.sameLimits accounted.sameEpoch
      have hold := accounted.checkpoints saved nodes (mem_of_getElem? hsaved)
      rw [← accounted.sameLimits, ← accounted.sameEpoch, ← hnodes] at hold
      exact hold
    · exact accounted
  | prepare checkpoint roots =>
    rw [Session.step, Session.prepare]
    split
    · split
      case h_1 prepared hprepared =>
        refine ⟨accounted.heap, accounted.sameLimits, accounted.sameEpoch, accounted.checkpoints,
          fun plan hplan => ?_⟩
        obtain hplan | hplan := mem_append.mp hplan
        · exact accounted.plans plan hplan
        obtain rfl := mem_singleton.mp hplan
        rw [← accounted.sameLimits, ← accounted.sameEpoch]
        exact accounted.heap.rebase hbytes hprepared
      · exact accounted
    · exact accounted
  | commit plan =>
    rw [Session.step, Session.commit]
    split
    case h_1 prepared hprepared =>
      refine accounted.install ?_ accounted.sameLimits accounted.sameEpoch
      have hplan := accounted.plans prepared (mem_of_getElem? hprepared)
      rw [← accounted.sameLimits, ← accounted.sameEpoch] at hplan
      exact hplan
    · exact accounted

theorem accounted_new (epoch : Nat) (limits : RequestHeapLimits) :
    (new epoch limits : Session ι δ).Accounted epoch limits :=
  ⟨RequestHeap.accounted_new epoch limits, rfl, rfl, by simp [new], by simp [new]⟩

/-- In every state of an allowed run the heap is acyclic and accounted. A call that fails there
reports an error and changes nothing, but for a clone within the heap, which may leave new
nodes. -/
theorem heap_stays_accounted (epoch : Nat) (limits : RequestHeapLimits)
    (hmax : limits.maxEstimatedBytes < usizeMax) (events : List (SessionEvent ι δ))
    (s : Session ι δ) (run : AllowedRun (new epoch limits) events s) :
    Acyclic s.heap.Edge ∧
    (∀ slot ∈ s.heap.nodes, slot.estimatedBytes = estimateHeapNodeBytes slot.node) ∧
    s.heap.stats.nodeCount = s.heap.nodes.length ∧ s.heap.stats.nodeCount ≤ limits.maxNodes ∧
    s.heap.stats.estimatedBytes = slotBytes s.heap.nodes ∧
    s.heap.stats.estimatedBytes ≤ limits.maxEstimatedBytes ∧
    (∀ slot ∈ s.heap.nodes, slot.LayoutFits) ∧
    (∀ (call : Call ι δ) failure heap', call.SourceFits →
      call.apply s.heap = (.error failure, heap') →
        failure.Reported ∧ s.heap.nodes <+: heap'.nodes ∧
          (call.FailsWhole → heap' = s.heap)) := by
  have accounted : s.Accounted epoch limits := by
    refine Run.invariant (fun hs hstep => ?_) run (accounted_new epoch limits)
    obtain ⟨hallowed, rfl⟩ := hstep
    exact hs.step hmax hallowed
  have heap := accounted.heap
  refine ⟨heap.acyclic, heap.estimated, heap.count, ?_, heap.total, ?_, heap.layout,
    fun call failure heap' hsource h => ?_⟩
  · rw [← accounted.sameLimits]
    exact heap.countFits
  · rw [← accounted.sameLimits]
    exact heap.totalFits
  have hspec := Call.apply_spec heap (accounted.sameLimits ▸ hmax) hsource h
  exact ⟨hspec.reported _ rfl, hspec.grown _ rfl, hspec.kept _ rfl⟩

/-! ## Sample runs -/

def cellLimits : RequestHeapLimits := ⟨8, 4096, 8, 8, 4096⟩

def sampleHandle (index : Nat) : HeapHandle := ⟨index, 0, 0⟩

def allocateArray (items : List RuntimeValue) : SessionEvent Unit Unit :=
  .call (.allocate (.array items))

/-- A call that stores nothing and reads no other heap is allowed. -/
theorem allowed_mutate (s : Session Unit Unit) (mutation : Mutation Unit) :
    s.Allowed (.call (.mutate mutation)) :=
  ⟨trivial, fun _ hchild => absurd hchild not_mem_nil⟩

theorem allowed_deepClone (s : Session Unit Unit) (value : RuntimeValue) :
    s.Allowed (.call (.deepClone (.runtimeValue value))) :=
  ⟨fun _ hsource => (by cases hsource), fun _ hchild => absurd hchild not_mem_nil⟩

theorem allowed_allocate (s : Session Unit Unit) (items : List RuntimeValue)
    (h : ∀ value ∈ items, s.heap.Holds value) : s.Allowed (allocateArray items) :=
  ⟨trivial, fun child hchild => h _ (mem_heapNodeChildHandles.mp hchild) child rfl⟩

/-- An array in another, with a cell put into the outer one, which is cloned. A rebase keeps the
cell and the clone, and a rollback drops what comes after it. -/
def sampleRun : List (SessionEvent Unit Unit) :=
  [.call (.allocate (.localCarrierCell ⟨.null, none⟩)), .checkpoint, allocateArray [],
    allocateArray [.heap (sampleHandle 1)],
    .call (.mutate (.pushArrayItem (sampleHandle 2) ⟨.heap (sampleHandle 0), none⟩)),
    .call (.deepClone (.runtimeValue (.heap (sampleHandle 2)))),
    .prepare 0 [.heap (sampleHandle 5)], .commit 0, .checkpoint, allocateArray [], .rollback 1]

theorem sampleRun_allowed : ∃ s, AllowedRun (new 0 cellLimits) sampleRun s ∧
    s.heap.nodes.length = 4 := by
  refine ⟨_, .cons ⟨⟨trivial, fun _ hchild => absurd hchild not_mem_nil⟩, rfl⟩ (.cons ⟨trivial, rfl⟩
    (.cons ⟨allowed_allocate _ _ (by simp), rfl⟩ (.cons ⟨allowed_allocate _ _ ?_, rfl⟩
    (.cons ⟨allowed_mutate _ _, rfl⟩ (.cons ⟨allowed_deepClone _ _, rfl⟩ (.cons ⟨trivial, rfl⟩
    (.cons ⟨trivial, rfl⟩ (.cons ⟨trivial, rfl⟩ (.cons ⟨allowed_allocate _ _ (by simp), rfl⟩
    (.cons ⟨?_, rfl⟩ (.nil _))))))))))), rfl⟩
  · intro value hvalue handle heq
    obtain rfl := mem_singleton.mp hvalue
    cases heq
    exact ⟨_, rfl⟩
  rintro saved nodes ⟨⟩
  rfl

theorem heap_stays_accounted_sampleRun :
    ∃ s, AllowedRun (new 0 cellLimits) sampleRun s ∧ s.heap.nodes.length = 4 ∧
      Acyclic s.heap.Edge ∧ s.heap.stats.nodeCount = s.heap.nodes.length ∧
      s.heap.stats.estimatedBytes = slotBytes s.heap.nodes ∧
      ∀ slot ∈ s.heap.nodes, slot.LayoutFits := by
  obtain ⟨s, hrun, hlength⟩ := sampleRun_allowed
  obtain ⟨hacyclic, -, hcount, -, htotal, -, hlayout, -⟩ :=
    heap_stays_accounted 0 cellLimits (by decide) sampleRun s hrun
  exact ⟨s, hrun, hlength, hacyclic, hcount, htotal, hlayout⟩

/-- The pop of an array item leaves a local carrier cell without a value, and the cell keeps
its identity: one entry for no item. A clone within the heap that finds no room for its last
node leaves the nodes that it has cloned. -/
theorem popped_cell_keeps_identity :
    (∃ (events : List (SessionEvent Unit Unit)) (s : Session Unit Unit),
      AllowedRun (new 0 cellLimits) events s ∧
      ∃ slot ∈ s.heap.nodes, slot.node = .array [] ∧ slot.carriers = .localCarrierCell none) ∧
    ∃ (events : List (SessionEvent Unit Unit)) (s : Session Unit Unit) (call : Call Unit Unit)
      (failure : Failure) (heap' : RequestHeap Unit Unit),
      AllowedRun (new 0 ⟨3, 4096, 8, 8, 4096⟩) events s ∧
        s.Allowed (.call call) ∧ call.apply s.heap = (.error failure, heap') ∧
        s.heap.nodes.length = 2 ∧ heap'.nodes.length = 3 := by
  refine ⟨⟨[.call (.allocate (.localCarrierCell ⟨.null, none⟩)),
    .call (.mutate (.popArrayItem (sampleHandle 0)))], _,
    .cons ⟨⟨trivial, fun _ hchild => absurd hchild not_mem_nil⟩, rfl⟩
      (.cons ⟨allowed_mutate _ _, rfl⟩ (.nil _)), _, mem_singleton.mpr rfl, rfl, rfl⟩, ?_⟩
  refine ⟨[allocateArray [], allocateArray [.heap (sampleHandle 0)]], _,
    .deepClone (.runtimeValue (.heap (sampleHandle 1))), _, _,
    .cons ⟨⟨trivial, fun _ hchild => absurd hchild not_mem_nil⟩, rfl⟩
      (.cons ⟨⟨trivial, fun child hchild => ?_⟩, rfl⟩ (.nil _)), allowed_deepClone _ _, rfl, rfl,
        rfl⟩
  obtain rfl := mem_singleton.mp hchild
  exact ⟨_, rfl⟩

end Session

end Skiff.Heap
