import Skiff.Runtime.VmHeap.Tables

/-!
# The release of a snapshot

`release_snapshot` is the recursive release of reference counting in every state in which no two
live handles share a node of the arena. The heap's own operations keep the states so. A rollback of
the arena under a live handle may not: the next allocation gives the node out a second time.
-/

namespace Skiff.Runtime

namespace RequestVmHeap

theorem releaseOwner_leaf {s : RequestVmHeap} {slot : ValueSlot}
    (h : releaseOwner 1 s slot = some s) :
    ∃ depth, ∀ more ≥ depth, releaseOwner more s slot = some s :=
  ⟨1, fun _ hmore => releaseOwner_mono hmore h⟩

/-- A release fails and changes nothing, or it succeeds; where no two handles share a node it is
then
the recursive one, and containers that stay keep their children. The walk ends by itself within one
round for each child slot of a handle and one for the root, and the commit finds everything that it
expects. -/
theorem releaseSnapshot_refines (s : RequestVmHeap) (root : ValueSlot) :
    ((∃ error, releaseSnapshot root s = (.error error, s)) ∨
      ∃ t, releaseSnapshot root s = (.ok (), t) ∧ (s.Separate →
        (∃ depth, ∀ more ≥ depth, releaseOwner more s root = some t) ∧
        ∀ h entry, t.live.get? h = some entry →
          t.sidecar entry.heapHandle = s.sidecar entry.heapHandle)) ∧
    (∃ used ≤ s.childCount + 1, Consumes s .releaseSnapshot none [root] ⟨∅, [], []⟩
      (s.prepareOwnerConsume .releaseSnapshot none root) used) ∧
    ∀ prepared, s.prepareOwnerConsume .releaseSnapshot none root = .ok prepared →
      prepared.resourceReleases.Nodup ∧
        s.commitChecked prepared = some (s.commitOwnerConsume prepared) := by
  obtain ⟨used, hused, hwalk⟩ := @prepareOwnerConsume_ends s .releaseSnapshot none root
  refine ⟨?_, ⟨used, hused, hwalk⟩, fun prepared hprepared => ?_⟩
  · cases root with
    | requestHeapRef handle tag flags =>
      cases hprepared : s.prepareOwnerConsume .releaseSnapshot none
          (.requestHeapRef handle tag flags) with
      | error error =>
        refine .inl ⟨error, ?_⟩
        simp only [releaseSnapshot, Mut.read, bind, Mut.bind, hprepared]
      | ok prepared =>
        rw [hprepared] at hwalk
        refine .inr ⟨s.commitOwnerConsume prepared, ?_, fun hs => ⟨?_, fun _ _ hlive =>
          (hwalk.cascade (cascade_start s)).sidecar_commit hs hlive⟩⟩
        · simp only [releaseSnapshot, Mut.read, bind, Mut.bind, hprepared]
          rfl
        obtain ⟨depth, hreleases⟩ := hwalk.releases hs (cascade_start s)
        rw [commit_nothing, List.foldlM_cons] at hreleases
        obtain ⟨t, hroot, hrest⟩ := Option.bind_eq_some_iff.mp hreleases
        cases hrest
        exact ⟨depth, fun _ hmore => releaseOwner_mono hmore hroot⟩
    | resourceRef route tag flags | callbackClosureRef handle tag flags => exact .inl ⟨_, rfl⟩
    | _ => exact .inr ⟨s, rfl, fun _ => ⟨releaseOwner_leaf rfl, fun _ _ _ => rfl⟩⟩
  · rw [hprepared] at hwalk
    have hroutes : Releasable s prepared.resourceReleases :=
      hwalk.releasable ⟨List.nodup_nil, fun _ hmem => absurd hmem List.not_mem_nil⟩
    exact ⟨hroutes.nodup, (hwalk.cascade (cascade_start s)).commitChecked_eq hroutes⟩

/-- An array that holds a string twice, with one more owner of the string. -/
def sharedCalls : List HeapCall :=
  let text : ValueSlot := .requestHeapRef (encodeHandle 1 1) 7 0
  [.allocTypedString "a" 7 0, .snapshotShare text, .snapshotShare text,
    .allocateArray [text, text] 8 0]

def sharedArray : RequestVmHeap := sharedCalls.foldl HeapCall.run (.new 1 1 ⟨100, 10000⟩ none none)

/-- Its release drops both edges and leaves the string to its other owner. -/
theorem releaseSnapshot_refines_shared :
    ∃ t, releaseSnapshot (.requestHeapRef (encodeHandle 1 2) 8 0) sharedArray = (.ok (), t) ∧
      (∃ depth, ∀ more ≥ depth,
        releaseOwner more sharedArray (.requestHeapRef (encodeHandle 1 2) 8 0) = some t) ∧
      t.live.keys = [encodeHandle 1 1] ∧ t.ownerCount (encodeHandle 1 1) = 1 := by
  obtain ⟨⟨error, herror⟩ | ⟨t, hrun, hrecursive⟩, -⟩ :=
    releaseSnapshot_refines sharedArray (.requestHeapRef (encodeHandle 1 2) 8 0)
  · cases congrArg Prod.fst herror
  · cases congrArg Prod.snd hrun
    exact ⟨_, hrun, (hrecursive (separate_run 1 1 ⟨100, 10000⟩ none none sharedCalls)).1, rfl, rfl⟩

/-- There is an owner for each edge of the sidecars. -/
def EdgesOwned (s : RequestVmHeap) : Prop :=
  ∀ h, refCount h (s.slots.entries.flatMap fun entry => entry.2.children) ≤ s.ownerCount h

/-- An array of a string that has an owner besides it. The arena is rolled back under the array, and
the next array of the string is on its node; a third one holds the two. -/
def rolledBack : RequestVmHeap :=
  let text : ValueSlot := .requestHeapRef (encodeHandle 1 1) 7 0
  let before := [.allocTypedString "a" 7 0, .snapshotShare text].foldl HeapCall.run
    (.new 1 1 ⟨100, 10000⟩ none none)
  let first := HeapCall.run before (.allocateArray [text] 8 0)
  [.allocateArray [text] 8 0, .allocateArray [.requestHeapRef (encodeHandle 1 2) 8 0,
    .requestHeapRef (encodeHandle 1 3) 8 0] 8 0].foldl HeapCall.run
      { first with heap := before.heap }

/-- The release of an array with two handles on one node releases the children of that node twice:
the string is gone with an owner left. -/
theorem shared_node_released_twice : ¬ ∀ s : RequestVmHeap, s.EdgesOwned →
    ∀ root, s.validateLive root = .ok () →
      (∃ error, releaseSnapshot root s = (.error error, s)) ∨
        ∃ t, releaseSnapshot root s = (.ok (), t) ∧
          ∃ depth, ∀ more ≥ depth, releaseOwner more s root = some t := by
  intro h
  let root : ValueSlot := .requestHeapRef (encodeHandle 1 4) 8 0
  have hedges : rolledBack.EdgesOwned := by
    intro handle
    have hrefs : ∀ slot ∈ rolledBack.slots.entries.flatMap fun entry => entry.2.children,
        slot.asRequestHeapRef ∈ [1, 2, 3].map fun serial => some (encodeHandle 1 serial) := by
      decide +kernel
    by_cases hedge : some handle ∈ [1, 2, 3].map fun serial => some (encodeHandle 1 serial)
    · obtain ⟨serial, hserial, heq⟩ := List.mem_map.mp hedge
      cases heq
      revert serial
      decide +kernel
    · rw [refCount, List.countP_eq_zero.mpr fun slot hslot heq => ?_]
      · exact Nat.zero_le _
      · exact hedge (of_decide_eq_true heq ▸ hrefs slot hslot)
  have hcount : (releaseSnapshot root rolledBack).2.ownerCount (encodeHandle 1 1) = 0 := rfl
  have hrelease : ∃ u, releaseOwner 3 rolledBack root = some u ∧
      u.ownerCount (encodeHandle 1 1) = 1 := ⟨_, rfl, rfl⟩
  obtain ⟨u, hu, hleft⟩ := hrelease
  obtain ⟨error, herror⟩ | ⟨t, hrun, depth, hdepth⟩ := h rolledBack hedges root rfl
  · cases congrArg Prod.fst herror
  have hrecursive := releaseOwner_mono (Nat.le_max_left 3 depth) hu
  rw [hdepth _ (Nat.le_max_right 3 depth)] at hrecursive
  cases hrecursive
  rw [hrun, hleft] at hcount
  cases hcount

end RequestVmHeap

end Skiff.Runtime
