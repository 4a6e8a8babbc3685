import Skiff.Runtime.VmHeap.Path
import Mathlib.Algebra.Order.Ring.Int
import Mathlib.Data.List.Induction

/-!
# Owners and edges

Each live handle has an owner count. A release takes owners off, and drops a container when its
last owner is gone; the cascade then releases the children. This module says what a cascade leaves
of the counts and what its commit does to the tables.
-/

namespace Skiff.Runtime

open List OrdMap

/-! ## Counting -/

/-- How often a list of slots refers to a handle. -/
def refCount (h : VmHandle) (slots : List ValueSlot) : Nat :=
  slots.countP fun slot => slot.asRequestHeapRef = some h

namespace Sidecar

/-- All child slots. -/
abbrev children (sidecar : Sidecar) : List ValueSlot := sidecar.childrenExcept none

end Sidecar

namespace RequestVmHeap

def ownerCount (s : RequestVmHeap) (h : VmHandle) : Nat :=
  (s.live.get? h).elim 0 LiveEntry.snapshotOwners

/-! ## Invariants -/

/-- No two handles share a node. -/
def Separate (s : RequestVmHeap) : Prop :=
  ∀ h h' entry entry', s.live.get? h = some entry → s.live.get? h' = some entry' →
    entry.heapHandle = entry'.heapHandle → h = h'

variable {entry : LiveEntry}

theorem liveEntry_eq_ok {s : RequestVmHeap} {slot : ValueSlot} (h : s.liveEntry slot = .ok entry) :
    ∃ handle, slot = .requestHeapRef handle entry.compactTypeTag entry.flags ∧
      s.live.get? handle = some entry := by
  unfold liveEntry at h
  split at h
  case h_1 handle tag flags =>
    split at h
    · cases h
    split at h
    · cases h
    case h_2 entry' hentry =>
      split at h
      · cases h
      case isFalse hmetadata =>
        split at h
        · cases h
          simp only [not_or, not_not] at hmetadata
          exact ⟨handle, by rw [hmetadata.1, hmetadata.2], hentry⟩
        · cases h
  case h_2 => cases h

/-! ## The cascade of a release -/

section Cascade

variable {s : RequestVmHeap} {operation : VmHeapOperation} {excluded : Option ExcludedOwnerField}

/-- The owners left, also of handles that the cascade has not met. -/
def remaining (s : RequestVmHeap) (prepared : PreparedOwnerConsume) (h : VmHandle) : Nat :=
  (prepared.remainingOwners.get? h).getD (s.ownerCount h)

/-- The containers that stay. -/
def slotsLeft (s : RequestVmHeap) (removals : List (VmHandle × HeapHandle)) :
    OrdMap HeapHandle Sidecar :=
  removals.foldl (fun slots removal => slots.erase removal.2) s.slots

/-- What the rounds of the loop keep. -/
structure Cascade (s : RequestVmHeap) (prepared : PreparedOwnerConsume) : Prop where
  removed : ∀ h handle, (h, handle) ∈ prepared.removals → prepared.remainingOwners.get? h = some 0 ∧
    ∃ entry, s.live.get? h = some entry ∧ entry.heapHandle = handle
  met : ∀ h count, prepared.remainingOwners.get? h = some count →
    ∃ entry, s.live.get? h = some entry
  zero : ∀ h, prepared.remainingOwners.get? h = some 0 → ∃ handle, (h, handle) ∈ prepared.removals
  nodup : prepared.removals.Nodup

theorem cascade_start (s : RequestVmHeap) : Cascade s ⟨∅, [], []⟩ := by
  constructor <;> simp

variable {prepared prepared' : PreparedOwnerConsume}

/-- What one round does. Only references to a container touch the counts. -/
theorem consumeOwner_cases {owner : ValueSlot} {children : List ValueSlot}
    (h : consumeOwner s operation excluded owner prepared = .ok (prepared', children)) :
    (owner.asRequestHeapRef = none ∧ prepared'.remainingOwners = prepared.remainingOwners ∧
      prepared'.removals = prepared.removals ∧ children = []) ∨
    ∃ handle entry count, owner.asRequestHeapRef = some handle ∧ s.live.get? handle = some entry ∧
      remaining s prepared handle = count + 1 ∧
      prepared'.remainingOwners = prepared.remainingOwners.insert handle count ∧
      ((count ≠ 0 ∧ prepared'.removals = prepared.removals ∧ children = []) ∨
        (count = 0 ∧ prepared'.removals = prepared.removals ++ [(handle, entry.heapHandle)] ∧
          children = (s.sidecar entry.heapHandle).childrenExcept
            (excludedAt excluded entry.heapHandle))) := by
  cases owner with
  | requestHeapRef handle tag flags =>
    obtain ⟨entry, hlive, hrest⟩ := bind_eq_ok.mp h
    obtain ⟨handle', hslot, hentry⟩ := liveEntry_eq_ok hlive
    cases hslot
    have howners : s.ownerCount handle = entry.snapshotOwners := by rw [ownerCount, hentry]; rfl
    refine .inr ⟨handle, entry, ?_⟩
    split at hrest
    · cases hrest
    case h_2 count hcount =>
      refine ⟨count, rfl, hentry, by rw [remaining, howners, hcount], ?_⟩
      dsimp only at hrest
      split at hrest
      case isTrue hzero =>
        cases hrest
        exact ⟨rfl, .inr ⟨hzero, rfl, rfl⟩⟩
      case isFalse hpos =>
        cases hrest
        exact ⟨rfl, .inl ⟨hpos, rfl, rfl⟩⟩
  | resourceRef route tag flags =>
    obtain ⟨_, -, hrest⟩ := bind_eq_ok.mp h
    split at hrest
    · cases hrest
    cases hrest
    exact .inl ⟨rfl, rfl, rfl, rfl⟩
  | actorStateRef handle tag flags | constRef handle tag flags
  | callbackClosureRef handle tag flags => cases h
  | _ =>
    obtain ⟨_, -, hrest⟩ := bind_eq_ok.mp h
    cases hrest
    exact .inl ⟨rfl, rfl, rfl, rfl⟩

/-- A handle with owners left is not among the removed ones. -/
theorem Cascade.not_removed {prepared : PreparedOwnerConsume} (hc : Cascade s prepared)
    {handle : VmHandle} {count : Nat} (hleft : remaining s prepared handle = count + 1) :
    handle ∉ prepared.removals.map Prod.fst := by
  intro hmem
  obtain ⟨⟨h, hh⟩, hremoval, rfl⟩ := mem_map.mp hmem
  rw [remaining, (hc.removed h hh hremoval).1] at hleft
  simp at hleft

theorem Cascade.step {owner : ValueSlot} {children : List ValueSlot} (hc : Cascade s prepared)
    (h : consumeOwner s operation excluded owner prepared = .ok (prepared', children)) :
    Cascade s prepared' := by
  obtain ⟨-, howners, hremovals, -⟩ | ⟨handle, entry, count, -, hentry, hleft, howners, hrest⟩ :=
    consumeOwner_cases h
  · constructor
    · rw [howners, hremovals]
      exact hc.removed
    · rw [howners]
      exact hc.met
    · rw [howners, hremovals]
      exact hc.zero
    rw [hremovals]
    exact hc.nodup
  have hout : ∀ removal ∈ prepared.removals, removal.1 ≠ handle := fun removal hmem heq =>
    hc.not_removed hleft (heq ▸ mem_map_of_mem hmem)
  have hkept : ∀ h hh, (h, hh) ∈ prepared.removals →
      (prepared.remainingOwners.insert handle count).get? h = prepared.remainingOwners.get? h :=
    fun h hh hmem => get?_insert_of_ne _ _ (hout _ hmem)
  have hmet : ∀ h count', (prepared.remainingOwners.insert handle count).get? h = some count' →
      ∃ entry, s.live.get? h = some entry := by
    intro h count' hget
    rw [get?_insert] at hget
    split at hget
    case isTrue heq => exact ⟨entry, heq ▸ hentry⟩
    case isFalse => exact hc.met h count' hget
  obtain ⟨hpos, hremovals, -⟩ | ⟨rfl, hremovals, -⟩ := hrest
  · constructor
    · intro h hh hmem
      rw [hremovals] at hmem
      rw [howners, hkept h hh hmem]
      exact hc.removed h hh hmem
    · rw [howners]
      exact hmet
    · intro h hzero
      rw [howners, get?_insert] at hzero
      rw [hremovals]
      split at hzero
      · exact absurd (Option.some.inj hzero) hpos
      · exact hc.zero h hzero
    rw [hremovals]
    exact hc.nodup
  constructor
  · intro h hh hmem
    rw [hremovals, mem_append, mem_singleton] at hmem
    obtain hmem | heq := hmem
    · rw [howners, hkept h hh hmem]
      exact hc.removed h hh hmem
    cases heq
    rw [howners, get?_insert_self]
    exact ⟨rfl, entry, hentry, rfl⟩
  · rw [howners]
    exact hmet
  · intro h hzero
    rw [howners, get?_insert] at hzero
    rw [hremovals]
    split at hzero
    case isTrue heq =>
      subst heq
      exact ⟨entry.heapHandle, mem_append_right _ (mem_singleton_self _)⟩
    case isFalse =>
      obtain ⟨hh, hmem⟩ := hc.zero h hzero
      exact ⟨hh, mem_append_left _ hmem⟩
  rw [hremovals, nodup_append]
  refine ⟨hc.nodup, by simp, fun removal hmem last hlast => ?_⟩
  rw [mem_singleton.mp hlast]
  exact fun heq => hout removal hmem (congrArg Prod.fst heq)

variable (removals : List (VmHandle × HeapHandle))

theorem slotsLeft_append (removal : VmHandle × HeapHandle) :
    slotsLeft s (removals ++ [removal]) = (slotsLeft s removals).erase removal.2 := by
  simp [slotsLeft, foldl_append]

theorem get?_slotsLeft (handle : HeapHandle) :
    (slotsLeft s removals).get? handle =
      if handle ∈ removals.map Prod.snd then none else s.slots.get? handle := by
  rw [slotsLeft]
  convert get?_foldl_erase Prod.snd removals s.slots handle

/-! ### Its commit -/

section Commit

variable {prepared : PreparedOwnerConsume}

theorem foldl_removeHandle (s : RequestVmHeap) (removals : List (VmHandle × HeapHandle)) :
    removals.foldl removeHandle s = { s with
      live := removals.foldl (fun live removal => live.erase removal.1) s.live
      slots := slotsLeft s removals
      handlesByHeap := removals.foldl
        (fun handles removal => handles.erase removal.2) s.handlesByHeap
      releasedHeapHandles := removals.foldl
        (fun released removal => released.insert removal.2 removal.1) s.releasedHeapHandles } := by
  induction removals generalizing s with
  | nil => rfl
  | cons removal rest ih =>
    rw [foldl_cons, ih]
    rfl

@[simp] theorem commitOwnerConsume_slots :
    (s.commitOwnerConsume prepared).slots = slotsLeft s prepared.removals := by
  rw [commitOwnerConsume, foldl_removeHandle]
  rfl

@[simp] theorem commitOwnerConsume_heap : (s.commitOwnerConsume prepared).heap = s.heap := by
  rw [commitOwnerConsume, foldl_removeHandle]

@[simp] theorem commitOwnerConsume_domain : (s.commitOwnerConsume prepared).domain = s.domain := by
  rw [commitOwnerConsume, foldl_removeHandle]

theorem get?_live_commitOwnerConsume (h : VmHandle) :
    (s.commitOwnerConsume prepared).live.get? h =
      if h ∈ prepared.removals.map Prod.fst then none
      else (s.live.get? h).map (setOwners prepared.remainingOwners h) := by
  rw [commitOwnerConsume, foldl_removeHandle]
  have herase := get?_foldl_erase Prod.fst prepared.removals
    (s.live.mapWithKey (setOwners prepared.remainingOwners)) h
  rw [get?_mapWithKey] at herase
  convert herase

theorem get?_handlesByHeap_commitOwnerConsume (handle : HeapHandle) :
    (s.commitOwnerConsume prepared).handlesByHeap.get? handle =
      if handle ∈ prepared.removals.map Prod.snd then none else s.handlesByHeap.get? handle := by
  rw [commitOwnerConsume, foldl_removeHandle]
  convert get?_foldl_erase Prod.snd prepared.removals s.handlesByHeap handle

theorem setOwners_heapHandle (remaining : OrdMap VmHandle Nat) (h : VmHandle) (entry : LiveEntry) :
    (setOwners remaining h entry).heapHandle = entry.heapHandle := by
  unfold setOwners
  split <;> rfl

/-- A handle that is live afterwards was live before, on the same node, and stays. -/
theorem live_of_commitOwnerConsume {h : VmHandle} {entry' : LiveEntry}
    (hlive : (s.commitOwnerConsume prepared).live.get? h = some entry') :
    h ∉ prepared.removals.map Prod.fst ∧
      ∃ entry, s.live.get? h = some entry ∧
        entry' = setOwners prepared.remainingOwners h entry := by
  rw [get?_live_commitOwnerConsume] at hlive
  split at hlive
  · cases hlive
  case isFalse hstays =>
    obtain ⟨entry, hentry, heq⟩ := Option.map_eq_some_iff.mp hlive
    exact ⟨hstays, entry, hentry, heq.symm⟩

theorem Cascade.ownerCount_commit (hc : Cascade s prepared) (h : VmHandle) :
    (s.commitOwnerConsume prepared).ownerCount h = remaining s prepared h := by
  rw [ownerCount, get?_live_commitOwnerConsume, remaining]
  split
  case isTrue hremoved =>
    obtain ⟨⟨h', handle⟩, hmem, rfl⟩ := mem_map.mp hremoved
    rw [(hc.removed h' handle hmem).1]
    rfl
  case isFalse hstays =>
    cases hentry : s.live.get? h with
    | none =>
      cases hmet : prepared.remainingOwners.get? h with
      | none =>
        rw [ownerCount, hentry]
        rfl
      | some count =>
        obtain ⟨entry, hentry'⟩ := hc.met h count hmet
        rw [hentry] at hentry'
        cases hentry'
    | some entry =>
      cases hmet : prepared.remainingOwners.get? h with
      | none =>
        rw [ownerCount, hentry]
        simp [setOwners, hmet]
      | some count =>
        cases count with
        | zero =>
          obtain ⟨handle, hmem⟩ := hc.zero h hmet
          exact absurd (mem_map_of_mem hmem) hstays
        | succ count => simp [setOwners, hmet]

/-- The node of a handle that stays is not among the dropped ones. -/
theorem Cascade.node_stays (hs : s.Separate) (hc : Cascade s prepared) {h : VmHandle}
    (hentry : s.live.get? h = some entry) (hstays : h ∉ prepared.removals.map Prod.fst) :
    entry.heapHandle ∉ prepared.removals.map Prod.snd := by
  intro hmem
  obtain ⟨⟨h', handle⟩, hremoval, rfl⟩ := mem_map.mp hmem
  obtain ⟨-, entry', hentry', heq⟩ := hc.removed h' _ hremoval
  obtain rfl := hs _ _ _ _ hentry' hentry heq
  exact hstays (mem_map_of_mem hremoval)

end Commit

end Cascade

end RequestVmHeap

end Skiff.Runtime
