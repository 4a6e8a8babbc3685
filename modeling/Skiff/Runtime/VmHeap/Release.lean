import Skiff.Runtime.VmHeap.Owners
import Mathlib.Data.List.Nodup

/-!
# Releasing a snapshot

`release_snapshot` first walks over the owners with counts of its own and then changes the heap.
What it does to the heap is the recursive release of reference counting, which changes each count
where it meets it. The walk ends on every graph, and nothing that the commit expects is missing.
-/

namespace Skiff.Runtime

open RequestResourceTable OrdMap List Option

namespace RequestResourceTable

/-- `terminate`: a live entry is closed, a closed one is left alone. -/
def terminate (table : RequestResourceTable) (route : VmHandle) :
    Except RequestResourceLookupError (RequestResourceRelease × RequestResourceTable) := do
  table.keyFor route
  match table.routes.get? route with
  | some (.closed _) => .ok (.alreadyReleased, table)
  | _ => do
    let _ ← table.liveEntry route
    .ok (.released, table.release route)

variable {table : RequestResourceTable} {route other : VmHandle} {tag : CompactTypeTag}
variable {flags : ValueFlags}

theorem validateVmRouteMetadata_eq_ok :
    table.validateVmRouteMetadata route tag flags = .ok () ↔
      table.keyFor route = .ok () ∧ table.routes.get? route = some (.live (some (tag, flags))) := by
  unfold validateVmRouteMetadata
  constructor
  · intro h
    obtain ⟨_, hkey, hrest⟩ := bind_eq_ok.mp h
    obtain ⟨metadata, hlive, hmetadata⟩ := bind_eq_ok.mp hrest
    refine ⟨hkey, ?_⟩
    split at hmetadata
    case isTrue heq =>
      unfold liveEntry at hlive
      split at hlive
      case h_1 found hfound =>
        cases hlive
        rw [hfound, heq]
      case h_2 =>
        split at hlive
        · cases hlive
        · cases hlive
    case isFalse => cases hmetadata
  rintro ⟨hkey, hlive⟩
  have hentry : table.liveEntry route = .ok (some (tag, flags)) := by rw [liveEntry, hlive]
  refine bind_eq_ok.mpr ⟨(), hkey, bind_eq_ok.mpr ⟨_, hentry, ?_⟩⟩
  rw [if_pos rfl]

theorem terminate_of_validate (h : table.validateVmRouteMetadata route tag flags = .ok ()) :
    table.terminate route = .ok (.released, table.release route) := by
  obtain ⟨hkey, hlive⟩ := validateVmRouteMetadata_eq_ok.mp h
  have hentry : table.liveEntry route = .ok (some (tag, flags)) := by rw [liveEntry, hlive]
  refine bind_eq_ok.mpr ⟨(), hkey, ?_⟩
  rw [hlive]
  exact bind_eq_ok.mpr ⟨_, hentry, rfl⟩

theorem validate_release (hne : other ≠ route)
    (h : table.validateVmRouteMetadata route tag flags = .ok ()) :
    (table.release other).validateVmRouteMetadata route tag flags = .ok () := by
  obtain ⟨hkey, hlive⟩ := validateVmRouteMetadata_eq_ok.mp h
  rw [validateVmRouteMetadata_eq_ok, release]
  split
  · exact ⟨hkey, by rw [get?_insert_of_ne _ _ (Ne.symm hne)]; exact hlive⟩
  · exact ⟨hkey, hlive⟩

theorem validate_foldl_release {routes : List VmHandle} (hfresh : route ∉ routes)
    (h : table.validateVmRouteMetadata route tag flags = .ok ()) :
    (routes.foldl release table).validateVmRouteMetadata route tag flags = .ok () := by
  induction routes generalizing table with
  | nil => exact h
  | cons first rest ih =>
    simp only [mem_cons, not_or] at hfresh
    obtain ⟨hne, hrest⟩ := hfresh
    exact ih hrest (validate_release (Ne.symm hne) h)

end RequestResourceTable

namespace RequestVmHeap

/-! ## The recursive release -/

def setOwnerCount (s : RequestVmHeap) (handle : VmHandle) (entry : LiveEntry) (count : Nat) :
    RequestVmHeap :=
  { s with live := s.live.insert handle { entry with snapshotOwners := count } }

/-- One owner less. With the last one the container goes, and its children lose an owner
each, the last child first. The fuel bounds the nesting. -/
def releaseOwner : Nat → RequestVmHeap → ValueSlot → Option RequestVmHeap
  | 0, _, _ => none
  | depth + 1, s, slot =>
    match slot with
    | .requestHeapRef handle _ _ => do
      let entry ← (s.liveEntry slot).toOption
      let removed := s.removeHandle (handle, entry.heapHandle)
      match entry.snapshotOwners with
      | 0 => none
      | 1 => (s.sidecar entry.heapHandle).children.reverse.foldlM (releaseOwner depth) removed
      | count + 2 => some (s.setOwnerCount handle entry (count + 1))
    | .resourceRef route _ _ => do
      let _ ← (s.validateResourceSlot slot .releaseSnapshot).toOption
      let table ← s.resources
      match table.terminate route with
      | .ok (.released, closed) => some { s with resources := some closed }
      | _ => none
    | .callbackClosureRef .. => none
    | _ => some s

variable {s t : RequestVmHeap}

theorem foldlM_mono {f g : RequestVmHeap → ValueSlot → Option RequestVmHeap}
    (h : ∀ s slot t, f s slot = some t → g s slot = some t) {slots : List ValueSlot}
    (hrun : slots.foldlM f s = some t) : slots.foldlM g s = some t := by
  induction slots generalizing s with
  | nil => exact hrun
  | cons slot rest ih =>
    rw [foldlM_cons] at hrun ⊢
    obtain ⟨middle, hfirst, hrest⟩ := bind_eq_some_iff.mp hrun
    exact bind_eq_some_iff.mpr ⟨middle, h s slot middle hfirst, ih hrest⟩

theorem releaseOwner_succ {depth : Nat} {slot : ValueSlot}
    (h : releaseOwner depth s slot = some t) : releaseOwner (depth + 1) s slot = some t := by
  induction depth generalizing s t slot with
  | zero => cases h
  | succ depth ih =>
    cases slot with
    | requestHeapRef handle tag flags =>
      rw [releaseOwner] at h ⊢
      obtain ⟨entry, hentry, hrest⟩ := bind_eq_some_iff.mp h
      refine bind_eq_some_iff.mpr ⟨entry, hentry, ?_⟩
      split at hrest
      · cases hrest
      · exact foldlM_mono (fun _ _ _ => ih) hrest
      · exact hrest
    | _ => exact h

theorem releaseOwner_mono {depth more : Nat} (hle : depth ≤ more)
    {slot : ValueSlot} (h : releaseOwner depth s slot = some t) :
    releaseOwner more s slot = some t := by
  induction hle with
  | refl => exact h
  | step _ ih => exact releaseOwner_succ ih

/-! ## The walk -/

/-- The loop over the pending owners without a bound, with the rounds it takes. -/
inductive Consumes (s : RequestVmHeap) (operation : VmHeapOperation)
    (excluded : Option ExcludedOwnerField) : List ValueSlot → PreparedOwnerConsume →
    Except VmHeapError PreparedOwnerConsume → Nat → Prop where
  | done {prepared} : Consumes s operation excluded [] prepared (.ok prepared) 0
  | stuck {owner pending prepared error} :
      consumeOwner s operation excluded owner prepared = .error error →
      Consumes s operation excluded (owner :: pending) prepared (.error error) 1
  | round {owner pending children prepared next result rounds} :
      consumeOwner s operation excluded owner prepared = .ok (next, children) →
      Consumes s operation excluded (children.reverse ++ pending) next result rounds →
      Consumes s operation excluded (owner :: pending) prepared result (rounds + 1)

variable {owner : ValueSlot} {next : PreparedOwnerConsume} {children : List ValueSlot}

section Walk

variable {s : RequestVmHeap} {operation : VmHeapOperation} {excluded : Option ExcludedOwnerField}
variable {pending : List ValueSlot} {prepared final : PreparedOwnerConsume} {rounds : Nat}

theorem length_childrenExcept_le (sidecar : Sidecar) (excluded : Option String) :
    (sidecar.childrenExcept excluded).length ≤ (sidecar.childrenExcept none).length := by
  have hfilter := length_filter_le
    (fun entry : String × ValueSlot => decide (excluded ≠ some entry.1))
    sidecar.objectFields.entries
  simp [Sidecar.childrenExcept] at hfilter ⊢
  omega

/-- The child slots of the handles that stay. -/
def childrenLeft (s : RequestVmHeap) (prepared : PreparedOwnerConsume) : Nat :=
  (prepared.removals.foldl (fun live removal => live.erase removal.1) s.live).weight
    fun _ entry => (s.sidecar entry.heapHandle).children.length

/-- A round takes an owner off the list; the children it puts there are those of a handle that
goes. -/
theorem Cascade.childrenLeft_step (hc : Cascade s prepared)
    (h : consumeOwner s operation excluded owner prepared = .ok (next, children)) :
    children.length + childrenLeft s next ≤ childrenLeft s prepared := by
  unfold childrenLeft
  obtain ⟨-, -, hremovals, rfl⟩ | ⟨handle, entry, count, -, hentry, hleft, -, hrest⟩ :=
    consumeOwner_cases h
  · rw [hremovals]
    simp
  obtain ⟨-, hremovals, rfl⟩ | ⟨-, hremovals, rfl⟩ := hrest
  · rw [hremovals]
    simp
  have hweight := weight_erase
    (fun _ (entry : LiveEntry) => (s.sidecar entry.heapHandle).children.length)
    (prepared.removals.foldl (fun live removal => live.erase removal.1) s.live) handle
  have hfound := get?_foldl_erase Prod.fst prepared.removals s.live handle
  rw [if_neg (hc.not_removed hleft), hentry] at hfound
  rw [weightAt, hfound, Option.elim_some] at hweight
  have hle := length_childrenExcept_le (s.sidecar entry.heapHandle)
    (excludedAt excluded entry.heapHandle)
  rw [hremovals, foldl_append, foldl_cons, foldl_nil]
  dsimp only [Sidecar.children] at hweight ⊢
  omega

/-- The bound of the loop is never what ends it. -/
theorem consumes_consumeOwners (hc : Cascade s prepared)
    (h : pending.length + childrenLeft s prepared ≤ rounds) : ∃ used ≤ rounds,
      Consumes s operation excluded pending prepared
        (consumeOwners s operation excluded rounds pending prepared) used := by
  induction rounds generalizing pending prepared with
  | zero =>
    obtain rfl : pending = [] := length_eq_zero_iff.mp (by omega)
    exact ⟨0, Nat.le_refl 0, .done⟩
  | succ rounds ih =>
    cases pending with
    | nil => exact ⟨0, Nat.zero_le _, .done⟩
    | cons owner rest =>
      rw [consumeOwners]
      cases hround : consumeOwner s operation excluded owner prepared with
      | error error => exact ⟨1, by omega, .stuck hround⟩
      | ok result =>
        obtain ⟨next, children⟩ := result
        have hmeasure := hc.childrenLeft_step hround
        have hrest : (children.reverse ++ rest).length + childrenLeft s next ≤ rounds := by
          simp only [length_append, length_reverse, length_cons] at h ⊢
          omega
        obtain ⟨used, hused, hconsumes⟩ := ih (hc.step hround) hrest
        exact ⟨used + 1, by omega, .round hround hconsumes⟩

theorem prepareOwnerConsume_ends (root : ValueSlot) :
    ∃ used ≤ s.childCount + 1, Consumes s operation excluded [root] ⟨∅, [], []⟩
      (s.prepareOwnerConsume operation excluded root) used := by
  refine consumes_consumeOwners (cascade_start s) ?_
  have hslots : childrenLeft s ⟨∅, [], []⟩ = s.childCount := rfl
  rw [hslots, length_singleton, Nat.add_comm]

/-- A walk over two lists is a walk over the first and one over the second. -/
theorem Consumes.split {first second : List ValueSlot}
    (h : Consumes s operation excluded (first ++ second) prepared (.ok final) rounds) :
    ∃ middle before after, Consumes s operation excluded first prepared (.ok middle) before ∧
      Consumes s operation excluded second middle (.ok final) after ∧ before + after = rounds := by
  generalize hlist : first ++ second = list at h
  generalize hresult : (Except.ok final : Except VmHeapError _) = result at h
  induction h generalizing first with
  | @done prepared =>
    obtain ⟨rfl, rfl⟩ := append_eq_nil_iff.mp hlist
    cases hresult
    exact ⟨_, 0, 0, .done, .done, rfl⟩
  | stuck => cases hresult
  | @round owner pending children prepared next result rounds hround hrest ih =>
    cases first with
    | nil =>
      obtain rfl : second = owner :: pending := hlist
      subst hresult
      exact ⟨_, 0, rounds + 1, .done, .round hround hrest, by omega⟩
    | cons head tail =>
      cases hlist
      obtain ⟨middle, before, after, hbefore, hafter, hsum⟩ :=
        ih (append_assoc children.reverse tail second) hresult
      exact ⟨middle, before + 1, after, .round hround hbefore, hafter, by omega⟩

theorem Consumes.cascade (hc : Cascade s prepared)
    (h : Consumes s operation excluded pending prepared (.ok final) rounds) : Cascade s final := by
  generalize hresult : (Except.ok final : Except VmHeapError _) = result at h
  induction h with
  | done =>
    cases hresult
    exact hc
  | stuck => cases hresult
  | round hround _ ih => exact ih (hc.step hround) hresult

theorem cascade_prepareOwnerConsume {root : ValueSlot}
    (h : s.prepareOwnerConsume operation excluded root = .ok prepared) : Cascade s prepared := by
  obtain ⟨used, -, hwalk⟩ := @prepareOwnerConsume_ends s operation excluded root
  rw [h] at hwalk
  exact hwalk.cascade (cascade_start s)

end Walk

/-! ## The walk against the recursive release -/

variable {h : VmHandle}

section Refinement

variable {s : RequestVmHeap} {prepared : PreparedOwnerConsume} {handle : VmHandle}
variable {tag : CompactTypeTag} {flags : ValueFlags} {entry : LiveEntry}

theorem liveEntry_eq_ok_iff : s.liveEntry (.requestHeapRef handle tag flags) = .ok entry ↔
    domainOf handle = s.domain ∧ s.live.get? handle = some entry ∧ entry.compactTypeTag = tag ∧
      entry.flags = flags ∧ ∃ node, s.heap.get entry.heapHandle = .ok node := by
  unfold liveEntry
  dsimp only
  by_cases hdomain : domainOf handle = s.domain
  · rw [if_neg (not_not.mpr hdomain)]
    cases hlive : s.live.get? handle with
    | none => simp
    | some found =>
      dsimp only
      by_cases hmetadata : found.compactTypeTag ≠ tag ∨ found.flags ≠ flags
      · rw [if_pos hmetadata]
        refine ⟨nofun, fun ⟨_, hfound, htag, hflags, _⟩ => ?_⟩
        cases hfound
        exact absurd hmetadata (by simp [htag, hflags])
      rw [if_neg hmetadata]
      simp only [not_or, not_not] at hmetadata
      cases hnode : s.heap.get found.heapHandle with
      | error error =>
        refine ⟨nofun, fun ⟨_, hfound, _, _, node, hnode'⟩ => ?_⟩
        cases hfound
        rw [hnode] at hnode'
        cases hnode'
      | ok node =>
        constructor
        · intro heq
          cases heq
          exact ⟨hdomain, rfl, hmetadata.1, hmetadata.2, node, hnode⟩
        rintro ⟨_, hfound, _⟩
        rw [some.inj hfound]
  rw [if_pos hdomain]
  exact ⟨nofun, fun h => absurd h.1 hdomain⟩

theorem setOwners_metadata (remaining : OrdMap VmHandle Nat) (h : VmHandle) (entry : LiveEntry) :
    (setOwners remaining h entry).compactTypeTag = entry.compactTypeTag ∧
      (setOwners remaining h entry).flags = entry.flags ∧
      (setOwners remaining h entry).ownerTransfers = entry.ownerTransfers := by
  unfold setOwners
  split
  · exact ⟨rfl, rfl, rfl⟩
  · exact ⟨rfl, rfl, rfl⟩

theorem setOwners_congr {remaining other : OrdMap VmHandle Nat}
    (heq : remaining.get? h = other.get? h) : setOwners remaining h = setOwners other h := by
  funext entry
  rw [setOwners, setOwners, heq]

theorem setOwners_none {remaining : OrdMap VmHandle Nat}
    (hnone : remaining.get? h = none) (entry : LiveEntry) :
    setOwners remaining h entry = entry := by
  rw [setOwners, hnone]

/-- A handle with owners left can be released in the heap that the commit makes. -/
theorem Cascade.liveEntry_commit {count : Nat} (hc : Cascade s prepared)
    (hentry : s.liveEntry (.requestHeapRef handle tag flags) = .ok entry)
    (hleft : remaining s prepared handle = count + 1) :
    ∃ entry', (s.commitOwnerConsume prepared).liveEntry (.requestHeapRef handle tag flags) =
        .ok entry' ∧ entry' = { entry with snapshotOwners := count + 1 } := by
  obtain ⟨hdomain, hlive, htag, hflags, node, hnode⟩ := liveEntry_eq_ok_iff.mp hentry
  have hstays := hc.not_removed hleft
  have hlive' : (s.commitOwnerConsume prepared).live.get? handle =
      some (setOwners prepared.remainingOwners handle entry) := by
    rw [get?_live_commitOwnerConsume, if_neg hstays, hlive, map_some]
  have howners : (setOwners prepared.remainingOwners handle entry).snapshotOwners = count + 1 := by
    have hcount := hc.ownerCount_commit handle
    rw [hleft, ownerCount, hlive'] at hcount
    exact hcount
  obtain ⟨htag', hflags', htransfers⟩ := setOwners_metadata prepared.remainingOwners handle entry
  have hheap := setOwners_heapHandle prepared.remainingOwners handle entry
  refine ⟨setOwners prepared.remainingOwners handle entry, liveEntry_eq_ok_iff.mpr
    ⟨?_, hlive', htag'.trans htag, hflags'.trans hflags, node, ?_⟩, ?_⟩
  · rw [commitOwnerConsume_domain]
    exact hdomain
  · rw [commitOwnerConsume_heap, hheap]
    exact hnode
  generalize setOwners prepared.remainingOwners handle entry = counted at *
  cases counted
  simp_all

theorem commitOwnerConsume_eq : s.commitOwnerConsume prepared = { s with
    live := (s.commitOwnerConsume prepared).live
    slots := slotsLeft s prepared.removals
    handlesByHeap := prepared.removals.foldl (fun handles removal => handles.erase removal.2)
      s.handlesByHeap
    releasedHeapHandles := prepared.removals.foldl
      (fun released removal => released.insert removal.2 removal.1) s.releasedHeapHandles
    resources := s.resources.map fun table => prepared.resourceReleases.foldl release table } := by
  rw [commitOwnerConsume, foldl_removeHandle]
  rfl

/-- One owner less of a container that others own. -/
theorem commit_shared {count : Nat} (hlive : s.live.get? handle = some entry)
    (hstays : handle ∉ prepared.removals.map Prod.fst) :
    s.commitOwnerConsume { prepared with
        remainingOwners := prepared.remainingOwners.insert handle (count + 1) } =
      (s.commitOwnerConsume prepared).setOwnerCount handle entry (count + 1) := by
  rw [commitOwnerConsume_eq, setOwnerCount, @commitOwnerConsume_eq s prepared]
  congr 1
  refine ext fun h => ?_
  rw [get?_live_commitOwnerConsume, get?_insert, get?_live_commitOwnerConsume]
  by_cases hh : h = handle
  · subst hh
    rw [if_neg hstays, if_pos rfl, hlive, map_some, setOwners, get?_insert_self]
  rw [if_neg hh]
  rw [setOwners_congr (get?_insert_of_ne _ _ hh)]

/-- The last owner of a container takes it along. -/
theorem commit_last (hh : HeapHandle) : s.commitOwnerConsume { prepared with
      remainingOwners := prepared.remainingOwners.insert handle 0
      removals := prepared.removals ++ [(handle, hh)] } =
    (s.commitOwnerConsume prepared).removeHandle (handle, hh) := by
  rw [commitOwnerConsume_eq, removeHandle, @commitOwnerConsume_eq s prepared]
  have hslots := @slotsLeft_append s prepared.removals (handle, hh)
  have hlive : (s.commitOwnerConsume { prepared with
        remainingOwners := prepared.remainingOwners.insert handle 0
        removals := prepared.removals ++ [(handle, hh)] }).live =
      (s.commitOwnerConsume prepared).live.erase handle := by
    refine ext fun h => ?_
    rw [get?_live_commitOwnerConsume, get?_erase, get?_live_commitOwnerConsume]
    by_cases heq : h = handle
    · rw [if_pos heq, if_pos (by simp [heq])]
    have hsame : setOwners (prepared.remainingOwners.insert handle 0) h =
        setOwners prepared.remainingOwners h := by
      funext found
      rw [setOwners, setOwners, get?_insert_of_ne _ _ heq]
    have hmem : h ∈ (prepared.removals ++ [(handle, hh)]).map Prod.fst ↔
        h ∈ prepared.removals.map Prod.fst := by
      rw [map_append, mem_append, map_singleton, mem_singleton]
      exact or_iff_left heq
    simp only [if_neg heq, hsame, hmem]
  simp only [hslots, hlive, foldl_append, foldl_cons, foldl_nil]

/-- The routes to release are different ones, and each of them is live. -/
structure Releasable (s : RequestVmHeap) (routes : List VmHandle) : Prop where
  nodup : routes.Nodup
  admitted : ∀ route ∈ routes, ∃ table tag flags, s.resources = some table ∧
    table.validateVmRouteMetadata route tag flags = .ok ()

variable {operation : VmHeapOperation}

theorem validateResourceSlot_eq_ok {route found : VmHandle}
    (h : s.validateResourceSlot (.resourceRef route tag flags) operation = .ok found) :
    ∃ table, s.resources = some table ∧ table.validateVmRouteMetadata route tag flags = .ok () := by
  obtain ⟨table, htable, hrest⟩ := bind_eq_ok.mp h
  obtain ⟨_, hvalid, -⟩ := bind_eq_ok.mp hrest
  refine ⟨table, ?_, ?_⟩
  · unfold resourcesFor at htable
    split at htable
    case h_1 found hsome =>
      cases htable
      exact hsome
    case h_2 => cases htable
  cases hcheck : table.validateVmRouteMetadata route tag flags with
  | ok _ => rfl
  | error error =>
    rw [hcheck] at hvalid
    cases hvalid

variable {table : RequestResourceTable}

theorem validateResourceSlot_of {route : VmHandle} (htable : s.resources = some table)
    (hvalid : table.validateVmRouteMetadata route tag flags = .ok ()) :
    s.validateResourceSlot (.resourceRef route tag flags) operation = .ok route := by
  refine bind_eq_ok.mpr ⟨table, ?_, bind_eq_ok.mpr ⟨(), ?_, rfl⟩⟩
  · rw [resourcesFor, htable]
  rw [hvalid]
  rfl

/-- A route that is still to be released is live in the table of the commit. -/
theorem validate_commit {route : VmHandle}
    (htable : s.resources = some table) (hfresh : route ∉ prepared.resourceReleases)
    (hvalid : table.validateVmRouteMetadata route tag flags = .ok ()) :
    (s.commitOwnerConsume prepared).resources =
        some (prepared.resourceReleases.foldl release table) ∧
      (prepared.resourceReleases.foldl release table).validateVmRouteMetadata
        route tag flags = .ok () := by
  refine ⟨?_, validate_foldl_release hfresh hvalid⟩
  rw [commitOwnerConsume_eq, htable]
  rfl

/-- One round of the walk is one step of the recursive release. -/
theorem releaseOwner_round (hs : s.Separate) (hc : Cascade s prepared)
    (h : consumeOwner s .releaseSnapshot none owner prepared = .ok (next, children)) (depth : Nat) :
    releaseOwner (depth + 1) (s.commitOwnerConsume prepared) owner =
      children.reverse.foldlM (releaseOwner depth) (s.commitOwnerConsume next) := by
  cases owner with
  | requestHeapRef handle tag flags =>
    obtain ⟨entry, hentry, hrest⟩ := bind_eq_ok.mp h
    obtain ⟨-, hlive, -⟩ := liveEntry_eq_ok_iff.mp hentry
    have howners : s.ownerCount handle = entry.snapshotOwners := by rw [ownerCount, hlive]; rfl
    split at hrest
    · cases hrest
    case h_2 count hcount =>
      have hleft : remaining s prepared handle = count + 1 := by rw [remaining, howners, hcount]
      have hstays := hc.not_removed hleft
      obtain ⟨entry', hentry', rfl⟩ := hc.liveEntry_commit hentry hleft
      rw [releaseOwner, hentry']
      dsimp only [Except.toOption, bind_eq_bind, bind_some] at hrest ⊢
      cases count with
      | zero =>
        cases hrest
        have hsidecar : (s.commitOwnerConsume prepared).sidecar entry.heapHandle =
            s.sidecar entry.heapHandle := by
          rw [sidecar, commitOwnerConsume_slots, get?_slotsLeft,
            if_neg (hc.node_stays hs hlive hstays), sidecar]
        rw [hsidecar, commit_last]
        rfl
      | succ count =>
        cases hrest
        rw [commit_shared hlive hstays]
        rfl
  | resourceRef route tag flags =>
    obtain ⟨found, hvalid, hrest⟩ := bind_eq_ok.mp h
    obtain ⟨table, htable, hroute⟩ := validateResourceSlot_eq_ok hvalid
    split at hrest
    · cases hrest
    case isFalse hfresh =>
      cases hrest
      obtain ⟨hresources, hlive⟩ := validate_commit htable hfresh hroute
      have hcheck : (s.commitOwnerConsume prepared).validateResourceSlot
          (.resourceRef route tag flags) .releaseSnapshot = .ok route :=
        validateResourceSlot_of hresources hlive
      rw [releaseOwner, hcheck]
      dsimp only [Except.toOption, bind_eq_bind, bind_some]
      rw [hresources, bind_some, terminate_of_validate hlive]
      dsimp only [reverse_nil, foldlM_nil]
      rw [commitOwnerConsume_eq, htable,
        @commitOwnerConsume_eq s { prepared with
          resourceReleases := prepared.resourceReleases ++ [route] }, htable]
      simp only [map_some, foldl_append, foldl_cons, foldl_nil]
      rfl
  | actorStateRef handle tag flags | constRef handle tag flags
  | callbackClosureRef handle tag flags => cases h
  | _ =>
    obtain ⟨_, -, hrest⟩ := bind_eq_ok.mp h
    cases hrest
    rfl

variable {pending : List ValueSlot} {final : PreparedOwnerConsume}
variable {excluded : Option ExcludedOwnerField}

/-- The walk releases its pending owners one after the other, whatever it has done before. -/
theorem Consumes.releases {rounds : Nat} (hs : s.Separate) (hc : Cascade s prepared)
    (h : Consumes s .releaseSnapshot none pending prepared (.ok final) rounds) :
    ∃ depth, pending.foldlM (releaseOwner depth) (s.commitOwnerConsume prepared) =
      some (s.commitOwnerConsume final) := by
  induction rounds using Nat.strong_induction_on generalizing pending prepared final with
  | _ rounds ih =>
    cases h with
    | done => exact ⟨0, rfl⟩
    | @round owner rest children _ next _ rounds hround hrest =>
      -- The children come first; what is left of the list starts where they end.
      obtain ⟨middle, before, after, hbefore, hafter, hsum⟩ := hrest.split
      have hnext := hc.step hround
      obtain ⟨depth, hchildren⟩ := ih before (by omega) hnext hbefore
      obtain ⟨more, hothers⟩ := ih after (by omega) (hbefore.cascade hnext) hafter
      have howner : releaseOwner (depth + 1) (s.commitOwnerConsume prepared) owner =
          some (s.commitOwnerConsume middle) :=
        (releaseOwner_round hs hc hround depth).trans hchildren
      refine ⟨max (depth + 1) more, ?_⟩
      rw [foldlM_cons, releaseOwner_mono (le_max_left _ _) howner]
      exact foldlM_mono (fun _ _ _ => releaseOwner_mono (le_max_right _ _)) hothers

/-! ## The checks of the commit -/

theorem releasable_step (hroutes : Releasable s prepared.resourceReleases)
    (h : consumeOwner s operation excluded owner prepared = .ok (next, children)) :
    Releasable s next.resourceReleases := by
  cases owner with
  | requestHeapRef handle tag flags =>
    obtain ⟨entry, -, hrest⟩ := bind_eq_ok.mp h
    split at hrest
    · cases hrest
    dsimp only at hrest
    split at hrest
    · cases hrest
      exact hroutes
    cases hrest
    exact hroutes
  | resourceRef route tag flags =>
    obtain ⟨found, hvalid, hrest⟩ := bind_eq_ok.mp h
    obtain ⟨table, htable, hroute⟩ := validateResourceSlot_eq_ok hvalid
    split at hrest
    · cases hrest
    case isFalse hfresh =>
      cases hrest
      constructor
      · exact nodup_append.mpr ⟨hroutes.nodup, by simp,
          fun other hmem last hlast heq => hfresh (mem_singleton.mp hlast ▸ heq ▸ hmem)⟩
      intro other hmem
      obtain hmem | hmem := mem_append.mp hmem
      · exact hroutes.admitted other hmem
      obtain rfl := mem_singleton.mp hmem
      exact ⟨table, tag, flags, htable, hroute⟩
  | actorStateRef handle tag flags | constRef handle tag flags
  | callbackClosureRef handle tag flags => cases h
  | _ =>
    obtain ⟨_, -, hrest⟩ := bind_eq_ok.mp h
    cases hrest
    exact hroutes

theorem Consumes.releasable {rounds : Nat} (hroutes : Releasable s prepared.resourceReleases)
    (h : Consumes s operation excluded pending prepared (.ok final) rounds) :
    Releasable s final.resourceReleases := by
  generalize hresult : (Except.ok final : Except VmHeapError _) = result at h
  induction h with
  | done =>
    cases hresult
    exact hroutes
  | stuck => cases hresult
  | round hround _ ih => exact ih (releasable_step hroutes hround) hresult

/-- The counts of the commit; the handle is expected to be live. -/
def setOwnerChecked (s : RequestVmHeap) (counted : VmHandle × Nat) : Option RequestVmHeap :=
  if counted.2 = 0 then some s
  else do
    let entry ← s.live.get? counted.1
    some (s.setOwnerCount counted.1 entry counted.2)

/-- A removal of the commit; the handle is expected to be live, on its node. -/
def removeChecked (s : RequestVmHeap) (removal : VmHandle × HeapHandle) : Option RequestVmHeap := do
  let entry ← s.live.get? removal.1
  if entry.heapHandle = removal.2 then some (s.removeHandle removal) else none

/-- A route of the commit; the table is expected to take it. -/
def releaseChecked (table : RequestResourceTable) (route : VmHandle) :
    Option RequestResourceTable := do
  let (_, closed) ← (table.terminate route).toOption
  some closed

/-- `commit_owner_consume` with its checks: none where one of them does not hold. -/
def commitChecked (s : RequestVmHeap) (prepared : PreparedOwnerConsume) : Option RequestVmHeap := do
  let counted ← prepared.remainingOwners.entries.foldlM setOwnerChecked s
  let removed ← prepared.removals.foldlM removeChecked counted
  if prepared.resourceReleases.isEmpty then some removed
  else do
    let table ← removed.resources
    let closed ← prepared.resourceReleases.foldlM releaseChecked table
    some { removed with resources := some closed }

theorem foldlM_setOwnerChecked {counts : OrdMap VmHandle Nat}
    (hlive : ∀ h count, counts.get? h = some count → ∃ entry, s.live.get? h = some entry) :
    counts.entries.foldlM setOwnerChecked s =
      some { s with live := s.live.mapWithKey (setOwners counts) } := by
  obtain ⟨entries, hsorted⟩ := counts
  induction entries generalizing s with
  | nil =>
    have hsame : s.live.mapWithKey (setOwners ⟨[], hsorted⟩) = s.live := by
      refine ext fun h => ?_
      rw [get?_mapWithKey]
      cases s.live.get? h with
      | none => rfl
      | some entry => rw [map_some, setOwners_none rfl]
    rw [hsame]
    rfl
  | cons counted rest ih =>
    obtain ⟨handle, count⟩ := counted
    have hrest := (pairwise_cons.mp hsorted).2
    have habsent : get? ⟨rest, hrest⟩ handle = none :=
      lookupList_eq_none_of_lt (pairwise_cons.mp hsorted).1
    have hhere : get? ⟨(handle, count) :: rest, hsorted⟩ handle = some count := if_pos rfl
    have hthere : ∀ h, h ≠ handle →
        get? ⟨(handle, count) :: rest, hsorted⟩ h = get? ⟨rest, hrest⟩ h :=
      fun h hne => if_neg hne
    obtain ⟨entry, hentry⟩ := hlive handle count hhere
    -- After the head only the counts of the tail are to be set.
    have hfinish : ∀ live : OrdMap VmHandle LiveEntry,
        live.get? handle = some (setOwners ⟨(handle, count) :: rest, hsorted⟩ handle entry) →
        (∀ h, h ≠ handle → live.get? h = s.live.get? h) →
        rest.foldlM setOwnerChecked { s with live := live } = some { s with
          live := s.live.mapWithKey (setOwners ⟨(handle, count) :: rest, hsorted⟩) } := by
      intro live hat hother
      have hstays : ∀ h c, get? ⟨rest, hrest⟩ h = some c → ∃ entry, live.get? h = some entry := by
        intro h c hget
        have hne : h ≠ handle := ne_of_get? hget habsent
        obtain ⟨found, hfound⟩ := hlive h c ((hthere h hne).trans hget)
        exact ⟨found, (hother h hne).trans hfound⟩
      rw [@ih { s with live := live } hrest hstays]
      have hsame : live.mapWithKey (setOwners ⟨rest, hrest⟩) =
          s.live.mapWithKey (setOwners ⟨(handle, count) :: rest, hsorted⟩) := by
        refine ext fun h => ?_
        rw [get?_mapWithKey, get?_mapWithKey]
        by_cases hh : h = handle
        · subst hh
          rw [hat, hentry, map_some, map_some, setOwners_none habsent]
        · rw [hother h hh, setOwners_congr (hthere h hh)]
      dsimp only
      rw [hsame]
    rw [foldlM_cons, setOwnerChecked]
    cases count with
    | zero =>
      refine hfinish s.live ?_ fun _ _ => rfl
      rw [hentry, setOwners, hhere]
    | succ count =>
      rw [if_neg (Nat.succ_ne_zero count), hentry]
      refine hfinish (s.live.insert handle { entry with snapshotOwners := count + 1 }) ?_
        fun h hne => get?_insert_of_ne _ _ hne
      rw [get?_insert_self, setOwners, hhere]

theorem foldlM_removeChecked {removals : List (VmHandle × HeapHandle)}
    (hkeys : (removals.map Prod.fst).Nodup)
    (hlive : ∀ removal ∈ removals, ∃ entry, s.live.get? removal.1 = some entry ∧
      entry.heapHandle = removal.2) :
    removals.foldlM removeChecked s = some (removals.foldl removeHandle s) := by
  induction removals generalizing s with
  | nil => rfl
  | cons removal rest ih =>
    obtain ⟨entry, hentry, heq⟩ := hlive removal (.head _)
    rw [map_cons, nodup_cons] at hkeys
    have hhead : removeChecked s removal = some (s.removeHandle removal) := by
      rw [removeChecked, hentry]
      exact if_pos heq
    rw [foldlM_cons, hhead, foldl_cons]
    refine ih hkeys.2 fun other hother => ?_
    obtain ⟨found, hfound, hnode⟩ := hlive other (.tail _ hother)
    refine ⟨found, ?_, hnode⟩
    have hne : other.1 ≠ removal.1 := fun heq => hkeys.1 (heq ▸ mem_map_of_mem hother)
    rw [removeHandle, get?_erase_of_ne _ hne]
    exact hfound

theorem foldlM_releaseChecked {routes : List VmHandle}
    (hnodup : routes.Nodup) (hlive : ∀ route ∈ routes, ∃ tag flags,
      table.validateVmRouteMetadata route tag flags = .ok ()) :
    routes.foldlM releaseChecked table = some (routes.foldl release table) := by
  induction routes generalizing table with
  | nil => rfl
  | cons route rest ih =>
    obtain ⟨tag, flags, hvalid⟩ := hlive route (.head _)
    rw [nodup_cons] at hnodup
    have hhead : releaseChecked table route = some (table.release route) := by
      rw [releaseChecked, terminate_of_validate hvalid]
      rfl
    rw [foldlM_cons, hhead, foldl_cons]
    refine ih hnodup.2 fun other hother => ?_
    obtain ⟨tag, flags, hvalid⟩ := hlive other (.tail _ hother)
    have hne : route ≠ other := fun heq => hnodup.1 (heq ▸ hother)
    exact ⟨tag, flags, validate_release hne hvalid⟩

theorem Cascade.nodup_handles (hc : Cascade s prepared) :
    (prepared.removals.map Prod.fst).Nodup := by
  refine List.Nodup.map_on (fun removal hmem other hother heq => ?_) hc.nodup
  obtain ⟨handle, hh⟩ := removal
  obtain ⟨handle', hh'⟩ := other
  obtain rfl : handle = handle' := heq
  obtain ⟨-, entry, hentry, rfl⟩ := hc.removed handle hh hmem
  obtain ⟨-, entry', hentry', rfl⟩ := hc.removed handle hh' hother
  rw [hentry] at hentry'
  rw [some.inj hentry']

/-- Nothing that the commit expects is missing. -/
theorem Cascade.commitChecked_eq (hc : Cascade s prepared)
    (hroutes : Releasable s prepared.resourceReleases) :
    s.commitChecked prepared = some (s.commitOwnerConsume prepared) := by
  let counted : RequestVmHeap :=
    { s with live := s.live.mapWithKey (setOwners prepared.remainingOwners) }
  have hcounted : prepared.remainingOwners.entries.foldlM setOwnerChecked s = some counted :=
    foldlM_setOwnerChecked hc.met
  have hremoved : prepared.removals.foldlM removeChecked counted =
      some (prepared.removals.foldl removeHandle counted) := by
    refine foldlM_removeChecked hc.nodup_handles fun removal hmem => ?_
    obtain ⟨-, entry, hentry, hnode⟩ := hc.removed removal.1 removal.2 hmem
    refine ⟨setOwners prepared.remainingOwners removal.1 entry, ?_, ?_⟩
    · rw [get?_mapWithKey, hentry]
      rfl
    rw [setOwners_heapHandle]
    exact hnode
  have hresources : (prepared.removals.foldl removeHandle counted).resources = s.resources := by
    rw [foldl_removeHandle]
  have hcommit : s.commitOwnerConsume prepared = { prepared.removals.foldl removeHandle counted with
      resources := s.resources.map fun table =>
        prepared.resourceReleases.foldl release table } := by
    rw [← hresources]
    rfl
  rw [commitChecked, hcounted, bind_eq_bind, bind_some, hremoved, bind_eq_bind, bind_some, hcommit]
  cases hlist : prepared.resourceReleases with
  | nil =>
    have hsame : (s.resources.map fun table => foldl release table []) =
        (prepared.removals.foldl removeHandle counted).resources :=
      Option.map_id'.trans hresources.symm
    rw [isEmpty_nil, if_pos rfl, hsame]
  | cons route rest =>
    obtain ⟨table, -, -, htable, -⟩ := hroutes.admitted route (hlist ▸ (.head _))
    have hclosed : (route :: rest).foldlM releaseChecked table =
        some ((route :: rest).foldl release table) := by
      refine foldlM_releaseChecked (hlist ▸ hroutes.nodup) fun other hmem => ?_
      obtain ⟨table', tag, flags, htable', hvalid⟩ := hroutes.admitted other (hlist ▸ hmem)
      obtain rfl := some.inj (htable.symm.trans htable')
      exact ⟨tag, flags, hvalid⟩
    rw [isEmpty_cons, if_neg Bool.false_ne_true, hresources, htable, bind_some, hclosed]
    rfl

end Refinement

theorem commit_nothing (s : RequestVmHeap) : s.commitOwnerConsume ⟨∅, [], []⟩ = s := by
  have hlive : s.live.mapWithKey (setOwners ∅) = s.live := by
    refine ext fun h => ?_
    rw [get?_mapWithKey]
    cases s.live.get? h with
    | none => rfl
    | some entry => rw [map_some, setOwners_none (get?_empty h)]
  rw [commitOwnerConsume]
  dsimp only [foldl_nil]
  rw [hlive, Option.map_id']

/-- A container that stays keeps its children. -/
theorem Cascade.sidecar_commit (hs : s.Separate) (hc : Cascade s prepared)
    {entry : LiveEntry} (hlive : (s.commitOwnerConsume prepared).live.get? h = some entry) :
    (s.commitOwnerConsume prepared).sidecar entry.heapHandle = s.sidecar entry.heapHandle := by
  obtain ⟨hstays, found, hfound, rfl⟩ := live_of_commitOwnerConsume hlive
  rw [setOwners_heapHandle, sidecar, commitOwnerConsume_slots, get?_slotsLeft,
    if_neg (hc.node_stays hs hfound hstays), sidecar]

end RequestVmHeap

end Skiff.Runtime
