import Skiff.Actor.Lease
import Skiff.Session.Directory

/-!
# Closed sessions

The handler of a closed session visits the keys that are owned, and releases those whose fence
is of the session's replica. A fence does not retain the connection that its claim came through,
so the connection generation makes no difference: when a replica has reconnected, the close of
its old session takes the fences of the new one too, and they have to be claimed again.
-/

namespace Skiff.Actor

open ActorOwnershipRegistry Session List

/-- The calls of others in the gaps of the handler. Those of the activation broker, which aborts
the claims of the session, are among the first. -/
structure CloseGaps where
  beforeKeys : List Access
  beforeOwner : ActorLogicalKey → List Access
  beforeRelease : ActorLogicalKey → List Access
  beforeForget : ActorLogicalKey → List Access

namespace ActorLane

/-- The owner of the key is released, and the scheduler has not been told yet. -/
def released (lane : ActorLane) (key : ActorLogicalKey) (registry : ActorOwnershipRegistry) :
    ActorLane :=
  { lane with registry := registry, closing := insert key lane.closing }

def closeKey (session : RuntimeSessionEpoch) (gaps : CloseGaps) (lane : ActorLane)
    (key : ActorLogicalKey) : ActorLane :=
  let lane := lane.wait (gaps.beforeOwner key)
  match lane.registry.currentOwner key with
  | none => lane
  | some fence =>
    if fence.ownerRuntimeId ≠ session.replicaId then lane
    else
      let lane := lane.wait (gaps.beforeRelease key)
      match lane.registry.release key fence .disconnected with
      | .ok (_, registry) => ((lane.released key registry).wait (gaps.beforeForget key)).forget key
      | .error _ => lane

/-- `on_session_closed`, with the part of it that is about owners. -/
def onSessionClosed (session : RuntimeSessionEpoch) (gaps : CloseGaps) (lane : ActorLane) :
    ActorLane :=
  let connection := session.replicaId ++ "#" ++ toString session.connectionGeneration
  let control := lane.control.onOwnerDisconnect session.replicaId connection
  let lane := { lane with control := control }.wait gaps.beforeKeys
  lane.ownedKeys.foldl (closeKey session gaps) lane

/-- The call of another handler leaves the owner of the key alone. -/
def Spares (key : ActorLogicalKey) (access : Access) : Prop :=
  ∀ lane : ActorLane, (lane.access access).registry.currentOwner key =
    lane.registry.currentOwner key

/-- No other handler touches the owner of the key while the session is closed. -/
def SparedIn (gaps : CloseGaps) (key : ActorLogicalKey) : Prop :=
  (∀ access ∈ gaps.beforeKeys, Spares key access) ∧
    ∀ other, (∀ access ∈ gaps.beforeOwner other, Spares key access) ∧
      (∀ access ∈ gaps.beforeRelease other, Spares key access) ∧
        ∀ access ∈ gaps.beforeForget other, Spares key access

section Close

variable {session : RuntimeSessionEpoch} {gaps : CloseGaps} {lane : ActorLane}
variable {key other : ActorLogicalKey} {fence : ActorOwnerFence}

theorem release_currentOwner (howner : lane.registry.currentOwner key = some fence) :
    ∃ registry, lane.registry.release key fence .disconnected = .ok ((), registry) ∧
      registry.currentOwner key = none ∧
        ∀ other, other ≠ key → registry.currentOwner other = lane.registry.currentOwner other := by
  obtain ⟨entry, hget, hentry⟩ := Option.bind_eq_some_iff.mp howner
  have hsame : fenceIdentityMatches fence fence = true := fenceIdentityMatches_iff.mpr rfl
  refine ⟨{ lane.registry with
    entries := lane.registry.entries.insert key
      { entry with owner := none, evictionRequestId := none } }, ?_, ?_, ?_⟩
  · simp [release, updateEntry, hget, ActorEntry.release, hentry, hsame]
  · simp [currentOwner]
  intro other hne
  simp [currentOwner, OrdMap.get?_insert_of_ne _ _ hne]

/-- Whoever is released, the owners of other keys stay. -/
theorem currentOwner_of_updateEntry {α : Type} {answer : α} {registry next : ActorOwnershipRegistry}
    {operation : ActorEntry → Except OwnershipError (α × ActorEntry)}
    (h : registry.updateEntry key operation = .ok (answer, next)) (hne : other ≠ key) :
    next.currentOwner other = registry.currentOwner other := by
  obtain ⟨entry, entry', -, -, rfl⟩ := Call.updateEntry_eq_ok h
  simp [currentOwner, OrdMap.get?_insert_of_ne _ _ hne]

theorem spares_requestEviction (hne : key ≠ other) (evictionRequestId : String) :
    Spares key (.call (.requestEviction other evictionRequestId)) := by
  intro lane
  show (Call.apply _ lane.registry).currentOwner key = _
  unfold Call.apply Call.run
  dsimp only
  cases h : lane.registry.requestEviction other evictionRequestId with
  | error refusal => rfl
  | ok accepted => exact currentOwner_of_updateEntry h hne

theorem currentOwner_wait {gap : List Access} (h : ∀ access ∈ gap, Spares key access)
    (lane : ActorLane) :
    (lane.wait gap).registry.currentOwner key = lane.registry.currentOwner key := by
  induction gap generalizing lane with
  | nil => rfl
  | cons access rest ih =>
    have hrest := ih (fun later hmem => h later (.tail _ hmem)) (lane.access access)
    exact hrest.trans (h access (.head _) lane)

theorem currentOwner_closeKey_of_ne (hspared : SparedIn gaps key) (hne : key ≠ other)
    (lane : ActorLane) :
    (lane.closeKey session gaps other).registry.currentOwner key =
      lane.registry.currentOwner key := by
  obtain ⟨howner, hrelease, hforget⟩ := hspared.2 other
  have hfirst := currentOwner_wait howner lane
  unfold closeKey
  dsimp only
  split
  · exact hfirst
  split
  · exact hfirst
  split
  case h_1 registry hok =>
      have hreleased := currentOwner_of_updateEntry hok hne
      exact (currentOwner_wait hforget _).trans
        (hreleased.trans ((currentOwner_wait hrelease _).trans hfirst))
  case h_2 => exact (currentOwner_wait hrelease _).trans hfirst

/-- The visit of a key that nobody else touches. -/
theorem currentOwner_closeKey (hspared : SparedIn gaps key) (lane : ActorLane) :
    (lane.closeKey session gaps key).registry.currentOwner key =
      (lane.registry.currentOwner key).filter fun fence =>
        fence.ownerRuntimeId ≠ session.replicaId := by
  obtain ⟨howner, hrelease, hforget⟩ := hspared.2 key
  have hfirst := currentOwner_wait howner lane
  rw [← hfirst]
  unfold closeKey
  dsimp only
  split
  case h_1 hnone => rw [hnone, Option.filter_none]
  case h_2 fence hfence =>
    split
    case isTrue hother => rw [hfence, Option.filter_some_pos (by simpa using hother)]
    case isFalse hreplica =>
      have hstill := (currentOwner_wait hrelease (lane.wait (gaps.beforeOwner key))).trans hfence
      obtain ⟨registry, hok, hnone, -⟩ := release_currentOwner hstill
      rw [hfence, Option.filter_some_neg (by simpa using hreplica), hok]
      exact (currentOwner_wait hforget _).trans hnone

theorem mem_ownedKeys (howner : lane.registry.currentOwner key = some fence) :
    key ∈ lane.ownedKeys := by
  obtain ⟨entry, hget, hentry⟩ := Option.bind_eq_some_iff.mp howner
  refine mem_map.mpr ⟨(key, entry), mem_filter.mpr ⟨OrdMap.get?_eq_some_iff.mp hget, ?_⟩, rfl⟩
  show entry.owner.isSome = true
  rw [hentry]
  rfl

/-- The visits of any keys: those of the key itself filter its owner. -/
theorem currentOwner_foldl (hspared : SparedIn gaps key) (keys : List ActorLogicalKey)
    (lane : ActorLane) :
    (keys.foldl (closeKey session gaps) lane).registry.currentOwner key =
      if key ∈ keys then
        (lane.registry.currentOwner key).filter fun fence =>
          fence.ownerRuntimeId ≠ session.replicaId
      else lane.registry.currentOwner key := by
  induction keys generalizing lane with
  | nil => rfl
  | cons other rest ih =>
    rw [foldl_cons, ih]
    by_cases hsame : key = other
    · rw [← hsame, currentOwner_closeKey hspared, if_pos mem_cons_self, Option.filter_filter]
      simp
    rw [currentOwner_closeKey_of_ne hspared hsame]
    simp [mem_cons, hsame]

theorem wait_control (lane : ActorLane) (gap : List Access) (control : ControlBroker) :
    { lane with control := control }.wait gap = { lane.wait gap with control := control } := by
  induction gap generalizing lane with
  | nil => rfl
  | cons access rest ih =>
    have haccess : { lane with control := control }.access access =
        { lane.access access with control := control } := by
      cases access with
      | call call => rfl
      | disconnect key fence =>
        unfold ActorLane.access
        dsimp only
        split <;> rfl
    change ({ lane with control := control }.access access).wait rest = _
    rw [haccess, ih]
    rfl

/-- The control broker has no say in what is released. -/
theorem foldl_closeKey_control (keys : List ActorLogicalKey) (lane : ActorLane)
    (control : ControlBroker) :
    keys.foldl (closeKey session gaps) { lane with control := control } =
      { keys.foldl (closeKey session gaps) lane with control := control } := by
  induction keys generalizing lane with
  | nil => rfl
  | cons key rest ih =>
    have hvisit : { lane with control := control }.closeKey session gaps key =
        { lane.closeKey session gaps key with control := control } := by
      unfold closeKey
      simp only [wait_control]
      split
      · rfl
      split
      · rfl
      split
      · exact congrArg (forget · key) (wait_control (released _ key _) _ control)
      · rfl
    rw [foldl_cons, hvisit, ih, foldl_cons]

theorem registry_onSessionClosed (session : RuntimeSessionEpoch) (gaps : CloseGaps)
    (lane : ActorLane) :
    (lane.onSessionClosed session gaps).registry =
      ((lane.wait gaps.beforeKeys).ownedKeys.foldl (closeKey session gaps)
        (lane.wait gaps.beforeKeys)).registry := by
  unfold onSessionClosed
  dsimp only
  rw [wait_control]
  exact (congrArg registry (foldl_closeKey_control _ _ _)).trans rfl

/-- Closing a session takes the owners of its replica, through whichever connection they were
activated, and no others. -/
theorem onSessionClosed_releases (session : RuntimeSessionEpoch) (gaps : CloseGaps)
    (lane : ActorLane) :
    (∀ generation, (lane.onSessionClosed ⟨session.replicaId, generation⟩ gaps).registry =
      (lane.onSessionClosed session gaps).registry) ∧
    (∀ (reached : ActorLane) key fence,
      (reached.wait (gaps.beforeOwner key)).registry.currentOwner key = some fence →
      (fence.ownerRuntimeId ≠ session.replicaId →
        reached.closeKey session gaps key = reached.wait (gaps.beforeOwner key)) ∧
      (fence.ownerRuntimeId = session.replicaId →
        ((reached.wait (gaps.beforeOwner key)).wait (gaps.beforeRelease key)).registry.currentOwner
          key = some fence →
        ∃ released : ActorLane, released.registry.currentOwner key = none ∧
          reached.closeKey session gaps key = (released.wait (gaps.beforeForget key)).forget key)) ∧
    ∀ key, SparedIn gaps key → (lane.onSessionClosed session gaps).registry.currentOwner key =
      (lane.registry.currentOwner key).filter fun fence =>
        fence.ownerRuntimeId ≠ session.replicaId := by
  refine ⟨fun generation => ?_, fun reached key fence hfence =>
    ⟨fun hother => ?_, fun hreplica hstill => ?_⟩,
    fun key hspared => ?_⟩
  · rw [registry_onSessionClosed, registry_onSessionClosed]
    rfl
  · unfold closeKey
    dsimp only
    rw [hfence]
    exact if_pos hother
  · obtain ⟨registry, hok, hnone, -⟩ := release_currentOwner hstill
    refine ⟨((reached.wait (gaps.beforeOwner key)).wait (gaps.beforeRelease key)).released key
      registry, hnone, ?_⟩
    unfold closeKey
    dsimp only
    rw [hfence]
    dsimp only
    rw [if_neg (not_not.mpr hreplica), hok]
  have hfirst := currentOwner_wait hspared.1 lane
  rw [registry_onSessionClosed, currentOwner_foldl hspared, hfirst]
  split
  · rfl
  case isFalse habsent =>
    cases howner : lane.registry.currentOwner key with
    | none => rfl
    | some fence => exact absurd (mem_ownedKeys (hfirst.trans howner)) habsent

end Close

/-! ## A replica that has reconnected -/

namespace Reconnected

def key : ActorLogicalKey := ⟨"service", "actor", "id", "v1", "YQ==", "hash"⟩

def request : ActorGetOrCreateRequest where
  rpcId := "rpc"
  actorKey := key
  actorAbiIdentity := ⟨"abi"⟩
  actorImplementationIdentity := ⟨"implementation"⟩
  declarationOwner := ⟨.service, .loadedFileIndex 0, "Actor"⟩
  bootstrapBytes := []
  ownerRuntimeId := "replica"
  ownerConnection := "replica#2"
  routeAuthority := ⟨"build"⟩
  deadline := none
  testCaseCapability := none
  testCaseParentRequestId := none
  now := 0

/-- The second connection has replaced the first. -/
def directory : Directory :=
  [DirectoryEvent.publishPending ⟨"replica", 1⟩ [.actorSessionOwner],
    .markRegistered ⟨"replica", 1⟩,
    .publishPending ⟨"replica", 2⟩ [.actorSessionOwner], .markRegistered ⟨"replica", 2⟩].foldl
      Directory.apply
    (.new {.actorSessionOwner})

def otherKey : ActorLogicalKey := { key with actorIdHash := "other" }

def activate (request : ActorGetOrCreateRequest) (claim : Nat) (broker : ActivationBroker) :
    ActivationBroker :=
  let started := (broker.getOrCreate {} request (fun _ => .ok ()) ⟨[], [], [], [], []⟩).2
  (started.onActivationAck {} (ActorClaimId.mint claim).asStr request.ownerRuntimeId
    request.ownerConnection true 0 []).2

/-- An actor is activated through the second connection, and another one by another replica. -/
def lane : ActorLane where
  registry := (activate { request with
    rpcId := "rpc-2"
    actorKey := otherKey
    ownerRuntimeId := "other"
    ownerConnection := "other#1" } 1 (activate request 0 .new)).registry

def noGaps : CloseGaps := ⟨[], fun _ => [], fun _ => [], fun _ => []⟩

end Reconnected

open Reconnected in
/-- The other replica's actor is released although its eviction is asked for just before. -/
theorem other_replica_keeps_fence : let gaps :=
      { noGaps with beforeRelease := fun _ => [.call (.requestEviction otherKey "evict")] }
    let closed := lane.onSessionClosed ⟨"other", 1⟩ gaps
    (lane.registry.currentOwner otherKey).isSome ∧ closed.registry.currentOwner otherKey = none ∧
      closed.registry.currentOwner key = lane.registry.currentOwner key := by
  intro gaps closed
  have hspared : SparedIn gaps key := by
    refine ⟨fun _ h => absurd h not_mem_nil, fun _ => ⟨fun _ h => absurd h not_mem_nil,
      fun access h => ?_, fun _ h => absurd h not_mem_nil⟩⟩
    exact mem_singleton.mp h ▸ spares_requestEviction (by decide) _
  refine ⟨by decide, by decide, ?_⟩
  rw [(onSessionClosed_releases ⟨"other", 1⟩ gaps lane).2.2 key hspared]
  decide

open Reconnected in
/-- The first connection is closed after the second has claimed an actor, which loses its fence. -/
theorem fence_of_replacement_released :
    directory.current "replica" = some ⟨"replica", 2⟩ ∧
      (lane.registry.currentOwner key).map (·.ownerRuntimeId) = some "replica" ∧
        (lane.onSessionClosed ⟨"replica", 1⟩ noGaps).registry.currentOwner key = none := by
  refine ⟨by decide, by decide, by decide⟩

end ActorLane

end Skiff.Actor
