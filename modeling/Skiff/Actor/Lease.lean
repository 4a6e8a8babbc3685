import Skiff.Actor.Activation

/-!
# Leases and evictions

The actor lane of the router: the ownership registry, `ActorLeaseExpiryScheduler`,
`ActorOwnerControlBroker`, and the handlers that bring them together.

A sweep holds the scheduler's lock and takes the registry's lock anew for each of its calls, so
the calls of others that run in between are arguments of it. The handler of a closed session
releases a fence first and has the scheduler forget the key afterwards; `closing` holds the keys
between the two. Counters are left out.
-/

namespace Skiff.Actor

open ActorOwnershipRegistry

/-! ## Owner control -/

inductive ActorOwnerControlOperation where
  | markUpgrading
  | discard
  | activate
  | activateInitial
  | idleEvict
deriving DecidableEq

structure ControlBrokerOptions where
  ackDeadlineMs : Nat := 10000
  maxPending : Nat := 4096
  maxTombstones : Nat := 1024

structure PendingControl where
  operation : ActorOwnerControlOperation
  runtimeId : String
  connection : String
  fence : ActorOwnerFence
  routeAuthority : ActorOwnerRouteAuthority
  deadlineAt : Nat

structure OwnerControlRequest extends PendingControl where
  requestId : String

inductive ControlError where
  | duplicate
  | saturated

inductive ControlAckOutcome where
  | accepted
  | rejected
  | lateAck
  | wrongCorrelation
  | unknown
deriving DecidableEq

structure ControlBroker where
  pending : OrdMap String PendingControl := ∅
  tombstones : Finset String := ∅
  outcomes : OrdMap String Bool := ∅

namespace ControlBroker

variable (options : ControlBrokerOptions) (broker : ControlBroker)

def finish (requestId : String) (accepted : Bool) : ControlBroker where
  pending := broker.pending.erase requestId
  tombstones := insert requestId broker.tombstones
  outcomes := broker.outcomes.insert requestId accepted

def sendControl (request : OwnerControlRequest) : Except ControlError ControlBroker :=
  if broker.pending.contains request.requestId then .error .duplicate
  else if options.maxPending ≤ broker.pending.size then .error .saturated
  else .ok { broker with pending :=
    broker.pending.insert request.requestId request.toPendingControl }

/-- The acknowledgement comes from where the request was sent. -/
def Answers (pending : PendingControl) (runtimeId : String) (operation : ActorOwnerControlOperation)
    (connection : String) : Prop :=
  pending.runtimeId = runtimeId ∧ pending.operation = operation ∧ pending.connection = connection

instance (pending : PendingControl) (runtimeId : String) (operation : ActorOwnerControlOperation)
    (connection : String) : Decidable (Answers pending runtimeId operation connection) :=
  inferInstanceAs (Decidable (_ ∧ _ ∧ _))

def onAck (runtimeId requestId : String) (operation : ActorOwnerControlOperation)
    (connection : String) (accepted : Bool) : ControlAckOutcome × ControlBroker :=
  match broker.pending.get? requestId with
  | none => (if requestId ∈ broker.tombstones then .lateAck else .unknown, broker)
  | some pending =>
    if Answers pending runtimeId operation connection then
      (if accepted then .accepted else .rejected, broker.finish requestId accepted)
    else (.wrongCorrelation, broker)

/-- The request is over without an acknowledgement. -/
def timeout (requestId : String) : ControlBroker :=
  if broker.pending.contains requestId then broker.finish requestId false else broker

/-- The requests with a property. -/
def pendingIds (select : PendingControl → Bool) : List String :=
  (broker.pending.entries.filter fun (_, pending) => select pending).map Prod.fst

def expireDeadlines (now : Nat) : ControlBroker :=
  (broker.pendingIds fun pending => pending.deadlineAt ≤ now).foldl timeout broker

def onOwnerDisconnect (runtimeId connection : String) : ControlBroker :=
  (broker.pendingIds fun pending => pending.runtimeId = runtimeId &&
    pending.connection = connection).foldl
    timeout broker

/-- `shutdown` ends every request and keeps no tombstones. -/
def shutdown : ControlBroker :=
  { broker.pending.keys.foldl timeout broker with tombstones := ∅ }

end ControlBroker

/-! ## The lease scheduler -/

structure LeaseSchedulerOptions where
  idleTtlMs : Nat := 30000
  maxEvictionRetries : Nat := 3

structure EvictionState where
  evictionRequestId : String
  retries : Nat
  exhausted : Bool
deriving DecidableEq

structure LeaseScheduler where
  idleSince : OrdMap ActorLogicalKey Nat := ∅
  connections : OrdMap ActorLogicalKey String := ∅
  evictions : OrdMap ActorLogicalKey EvictionState := ∅
  evictionSeq : Nat := 0

namespace LeaseScheduler

variable (lease : LeaseScheduler)

def markLive (key : ActorLogicalKey) (now : Nat) (connection : String) : LeaseScheduler :=
  { lease with
    idleSince := lease.idleSince.insert key now
    connections := lease.connections.insert key connection }

def markActive (key : ActorLogicalKey) (now : Nat) : LeaseScheduler :=
  { lease with idleSince := lease.idleSince.insert key now }

def forget (key : ActorLogicalKey) : LeaseScheduler :=
  { lease with
    idleSince := lease.idleSince.erase key
    connections := lease.connections.erase key
    evictions := lease.evictions.erase key }

/-- The key has been idle for the idle time. -/
def Idle (options : LeaseSchedulerOptions) (now : Nat) (key : ActorLogicalKey) : Prop :=
  options.idleTtlMs ≤ now - (lease.idleSince.get? key).getD now

instance (options : LeaseSchedulerOptions) (now : Nat) (key : ActorLogicalKey) :
    Decidable (lease.Idle options now key) :=
  inferInstanceAs (Decidable (_ ≤ _))

end LeaseScheduler

/-! ## The lane -/

/-- An `IdleEvict` frame on its way to an owner. -/
structure IdleEvictFrame where
  evictionRequestId : String
  key : ActorLogicalKey
  fence : ActorOwnerFence
deriving DecidableEq

/-- What becomes of `send_idle_evict`: the catalog does not resolve the deployment, the frame
cannot be written, or it is written. -/
inductive SendOutcome where
  | unresolved
  | unwritten
  | written

/-- How a sweep finds the catalog and the owners' sessions. -/
abbrev IdleEvictControlPort := ActorLogicalKey → ActorOwnerFence → String → SendOutcome

/-- A call of others on the registry. `disconnect` is the release in the handler of a closed
session, which goes on with `forget`. -/
inductive Access where
  | call (call : Call)
  | disconnect (key : ActorLogicalKey) (fence : ActorOwnerFence)

structure ActorLane where
  registry : ActorOwnershipRegistry := .new
  lease : LeaseScheduler := {}
  control : ControlBroker := {}
  idleEvictions : OrdMap String ActorLogicalKey := ∅
  written : List IdleEvictFrame := []
  closing : Finset ActorLogicalKey := ∅

/-- The calls of others in the gaps of a sweep. -/
structure SweepGaps where
  beforeOwner : ActorLogicalKey → List Access
  beforeRequest : ActorLogicalKey → List Access
  beforeExpire : List Access

namespace ActorLane

variable (options : LeaseSchedulerOptions) (lane : ActorLane)

def access (lane : ActorLane) : Access → ActorLane
  | .call call => { lane with registry := call.apply lane.registry }
  | .disconnect key fence =>
    match lane.registry.release key fence .disconnected with
    | .ok (_, registry) => { lane with registry := registry, closing := insert key lane.closing }
    | .error _ => lane

def wait (gap : List Access) : ActorLane := gap.foldl access lane

def forget (key : ActorLogicalKey) : ActorLane :=
  { lane with lease := lane.lease.forget key, closing := lane.closing.erase key }

/-- The frame is registered before it is encoded and written. Nothing here tells the control
broker of it. -/
def sendIdleEvict (port : IdleEvictControlPort) (key : ActorLogicalKey) (fence : ActorOwnerFence)
    (evictionRequestId : String) : ActorLane :=
  let idleEvictions := lane.idleEvictions.insert evictionRequestId key
  match port key fence evictionRequestId with
  | .unresolved => lane
  | .unwritten => { lane with idleEvictions := idleEvictions }
  | .written =>
    { lane with idleEvictions := idleEvictions, written :=
      lane.written ++ [⟨evictionRequestId, key, fence⟩] }

def setEviction (key : ActorLogicalKey) (state : EvictionState) : ActorLane :=
  { lane with lease := { lane.lease with evictions := lane.lease.evictions.insert key state } }

/-- An eviction that was requested before is tried again, a few times. -/
def retryEviction (port : IdleEvictControlPort) (key : ActorLogicalKey) (fence : ActorOwnerFence)
    (state : EvictionState) : ActorLane :=
  if state.exhausted then lane
  else if options.maxEvictionRetries ≤ state.retries then
    lane.setEviction key { state with exhausted := true }
  else
    (lane.sendIdleEvict port key fence state.evictionRequestId).setEviction key
      { state with retries := state.retries + 1 }

/-- A new eviction. What the registry answers is ignored. -/
def requestEviction (port : IdleEvictControlPort) (key : ActorLogicalKey) (fence : ActorOwnerFence)
    (gap : List Access) : ActorLane :=
  let seq := lane.lease.evictionSeq + 1
  let evictionRequestId := "evict:" ++ toString seq
  let lane := { lane with lease := { lane.lease with evictionSeq := seq } }.wait gap
  let lane :=
    { lane with registry := (Call.requestEviction key evictionRequestId).apply lane.registry }
  (lane.sendIdleEvict port key fence evictionRequestId).setEviction key
    ⟨evictionRequestId, 0, false⟩

def sweepKey (now : Nat) (port : IdleEvictControlPort) (gaps : SweepGaps) (lane : ActorLane)
    (key : ActorLogicalKey) : ActorLane :=
  let lane := lane.wait (gaps.beforeOwner key)
  match lane.registry.currentOwner key with
  | none => lane
  | some fence =>
    if ¬lane.lease.Idle options now key then lane
    else
      match lane.lease.evictions.get? key with
      | some state => lane.retryEviction options port key fence state
      | none => lane.requestEviction port key fence (gaps.beforeRequest key)

/-- The keys that hold an owner fence. -/
def ownedKeys : List ActorLogicalKey :=
  (lane.registry.entries.entries.filter fun (_, entry) => entry.owner.isSome).map Prod.fst

/-- The leases that have run out. -/
def expireLeases (now : Nat) : ActorLane :=
  let (expired, registry) := lane.registry.expire now
  { lane with
    registry := registry
    lease := expired.foldl (fun lease owner => lease.forget owner.actorKey) lane.lease }

def sweep (now : Nat) (port : IdleEvictControlPort) (gaps : SweepGaps) : ActorLane :=
  ((lane.ownedKeys.foldl (sweepKey options now port gaps) lane).wait gaps.beforeExpire).expireLeases
    now

/-- `on_eviction_ack`: the exact eviction is acknowledged, and forgotten when the registry agrees.
-/
def onEvictionAck (key : ActorLogicalKey) (evictionRequestId : String) : Option ActorLane :=
  match lane.lease.evictions.get? key with
  | none => none
  | some state =>
    if state.evictionRequestId ≠ evictionRequestId then none
    else
      match lane.registry.acknowledgeEviction key evictionRequestId with
      | .ok (_, registry) => some { lane with registry := registry, lease := lane.lease.forget key }
      | .error _ => none

/-- The id of an eviction in the id of its control request. -/
def evictionOf (requestId : String) : Option String :=
  ("control:idle-evict-".toList.isPrefixOf? requestId.toList).map String.ofList

/-- `handle_owner_control_ack`, for all operations but the activation. -/
def handleOwnerControlAck (runtimeId requestId : String) (operation : ActorOwnerControlOperation)
    (connection : String) (accepted : Bool) : ActorLane :=
  let (outcome, control) := lane.control.onAck runtimeId requestId operation connection accepted
  let lane := { lane with control := control }
  if operation = .idleEvict ∧ outcome = .accepted ∧ accepted then
    match evictionOf requestId with
    | none => lane
    | some evictionRequestId =>
      let key := lane.idleEvictions.get? evictionRequestId
      let lane := { lane with idleEvictions := lane.idleEvictions.erase evictionRequestId }
      match key with
      | none => lane
      | some key => (lane.onEvictionAck key evictionRequestId).getD lane
  else lane

end ActorLane

/-! ## Events -/

inductive LaneEvent where
  | access (access : Access)
  | forget (key : ActorLogicalKey)
  | markLive (key : ActorLogicalKey) (now : Nat) (connection : String)
  | markActive (key : ActorLogicalKey) (now : Nat)
  | sweep (now : Nat) (port : IdleEvictControlPort) (gaps : SweepGaps)
  | evictionAck (key : ActorLogicalKey) (evictionRequestId : String)
  | ownerControlAck (runtimeId requestId : String) (operation : ActorOwnerControlOperation)
      (connection : String) (accepted : Bool)
  | expireControls (now : Nat)
  | ownerDisconnect (runtimeId connection : String)

namespace ActorLane

def apply (options : LeaseSchedulerOptions) (lane : ActorLane) : LaneEvent → ActorLane
  | .access access => lane.access access
  | .forget key => lane.forget key
  | .markLive key now connection => { lane with lease := lane.lease.markLive key now connection }
  | .markActive key now => { lane with lease := lane.lease.markActive key now }
  | .sweep now port gaps => lane.sweep options now port gaps
  | .evictionAck key evictionRequestId => (lane.onEvictionAck key evictionRequestId).getD lane
  | .ownerControlAck runtimeId requestId operation connection accepted =>
    lane.handleOwnerControlAck runtimeId requestId operation connection accepted
  | .expireControls now => { lane with control := lane.control.expireDeadlines now }
  | .ownerDisconnect runtimeId connection =>
    { lane with control := lane.control.onOwnerDisconnect runtimeId connection }

/-- One call of a component of the lane. -/
def Step (options : LeaseSchedulerOptions) (lane : ActorLane) (event : LaneEvent)
    (next : ActorLane) : Prop :=
  lane.apply options event = next

end ActorLane

end Skiff.Actor
