import Mathlib.Data.Finset.Basic
import Skiff.Actor.Ownership

/-!
# The activation broker

`ActorActivationRequestBroker` deduplicates get-or-create calls by actor key: the first
caller reserves the key in the ownership registry and sends `activateInitial`, later
callers of the same lineage join its claim, and one of acknowledgement, deadline, failed
send or shutdown ends the claim and answers all of its waiters.

A broker call holds the broker's lock, but it takes the registry's lock anew for every
registry operation. Other users of the registry may therefore run between two of them;
the calls that do are arguments of the model, one list for each gap. `answered` records
every write to the table of outcomes in order.
-/

namespace Skiff.Actor

open ActorOwnershipRegistry

/-! ## Requests and answers -/

inductive ActorLineage where
  | ordinary
  | test (capability : String)
deriving DecidableEq

def ActorLineage.fromTestCase : Option String → ActorLineage
  | some capability => .test capability
  | none => .ordinary

structure ActorMethodDeadlineFrameHeader where
  timeoutMs : Nat
  expiresAt : String

structure ActorRef where
  key : ActorLogicalKey
  epoch : Nat
deriving DecidableEq

structure ActorActivationBrokerOptions where
  activationDeadlineMs : Nat := 30000
  leaseTtlMs : Nat := 30000
  maxClaims : Nat := 4096
  maxTombstones : Nat := 1024

structure ActivateInitialControlRequest where
  requestId : String
  actorKey : ActorLogicalKey
  facts : CommitFenceFacts
  ownerRuntimeId : String
  ownerConnection : String
  routeAuthority : ActorOwnerRouteAuthority
  bootstrapBytes : List UInt8
  deadline : ActorMethodDeadlineFrameHeader
  testCaseCapability : Option String
  testCaseParentRequestId : Option String

structure ActorGetOrCreateRequest where
  rpcId : String
  actorKey : ActorLogicalKey
  actorAbiIdentity : ActorAbiIdentity
  actorImplementationIdentity : ActorImplementationIdentity
  declarationOwner : ActorDeclarationOwnerFrameHeader
  bootstrapBytes : List UInt8
  ownerRuntimeId : String
  ownerConnection : String
  routeAuthority : ActorOwnerRouteAuthority
  deadline : Option ActorMethodDeadlineFrameHeader
  testCaseCapability : Option String
  testCaseParentRequestId : Option String
  now : Nat

namespace ActorGetOrCreateRequest

variable (request : ActorGetOrCreateRequest)

def lineage : ActorLineage := .fromTestCase request.testCaseCapability

/-- The facts of the fence that this request asks for. -/
def fenceFacts (ownerLeaseId : String) : CommitFenceFacts where
  actorAbiIdentity := request.actorAbiIdentity
  actorImplementationIdentity := request.actorImplementationIdentity
  declarationOwner := request.declarationOwner
  ownerLeaseId := ownerLeaseId

end ActorGetOrCreateRequest

inductive GetOrCreateOutcome where
  | resolved (actorRef : ActorRef)
  | joined
  | startedActivation (requestId : String)
  | lineageConflict
  | saturated
  | failed (code : String)
deriving DecidableEq

inductive ActivationAckOutcome where
  | committed (epoch : Nat) (waiters : List String)
  | aborted (waiters : List String)
  | commitRejected (waiters : List String)
  | lateAck
  | wrongCorrelation

structure ActivationTimeoutOutcome where
  waiters : List String

inductive ActivationWaiterOutcome where
  | resolved (epoch : Nat)
  | failed (code : String)
deriving DecidableEq

def ownershipFailureCode : OwnershipError → String
  | .claimConflict _ => "ActorCreateConflict"
  | .epochMismatch _ => "IncarnationReplaced"
  | .notPresent => "NotPresent"
  | .reservationInFlight => "ActorCreateConflict"
  | .noReservation | .fenceMismatch | .leaseExpired | .evictionMismatch | .fenceFactsMismatch =>
    "ActorCreateConflict"

/-! ## Other users of the registry -/

/-- The calls that come from outside the broker: no reservation and no claim is theirs. -/
def Call.outside : Call → Bool
  | .renew .. | .release .. | .expire _ | .requestEviction .. | .acknowledgeEviction ..
  | .advanceIncarnation _ => true
  | .ensurePresent .. | .reserve .. | .commit .. | .abort _ => false

abbrev OutsideCall := { call : Call // call.outside }

/-- The outside calls that run in one gap. -/
abbrev Gap := List OutsideCall

def Gap.apply (gap : Gap) (registry : ActorOwnershipRegistry) : ActorOwnershipRegistry :=
  gap.foldl (fun registry call => call.val.apply registry) registry

/-! ## The broker -/

structure ActivationClaim where
  token : ActorClaimToken
  facts : CommitFenceFacts
  lineage : ActorLineage
  ownerConnection : String
  waiters : List String
  deadlineAt : Nat

/-- The broker with its registry and lease mint. -/
structure ActivationBroker where
  claims : OrdMap ActorLogicalKey ActivationClaim
  byRequestId : OrdMap String ActorLogicalKey
  tombstones : Finset String
  outcomes : OrdMap String ActivationWaiterOutcome
  answered : List (String × ActivationWaiterOutcome)
  registry : ActorOwnershipRegistry
  nextLease : Nat

namespace ActivationBroker

variable (options : ActorActivationBrokerOptions) (broker : ActivationBroker)

def new : ActivationBroker where
  claims := ∅
  byRequestId := ∅
  tombstones := ∅
  outcomes := ∅
  answered := []
  registry := .new
  nextLease := 0

/-- Outside calls run before the next operation on the registry. -/
def wait (gap : Gap) : ActivationBroker := { broker with registry := gap.apply broker.registry }

/-- `outcomes.insert`. -/
def answer (rpcId : String) (outcome : ActivationWaiterOutcome) : ActivationBroker :=
  { broker with outcomes := broker.outcomes.insert rpcId outcome
                answered := broker.answered ++ [(rpcId, outcome)] }

def answerAll (waiters : List String) (outcome : ActivationWaiterOutcome) : ActivationBroker :=
  waiters.foldl (fun broker waiter => broker.answer waiter outcome) broker

/-- The registry after an abort, whose answer the broker ignores. -/
def abort (token : ActorClaimToken) : ActivationBroker :=
  { broker with registry := (Call.abort token).apply broker.registry }

/-- `LeaseIdMint::mint`. -/
def mintLease : String × ActivationBroker :=
  ("owner-lease-" ++ toString (broker.nextLease + 1),
    { broker with nextLease := broker.nextLease + 1 })

/-- Where the outside calls run during `getOrCreate`. -/
structure AdmissionGaps where
  beforeOwner : Gap
  beforeEntry : Gap
  beforeEnsure : Gap
  beforeReserve : Gap
  beforeAbort : Gap

def FenceMatches (fence : ActorOwnerFence) (request : ActorGetOrCreateRequest) : Prop :=
  fence.buildId = request.routeAuthority.buildId ∧
    fence.actorAbiIdentity = request.actorAbiIdentity ∧
    fence.actorImplementationIdentity = request.actorImplementationIdentity ∧
    fence.declarationOwner = request.declarationOwner

instance (fence : ActorOwnerFence) (request : ActorGetOrCreateRequest) :
    Decidable (FenceMatches fence request) :=
  inferInstanceAs (Decidable (_ ∧ _ ∧ _ ∧ _))

def EntryMatches (entry : ActorEntry) (request : ActorGetOrCreateRequest) : Prop :=
  entry.actorAbiIdentity = request.actorAbiIdentity ∧
    entry.actorImplementationIdentity = request.actorImplementationIdentity ∧
    entry.declarationOwner = request.declarationOwner

instance (entry : ActorEntry) (request : ActorGetOrCreateRequest) :
    Decidable (EntryMatches entry request) :=
  inferInstanceAs (Decidable (_ ∧ _ ∧ _))

/-- The caller is answered at once. -/
def reject (rpcId : String) (code : String) : GetOrCreateOutcome × ActivationBroker :=
  (.failed code, broker.answer rpcId (.failed code))

/-- The claim leaves both tables and its request id is remembered. -/
def retire (key : ActorLogicalKey) (requestId : String) : ActivationBroker :=
  { broker with claims := broker.claims.erase key
                byRequestId := broker.byRequestId.erase requestId
                tombstones := insert requestId broker.tombstones }

def newClaim (request : ActorGetOrCreateRequest) (token : ActorClaimToken)
    (ownerLeaseId : String) : ActivationClaim where
  token := token
  facts := request.fenceFacts ownerLeaseId
  lineage := request.lineage
  ownerConnection := request.ownerConnection
  waiters := [request.rpcId]
  deadlineAt := saturatingAdd request.now options.activationDeadlineMs

def controlRequest (request : ActorGetOrCreateRequest) (requestId ownerLeaseId : String) :
    ActivateInitialControlRequest where
  requestId := requestId
  actorKey := request.actorKey
  facts := request.fenceFacts ownerLeaseId
  ownerRuntimeId := request.ownerRuntimeId
  ownerConnection := request.ownerConnection
  routeAuthority := request.routeAuthority
  bootstrapBytes := request.bootstrapBytes
  deadline := request.deadline.getD ⟨options.activationDeadlineMs, "activation-deadline"⟩
  testCaseCapability := request.testCaseCapability
  testCaseParentRequestId := request.testCaseParentRequestId

/-- The first caller of a reserved key: install the claim and send `activateInitial`. -/
def startActivation (request : ActorGetOrCreateRequest) (token : ActorClaimToken)
    (control : ActivateInitialControlRequest → Except String Unit) (beforeAbort : Gap) :
    GetOrCreateOutcome × ActivationBroker :=
  let requestId := token.claimId.asStr
  let (ownerLeaseId, broker) := broker.mintLease
  let broker :=
    { broker with
      claims := broker.claims.insert request.actorKey (newClaim options request token ownerLeaseId)
      byRequestId := broker.byRequestId.insert requestId request.actorKey }
  match control (controlRequest options request requestId ownerLeaseId) with
  | .ok _ => (.startedActivation requestId, broker)
  | .error _ =>
    -- the claim was inserted above, so its only waiter is the caller
    let broker := ((broker.retire request.actorKey requestId).wait beforeAbort).abort token
    (.failed "AckRejected", broker.answerAll [request.rpcId] (.failed "AckRejected"))

/-- Make the key present and reserve it for the caller. -/
def reserveKey (request : ActorGetOrCreateRequest)
    (control : ActivateInitialControlRequest → Except String Unit)
    (beforeReserve beforeAbort : Gap) : GetOrCreateOutcome × ActivationBroker :=
  let (facts, registry) := broker.registry.ensurePresent request.actorKey
    request.actorAbiIdentity request.actorImplementationIdentity request.declarationOwner
    request.bootstrapBytes
  let broker := { broker with registry := registry }.wait beforeReserve
  match broker.registry.reserve request.actorKey facts.epoch request.ownerRuntimeId
      request.routeAuthority request.now with
  | .error error => broker.reject request.rpcId (ownershipFailureCode error)
  | .ok (token, registry) =>
    { broker with registry := registry }.startActivation options request token control beforeAbort

/-- No claim is live for the key: resolve its owner or reserve it. -/
def admitClaim (request : ActorGetOrCreateRequest)
    (control : ActivateInitialControlRequest → Except String Unit) (gaps : AdmissionGaps) :
    GetOrCreateOutcome × ActivationBroker :=
  let broker := broker.wait gaps.beforeOwner
  match broker.registry.currentOwner request.actorKey with
  | some fence =>
    if ¬ FenceMatches fence request then broker.reject request.rpcId "ActorVersionRejected"
    else
      (.resolved ⟨request.actorKey, fence.epoch⟩,
        broker.answer request.rpcId (.resolved fence.epoch))
  | none =>
    let broker := broker.wait gaps.beforeEntry
    if ∀ entry ∈ broker.registry.entries.get? request.actorKey, EntryMatches entry request then
      (broker.wait gaps.beforeEnsure).reserveKey options request control gaps.beforeReserve
        gaps.beforeAbort
    else broker.reject request.rpcId "ActorVersionRejected"

def getOrCreate (request : ActorGetOrCreateRequest)
    (control : ActivateInitialControlRequest → Except String Unit) (gaps : AdmissionGaps) :
    GetOrCreateOutcome × ActivationBroker :=
  if options.maxClaims ≤ broker.claims.size then (.saturated, broker)
  else
    match broker.claims.get? request.actorKey with
    | some claim =>
      if claim.lineage ≠ request.lineage then
        (.lineageConflict, broker.answer request.rpcId (.failed "ActorCreateLineageConflict"))
      else
        (.joined,
          { broker with
            claims := broker.claims.insert request.actorKey
              { claim with waiters := claim.waiters ++ [request.rpcId] } })
    | none => broker.admitClaim options request control gaps

def onActivationAck (requestId runtimeId connection : String) (accepted : Bool) (now : Nat)
    (gap : Gap) : ActivationAckOutcome × ActivationBroker :=
  match broker.byRequestId.get? requestId with
  | none => (if requestId ∈ broker.tombstones then .lateAck else .wrongCorrelation, broker)
  | some key =>
    match broker.claims.get? key with
    | none => (.wrongCorrelation, broker)
    | some claim =>
      if claim.token.ownerRuntimeId ≠ runtimeId ∨ claim.ownerConnection ≠ connection then
        (.wrongCorrelation, broker)
      else
        let broker := (broker.retire key requestId).wait gap
        if accepted then
          match broker.registry.commit claim.token claim.facts now options.leaseTtlMs with
          | .ok (fence, registry) =>
            (.committed fence.epoch claim.waiters,
              { broker with registry := registry }.answerAll claim.waiters (.resolved fence.epoch))
          | .error _ =>
            (.commitRejected claim.waiters,
              broker.answerAll claim.waiters (.failed "CommitRejected"))
        else
          (.aborted claim.waiters,
            (broker.abort claim.token).answerAll claim.waiters (.failed "AckRejected"))

def onActivationTimeout (requestId : String) (gap : Gap) :
    Option ActivationTimeoutOutcome × ActivationBroker :=
  match broker.byRequestId.get? requestId with
  | none => (none, broker)
  | some key =>
    match broker.claims.get? key with
    | none => (none, broker)
    | some claim =>
      let broker := ((broker.retire key requestId).wait gap).abort claim.token
      (some ⟨claim.waiters⟩, broker.answerAll claim.waiters (.failed "ActivationTimeout"))

/-- The request ids whose claim has passed its deadline. -/
def dueRequests (now : Nat) : List String :=
  broker.byRequestId.entries.filterMap fun (requestId, key) =>
    match broker.claims.get? key with
    | some claim => if claim.deadlineAt ≤ now then some requestId else none
    | none => none

/-- The due claims time out one after another, each under its own lock; `gaps` answers for
the outside calls before each abort. -/
def expireDeadlines (now : Nat) (gaps : String → Gap) :
    List ActivationTimeoutOutcome × ActivationBroker :=
  (broker.dueRequests now).foldl (fun (outcomes, broker) requestId =>
    let (outcome, broker) := broker.onActivationTimeout requestId (gaps requestId)
    (outcomes ++ outcome.toList, broker)) ([], broker)

/-- `shutdown` ends one claim after another; it keeps no tombstones. -/
def shutdownClaim (key : ActorLogicalKey) (gap : Gap) :
    Option ActivationTimeoutOutcome × ActivationBroker :=
  match broker.claims.get? key with
  | none => (none, broker)
  | some claim =>
    let broker :=
      { broker with claims := broker.claims.erase key
                    byRequestId := broker.byRequestId.erase claim.token.claimId.asStr }
    (some ⟨claim.waiters⟩,
      ((broker.wait gap).abort claim.token).answerAll claim.waiters (.failed "RouterShutdown"))

def shutdown (gaps : ActorLogicalKey → Gap) : List ActivationTimeoutOutcome × ActivationBroker :=
  let (outcomes, broker) := broker.claims.keys.foldl (fun (outcomes, broker) key =>
    let (outcome, broker) := broker.shutdownClaim key (gaps key)
    (outcomes ++ outcome.toList, broker)) ([], broker)
  (outcomes, { broker with tombstones := ∅ })

end ActivationBroker

/-! ## Events -/

/-- One call of the broker, with the answers of the control port and the outside calls that
run during it, or one outside call of its own. -/
inductive BrokerEvent where
  | getOrCreate (request : ActorGetOrCreateRequest)
      (control : ActivateInitialControlRequest → Except String Unit)
      (gaps : ActivationBroker.AdmissionGaps)
  | onActivationAck (requestId runtimeId connection : String) (accepted : Bool) (now : Nat)
      (gap : Gap)
  | onActivationTimeout (requestId : String) (gap : Gap)
  | expireDeadlines (now : Nat) (gaps : String → Gap)
  | shutdown (gaps : ActorLogicalKey → Gap)
  | outside (call : OutsideCall)

def BrokerEvent.apply (options : ActorActivationBrokerOptions) (broker : ActivationBroker) :
    BrokerEvent → ActivationBroker
  | getOrCreate request control gaps => (broker.getOrCreate options request control gaps).2
  | onActivationAck requestId runtimeId connection accepted now gap =>
    (broker.onActivationAck options requestId runtimeId connection accepted now gap).2
  | onActivationTimeout requestId gap => (broker.onActivationTimeout requestId gap).2
  | expireDeadlines now gaps => (broker.expireDeadlines now gaps).2
  | shutdown gaps => (broker.shutdown gaps).2
  | outside call => broker.wait [call]

namespace ActivationBroker

def Step (options : ActorActivationBrokerOptions) (broker : ActivationBroker)
    (event : BrokerEvent) (next : ActivationBroker) : Prop :=
  event.apply options broker = next

end ActivationBroker

end Skiff.Actor
