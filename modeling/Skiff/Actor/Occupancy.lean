import Mathlib.Data.Finset.Card
import Skiff.Actor.ActivationClaims
import Skiff.Actor.Invocation
import Skiff.Actor.Lease
import Skiff.Data.Indexed

/-!
# The occupancy of the actor brokers

The activation broker, the owner-control broker and the invocation relay refuse a request when
as many are live as they may hold. How many ids of ended requests they remember is not limited:
`max_tombstones` is an option that none of them asks for, and only a shutdown forgets an id. So the
ids stay within it for as long as no more requests than that have ended since the last shutdown.
-/

namespace Skiff.Actor

open ControlBroker OrdMap List ActorClaimId

/-- The size of a broker: how many requests are live, and the ids it remembers. -/
structure Occupancy where
  live : Nat
  remembered : Finset String

namespace Occupancy

variable {σ ε : Type} {occupancy : σ → Occupancy} {a b c : Occupancy} {ids : Finset String}
    {max capacity : Nat}

/-- Live requests may have retired, and of the remembered ids only the given ones are new. -/
structure Retires (ids : Finset String) (before after : Occupancy) : Prop where
  live : after.live ≤ before.live
  remembered : after.remembered ⊆ before.remembered ∪ ids

theorem Retires.refl (a : Occupancy) : Retires ids a a := ⟨le_rfl, Finset.subset_union_left⟩

theorem Retires.trans (hab : Retires ids a b) (hbc : Retires ids b c) : Retires ids a c := by
  refine ⟨hbc.live.trans hab.live, hbc.remembered.trans ?_⟩
  exact Finset.union_subset hab.remembered Finset.subset_union_right

theorem Retires.of_mem {id : String} (h : Retires {id} a b) (hmem : id ∈ ids) : Retires ids a b :=
  ⟨h.live, h.remembered.trans
    (Finset.union_subset_union_right (Finset.singleton_subset_iff.mpr hmem))⟩

/-- Rounds that end one request each, one after another. -/
theorem retires_foldl (occupancy : σ → Occupancy) {round : σ → String → σ}
    (hround : ∀ s id, Retires {id} (occupancy s) (occupancy (round s id))) {xs : List String}
    (hxs : ∀ id ∈ xs, id ∈ ids) (s : σ) :
    Retires ids (occupancy s) (occupancy (xs.foldl round s)) := by
  induction xs generalizing s with
  | nil => exact .refl _
  | cons x rest ih =>
    have hfirst : Retires ids _ _ := (hround s x).of_mem (hxs x (.head _))
    exact hfirst.trans (ih (fun y hy => hxs y (.tail _ hy)) (round s x))

/-- What a step may do: it admits no more than there may be, and remembers the ids that it ends. -/
structure Keeps (max : Nat) (ids : Finset String) (before after : Occupancy) : Prop where
  live : before.live ≤ max → after.live ≤ max
  remembered : after.remembered ⊆ before.remembered ∪ ids

theorem Retires.keeps (h : Retires ids a b) : Keeps max ids a b := ⟨h.live.trans, h.remembered⟩

section Runs

variable (occupancy : σ → Occupancy) (apply : σ → ε → σ) (retired : σ → ε → Finset String)
variable (isShutdown : ε → Bool)

/-- The ids that a run has ended since its last shutdown. -/
def retiredIds (start : σ) (events : List ε) : Finset String :=
  (events.foldl (fun (s, ids) event =>
    (apply s event, if isShutdown event then ∅ else ids ∪ retired s event)) (start, ∅)).2

variable {occupancy apply retired isShutdown}
variable (hstep : ∀ s e, Keeps max (retired s e) (occupancy s) (occupancy (apply s e)))
variable (hshutdown : ∀ s e, isShutdown e = true → (occupancy (apply s e)).remembered = ∅)
include hstep hshutdown

/-- What is remembered is among the ids that have ended. -/
theorem remembered_subset {s : σ} {ids : Finset String} (h : (occupancy s).remembered ⊆ ids)
    (events : List ε) : (occupancy (events.foldl apply s)).remembered ⊆
      (events.foldl (fun (s, ids) event =>
        (apply s event, if isShutdown event then ∅ else ids ∪ retired s event)) (s, ids)).2 := by
  induction events generalizing s ids with
  | nil => exact h
  | cons event rest ih =>
    refine ih ?_
    split
    case isTrue hends => exact (hshutdown s event hends).subset
    case isFalse =>
      exact (hstep s event).remembered.trans (Finset.union_subset_union_left h)

variable (occupancy) in
/-- The live requests are bounded in every run, and the remembered ids by those that ended. -/
theorem bounded_of_keeps {start : σ} (hlive : (occupancy start).live = 0)
    (hremembered : (occupancy start).remembered = ∅) (events : List ε) (t : σ)
    (hrun : Run (fun s e t => apply s e = t) start events t) : (occupancy t).live ≤ max ∧
      ((retiredIds apply retired isShutdown start events).card ≤ capacity →
        (occupancy t).remembered.card ≤ capacity) := by
  constructor
  · refine Run.invariant (P := fun s => (occupancy s).live ≤ max) ?_ hrun (by omega)
    rintro s e t hs rfl
    exact (hstep s e).live hs
  obtain rfl := Run.functional (by rintro _ _ _ _ rfl rfl; rfl)
    (Run.of_foldl apply start events) hrun
  exact (Finset.card_le_card (remembered_subset hstep hshutdown hremembered.subset events)).trans

end Runs

end Occupancy

open Occupancy

/-- The ids of the entries with a property. -/
def idsWhere {α : Type} (table : OrdMap String α) (select : String → α → Bool) : Finset String :=
  ((table.entries.filter fun (id, value) => select id value).map Prod.fst).toFinset

theorem mem_idsWhere {α : Type} {table : OrdMap String α} {select : String → α → Bool}
    {id : String} :
    id ∈ idsWhere table select ↔ ∃ value, table.get? id = some value ∧ select id value = true := by
  simp only [idsWhere, mem_toFinset, mem_map, mem_filter, Prod.exists, exists_and_right,
    exists_eq_right, get?_eq_some_iff]

/-! ## Owner control -/

/-- One call of the owner-control broker. -/
inductive ControlEvent where
  | sendControl (request : OwnerControlRequest)
  | onAck (runtimeId requestId : String) (operation : ActorOwnerControlOperation)
      (connection : String)
      (accepted : Bool)
  | timeout (requestId : String)
  | expireDeadlines (now : Nat)
  | onOwnerDisconnect (runtimeId connection : String)
  | shutdown

namespace ControlBroker

variable {options : ControlBrokerOptions} {broker next : ControlBroker} {event : ControlEvent}
    {id : String}

def apply (options : ControlBrokerOptions) (broker : ControlBroker) : ControlEvent → ControlBroker
  | .sendControl request => (broker.sendControl options request).toOption.getD broker
  | .onAck runtimeId requestId operation connection accepted =>
    (broker.onAck runtimeId requestId operation connection accepted).2
  | .timeout requestId => broker.timeout requestId
  | .expireDeadlines now => broker.expireDeadlines now
  | .onOwnerDisconnect runtimeId connection => broker.onOwnerDisconnect runtimeId connection
  | .shutdown => broker.shutdown

def Step (options : ControlBrokerOptions) (broker : ControlBroker) (event : ControlEvent)
    (next : ControlBroker) : Prop :=
  broker.apply options event = next

def occupancy (broker : ControlBroker) : Occupancy := ⟨broker.pending.size, broker.tombstones⟩

/-- The pending request ends with the call, and its id is kept. -/
def Selects : ControlEvent → String → PendingControl → Bool
  | .onAck runtimeId requestId operation connection _ => fun id pending =>
    id = requestId ∧ Answers pending runtimeId operation connection
  | .timeout requestId => fun id _ => id = requestId
  | .expireDeadlines now => fun _ pending => pending.deadlineAt ≤ now
  | .onOwnerDisconnect runtimeId connection => fun _ pending =>
    pending.runtimeId = runtimeId && pending.connection = connection
  | .sendControl _ | .shutdown => fun _ _ => false

def retired (broker : ControlBroker) (event : ControlEvent) : Finset String :=
  idsWhere broker.pending (Selects event)

/-- The ids of the requests that a run has ended since its last shutdown. -/
def retiredIds (options : ControlBrokerOptions) : List ControlEvent → Finset String :=
  Occupancy.retiredIds (apply options) retired (· matches .shutdown) {}

theorem retires_finish (broker : ControlBroker) (id : String) (accepted : Bool) :
    Retires {id} broker.occupancy (broker.finish id accepted).occupancy := by
  refine ⟨size_erase_le _ _, ?_⟩
  show insert id broker.tombstones ⊆ broker.tombstones ∪ {id}
  rw [Finset.union_comm]
  rfl

theorem retires_timeout (broker : ControlBroker) (id : String) :
    Retires {id} broker.occupancy (broker.timeout id).occupancy := by
  unfold timeout
  split
  · exact retires_finish broker id false
  · exact .refl _

theorem keeps_apply (h : Step options broker event next) :
    Keeps options.maxPending (broker.retired event) broker.occupancy next.occupancy := by
  obtain rfl := h
  cases event with
  | sendControl request =>
    show Keeps _ _ _ ((broker.sendControl options request).toOption.getD broker).occupancy
    unfold sendControl
    split
    · exact (Retires.refl _).keeps
    split
    · exact (Retires.refl _).keeps
    case isFalse hfree hroom =>
      have hnone : broker.pending.get? request.requestId = none := by
        cases hget : broker.pending.get? request.requestId with
        | none => rfl
        | some pending => exact absurd (contains_iff.mpr ⟨pending, hget⟩) hfree
      refine ⟨fun _ => ?_, Finset.subset_union_left⟩
      show (broker.pending.insert request.requestId
        request.toPendingControl).size ≤ options.maxPending
      rw [size_insert hnone]
      omega
  | onAck runtimeId requestId operation connection accepted =>
    show Keeps _ _ _ (broker.onAck runtimeId requestId operation connection accepted).2.occupancy
    unfold onAck
    split
    · exact (Retires.refl _).keeps
    case h_2 pending hget =>
      split
      case isTrue hanswers =>
        refine ((retires_finish broker requestId accepted).of_mem ?_).keeps
        exact mem_idsWhere.mpr ⟨pending, hget, by simpa [Selects] using hanswers⟩
      case isFalse => exact (Retires.refl _).keeps
  | timeout requestId =>
    show Keeps _ _ _ (broker.timeout requestId).occupancy
    unfold timeout
    split
    case isTrue hcontains =>
      obtain ⟨pending, hget⟩ := contains_iff.mp hcontains
      refine ((retires_finish broker requestId false).of_mem ?_).keeps
      exact mem_idsWhere.mpr ⟨pending, hget, by simp [Selects]⟩
    case isFalse => exact (Retires.refl _).keeps
  | expireDeadlines now =>
    exact (retires_foldl occupancy retires_timeout (fun _ h => mem_toFinset.mpr h) broker).keeps
  | onOwnerDisconnect runtimeId connection =>
    exact (retires_foldl occupancy retires_timeout (fun _ h => mem_toFinset.mpr h) broker).keeps
  | shutdown =>
    have hends : Retires broker.pending.keys.toFinset _ _ :=
      retires_foldl occupancy retires_timeout (fun _ h => mem_toFinset.mpr h) broker
    exact ⟨hends.live.trans, Finset.empty_subset _⟩

end ControlBroker

/-! ## Invocations -/

namespace InvocationRelay

variable {options : ActorInvocationRelayOptions} {relay next : InvocationRelay} {event : RelayEvent}
    {id : String}

def occupancy (relay : InvocationRelay) : Occupancy := ⟨relay.pending.size, relay.tombstones⟩

/-- The pending invocation ends with the call, and its id is kept. -/
def Selects : RelayEvent → String → PendingInvocation → Bool
  | .onOwnerSettle invocationId fence connection _ => fun id pending =>
    id = invocationId ∧ pending.ownerFence = fence ∧ pending.ownerConnection = connection
  | .onCallerCancel callerConnection invocationId correlation => fun id pending =>
    id = invocationId ∧ pending.callerConnection = callerConnection ∧
      pending.correlation = correlation
  | .onOwnerDisconnect runtimeId connection => fun _ pending =>
    pending.ownerFence.ownerRuntimeId = runtimeId && pending.ownerConnection = connection
  | .onCallerDisconnect callerConnection => fun _ pending =>
      pending.callerConnection = callerConnection
  | .onDeadline invocationId => fun id _ => id = invocationId
  | .expireDeadlines now => fun _ pending => pending.deadlineAt.any (· ≤ now)
  | .invoke _ | .shutdown => fun _ _ => false

def retired (relay : InvocationRelay) (event : RelayEvent) : Finset String :=
  idsWhere relay.pending (Selects event)

/-- The ids of the invocations that a run has ended since its last shutdown. -/
def retiredIds (options : ActorInvocationRelayOptions) : List RelayEvent → Finset String :=
  Occupancy.retiredIds (applyEvent options) retired (· matches .shutdown) .new

theorem retires_finish (relay : InvocationRelay) (id : String) (outcome : InvocationOutcome) :
    Retires {id} relay.occupancy (relay.finish id outcome).occupancy := by
  refine ⟨size_erase_le _ _, ?_⟩
  show insert id relay.tombstones ⊆ relay.tombstones ∪ {id}
  rw [Finset.union_comm]
  rfl

theorem retires_terminalLocked {keys : List String} {ids : Finset String}
    (hkeys : ∀ id ∈ keys, id ∈ ids) (relay : InvocationRelay) (kind : InvocationTerminalKind) :
    Retires ids relay.occupancy (relay.terminalLocked keys kind).2.occupancy := by
  refine retires_foldl (fun state : List InvocationTerminal × InvocationRelay => state.2.occupancy)
    ?_ hkeys ([], relay)
  rintro ⟨terminals, relay⟩ id
  dsimp only
  split
  · exact retires_finish relay id _
  · exact .refl _

theorem keeps_apply (h : Step options relay event next) :
    Keeps options.maxConcurrency (relay.retired event) relay.occupancy next.occupancy := by
  obtain rfl := h
  cases event with
  | invoke input =>
    by_cases hadmits : relay.Admits options input
    · have hnone : relay.pending.get? input.invocationId = none := by
        cases hget : relay.pending.get? input.invocationId with
        | none => rfl
        | some pending => exact absurd ⟨pending, hget⟩ hadmits.1
      rw [applyEvent, invoke_of_admits hadmits]
      refine ⟨fun _ => ?_, Finset.subset_union_left⟩
      show (relay.pending.insert input.invocationId
        (newPending input)).size ≤ options.maxConcurrency
      rw [size_insert hnone]
      exact hadmits.2
    rw [applyEvent]
    cases hinvoke : relay.invoke options input with
    | error => exact (Retires.refl _).keeps
    | ok => exact absurd (admits_of_invoke hinvoke) hadmits
  | onOwnerSettle invocationId fence connection kind =>
    rw [applyEvent]
    cases hsettle : relay.onOwnerSettle invocationId fence connection kind with
    | error => exact (Retires.refl _).keeps
    | ok result =>
      obtain ⟨pending, hget, hfence, hconnection, hnext⟩ := onOwnerSettle_eq_ok hsettle
      rw [Except.map, hnext]
      refine ((retires_finish relay invocationId _).of_mem ?_).keeps
      exact mem_idsWhere.mpr ⟨pending, hget, by simp [Selects, hfence, hconnection]⟩
  | onCallerCancel callerConnection invocationId correlation =>
    rw [applyEvent, onCallerCancel]
    split
    · exact (Retires.refl _).keeps
    case h_2 pending hget =>
      split
      · exact (Retires.refl _).keeps
      case isFalse hsame =>
        rw [not_or, not_not, not_not] at hsame
        refine ((retires_finish relay invocationId _).of_mem ?_).keeps
        exact mem_idsWhere.mpr ⟨pending, hget, by simp [Selects, hsame]⟩
  | onOwnerDisconnect | onCallerDisconnect =>
    exact (retires_terminalLocked (fun _ h => mem_toFinset.mpr h) relay _).keeps
  | onDeadline invocationId =>
    show Keeps _ _ _ (relay.onDeadline invocationId).2.occupancy
    unfold onDeadline
    split
    · exact (Retires.refl _).keeps
    case h_2 pending hget =>
      refine ((retires_finish relay invocationId _).of_mem ?_).keeps
      exact mem_idsWhere.mpr ⟨pending, hget, by simp [Selects]⟩
  | expireDeadlines now =>
    refine (retires_foldl (fun state : List (OwnerCancel × InvocationTerminal) × InvocationRelay =>
      state.2.occupancy) ?_ (fun _ h => mem_toFinset.mpr h) ([], relay)).keeps
    rintro ⟨outcomes, relay⟩ id
    dsimp only [onDeadline]
    split
    · exact .refl _
    · exact retires_finish relay id _
  | shutdown =>
    have hends : Retires relay.pending.keys.toFinset _ _ :=
      retires_terminalLocked (fun _ h => mem_toFinset.mpr h) relay .routerShutdown
    exact ⟨hends.live.trans, Finset.empty_subset _⟩

end InvocationRelay

/-! ## Activations -/

namespace ActivationBroker

variable {options : ActorActivationBrokerOptions} {broker next : ActivationBroker}
    {event : BrokerEvent}
variable {request : ActorGetOrCreateRequest}
    {control : ActivateInitialControlRequest → Except String Unit}
variable {ids : Finset String}

def occupancy (broker : ActivationBroker) : Occupancy := ⟨broker.claims.size, broker.tombstones⟩

/-- The ids of the claims that end with the call and are kept: for a new claim, if the control port
refuses its request. -/
def retired (options : ActorActivationBrokerOptions) (broker : ActivationBroker) :
    BrokerEvent → Finset String
  | .getOrCreate request control _ =>
    let requestId := (mint broker.registry.nextClaimSeq).asStr
    match broker.claims.get? request.actorKey,
      control (controlRequest options request requestId broker.mintLease.1) with
    | none, .error _ => {requestId}
    | _, _ => ∅
  | .onActivationAck requestId runtimeId connection _ _ _ =>
      idsWhere broker.byRequestId fun id key =>
    id = requestId ∧ (broker.claims.get? key).any fun claim =>
      claim.token.ownerRuntimeId = runtimeId ∧ claim.ownerConnection = connection
  | .onActivationTimeout requestId _ => idsWhere broker.byRequestId fun id _ => id = requestId
  | .expireDeadlines now _ => (broker.dueRequests now).toFinset
  | .shutdown _ | .outside _ => ∅

/-- The ids of the claims that a run has ended since its last shutdown. -/
def retiredIds (options : ActorActivationBrokerOptions) : List BrokerEvent → Finset String :=
  Occupancy.retiredIds (BrokerEvent.apply options) (retired options) (· matches .shutdown _) .new

/-- The occupancy is read off two tables. -/
theorem keeps_of_eq {max : Nat} (hclaims : next.claims = broker.claims)
    (htombstones : next.tombstones = broker.tombstones) :
    Keeps max ids broker.occupancy next.occupancy := by
  unfold occupancy
  rw [hclaims, htombstones]
  exact (Retires.refl _).keeps

theorem occupancy_answerAll (broker : ActivationBroker) (waiters : List String)
    (outcome : ActivationWaiterOutcome) :
    (broker.answerAll waiters outcome).occupancy = broker.occupancy := by
  rw [answerAll_eq]
  rfl

theorem retires_retire (broker : ActivationBroker) (key : ActorLogicalKey) (id : String) :
    Retires {id} broker.occupancy (broker.retire key id).occupancy := by
  refine ⟨size_erase_le _ _, ?_⟩
  show insert id broker.tombstones ⊆ broker.tombstones ∪ {id}
  rw [Finset.union_comm]
  rfl

theorem keeps_startActivation {token : ActorClaimToken} {beforeAbort : Gap}
    (hclaims : next.claims = broker.claims) (htombstones : next.tombstones = broker.tombstones)
    (hroom : broker.claims.size < options.maxClaims)
    (hnone : broker.claims.get? request.actorKey = none)
    (hids : ∀ error, control (controlRequest options request token.claimId.asStr next.mintLease.1) =
      .error error →
      token.claimId.asStr ∈ ids) :
    Keeps options.maxClaims ids broker.occupancy
      (next.startActivation options request token control beforeAbort).2.occupancy := by
  have hinsert : ∀ claim, (next.claims.insert request.actorKey claim).size ≤ options.maxClaims := by
    intro claim
    rw [hclaims]
    exact (size_insert hnone claim).trans_le hroom
  unfold startActivation
  dsimp only
  split
  case h_1 =>
    refine ⟨fun _ => hinsert _, ?_⟩
    show next.tombstones ⊆ broker.tombstones ∪ ids
    exact htombstones.subset.trans Finset.subset_union_left
  case h_2 error herror =>
    rw [occupancy_answerAll]
    refine ⟨fun _ => (size_erase_le _ _).trans (hinsert _), ?_⟩
    show insert token.claimId.asStr next.tombstones ⊆ broker.tombstones ∪ ids
    rw [htombstones]
    exact Finset.insert_subset
      (Finset.mem_union_right _ (hids error herror)) Finset.subset_union_left

theorem nextClaimSeq_ensurePresent (registry : ActorOwnershipRegistry) (key : ActorLogicalKey)
    (actorAbiIdentity : ActorAbiIdentity)
    (actorImplementationIdentity : ActorImplementationIdentity)
    (declarationOwner : ActorDeclarationOwnerFrameHeader) (createInput : List UInt8) :
    (registry.ensurePresent key actorAbiIdentity actorImplementationIdentity declarationOwner
      createInput).2.nextClaimSeq = registry.nextClaimSeq := by
  unfold ActorOwnershipRegistry.ensurePresent
  split <;> rfl

theorem keeps_admitClaim {gaps : AdmissionGaps} (hroom : broker.claims.size < options.maxClaims)
    (hnone : broker.claims.get? request.actorKey = none)
    (hids : ∀ error, control (controlRequest options request
      (mint broker.registry.nextClaimSeq).asStr broker.mintLease.1) = .error error →
      (mint broker.registry.nextClaimSeq).asStr ∈ ids) :
    Keeps options.maxClaims ids broker.occupancy
      (broker.admitClaim options request control gaps).2.occupancy := by
  unfold admitClaim
  dsimp only
  split
  · split <;> exact keeps_of_eq rfl rfl
  split
  · unfold reserveKey
    dsimp only
    split
    · exact keeps_of_eq rfl rfl
    case h_2 token registry hreserve =>
      have hseq : token.claimId = .mint broker.registry.nextClaimSeq := by
        rw [(Call.replaces_reserve hreserve).2]
        refine congrArg mint ((Gap.drifts _ _).seq.trans ?_)
        rw [nextClaimSeq_ensurePresent]
        exact (Gap.drifts _ _).seq.trans ((Gap.drifts _ _).seq.trans (Gap.drifts _ _).seq)
      rw [← hseq] at hids
      exact keeps_startActivation rfl rfl hroom hnone hids
  · exact keeps_of_eq rfl rfl

theorem size_shutdownClaim (broker : ActivationBroker) (key : ActorLogicalKey) (gap : Gap) :
    (broker.shutdownClaim key gap).2.claims.size ≤ broker.claims.size := by
  unfold shutdownClaim
  split
  · exact le_rfl
  dsimp only
  rw [answerAll_claims]
  exact size_erase_le _ _

theorem retires_onActivationTimeout (broker : ActivationBroker) (id : String) (gap : Gap) :
    Retires {id} broker.occupancy (broker.onActivationTimeout id gap).2.occupancy := by
  unfold onActivationTimeout
  split
  · exact .refl _
  split
  · exact .refl _
  dsimp only
  rw [occupancy_answerAll]
  exact retires_retire broker _ id

theorem keeps_apply (h : Step options broker event next) :
    Keeps options.maxClaims (broker.retired options event) broker.occupancy next.occupancy := by
  obtain rfl := h
  cases event with
  | getOrCreate request control gaps =>
    show Keeps _ _ _ (broker.getOrCreate options request control gaps).2.occupancy
    unfold getOrCreate
    split
    · exact (Retires.refl _).keeps
    case isFalse hroom =>
      split
      case h_1 claim hclaim =>
        split
        · exact (Retires.refl _).keeps
        refine ⟨fun h => ?_, Finset.subset_union_left⟩
        exact (size_insert_of_get? hclaim _).trans_le h
      case h_2 hnone =>
        refine keeps_admitClaim (not_le.mp hroom) hnone fun error herror => ?_
        simp [retired, hnone, herror]
  | onActivationAck requestId runtimeId connection accepted now gap =>
    show Keeps _ _ _
      (broker.onActivationAck options requestId runtimeId connection accepted now gap).2.occupancy
    unfold onActivationAck
    split
    · exact (Retires.refl _).keeps
    case h_2 key hkey =>
      split
      · exact (Retires.refl _).keeps
      case h_2 claim hclaim =>
        split
        · exact (Retires.refl _).keeps
        case isFalse hsame =>
          rw [not_or, not_not, not_not] at hsame
          have hmem : requestId ∈ broker.retired options
              (.onActivationAck requestId runtimeId connection accepted now gap) :=
            mem_idsWhere.mpr ⟨key, hkey, by simp [hclaim, hsame]⟩
          have hretired : Keeps options.maxClaims _ _ _ :=
            ((retires_retire broker key requestId).of_mem hmem).keeps
          dsimp only
          split
          · split
            all_goals
              rw [occupancy_answerAll]
              exact hretired
          rw [occupancy_answerAll]
          exact hretired
  | onActivationTimeout requestId gap =>
    show Keeps _ _ _ (broker.onActivationTimeout requestId gap).2.occupancy
    cases hkey : broker.byRequestId.get? requestId with
    | none =>
      unfold onActivationTimeout
      rw [hkey]
      exact (Retires.refl _).keeps
    | some key =>
      refine ((retires_onActivationTimeout broker requestId gap).of_mem ?_).keeps
      exact mem_idsWhere.mpr ⟨key, hkey, by simp⟩
  | expireDeadlines now gaps =>
    refine (retires_foldl (fun state : List ActivationTimeoutOutcome × ActivationBroker =>
      state.2.occupancy)
      ?_ (fun _ h => mem_toFinset.mpr h) ([], broker)).keeps
    rintro ⟨outcomes, broker⟩ id
    exact retires_onActivationTimeout broker id (gaps id)
  | shutdown gaps =>
    refine ⟨fun h => ?_, Finset.empty_subset _⟩
    refine foldlRecOn broker.claims.keys _
      (motive := fun state : List ActivationTimeoutOutcome × ActivationBroker =>
        state.2.claims.size ≤ options.maxClaims) h fun state hstate key _ => ?_
    exact (size_shutdownClaim state.2 key (gaps key)).trans hstate
  | outside call => exact (Retires.refl _).keeps

end ActivationBroker

/-! ## All of them -/

/-- No broker ever holds more live requests than it may. It remembers no more ids than its option
says after every run that has ended no more requests than that since its last shutdown. -/
theorem brokers_bounded (activation : ActorActivationBrokerOptions) (control : ControlBrokerOptions)
    (invocation : ActorInvocationRelayOptions) :
    (∀ events broker, Run (ActivationBroker.Step activation) .new events broker →
      broker.claims.size ≤ activation.maxClaims ∧
        ((ActivationBroker.retiredIds activation events).card ≤ activation.maxTombstones →
          broker.tombstones.card ≤ activation.maxTombstones)) ∧
    (∀ events broker, Run (Step control) {} events broker →
      broker.pending.size ≤ control.maxPending ∧
        ((retiredIds control events).card ≤ control.maxTombstones →
          broker.tombstones.card ≤ control.maxTombstones)) ∧
    ∀ events relay, Run (InvocationRelay.Step invocation) .new events relay →
      relay.pending.size ≤ invocation.maxConcurrency ∧
        ((InvocationRelay.retiredIds invocation events).card ≤ invocation.maxTombstones →
          relay.tombstones.card ≤ invocation.maxTombstones) := by
  refine ⟨?_, ?_, ?_⟩
  · refine bounded_of_keeps ActivationBroker.occupancy
      (fun _ _ => ActivationBroker.keeps_apply rfl) ?_ rfl rfl
    rintro broker (_ | _ | _ | _ | gaps | _) hends <;> first | rfl | cases hends
  · refine bounded_of_keeps occupancy (fun _ _ => keeps_apply rfl) ?_ rfl rfl
    rintro broker (_ | _ | _ | _ | _ | _) hends <;> first | rfl | cases hends
  · refine bounded_of_keeps InvocationRelay.occupancy
      (fun _ _ => InvocationRelay.keeps_apply rfl) ?_ rfl rfl
    rintro relay (_ | _ | _ | _ | _ | _ | _ | _) hends <;> first | rfl | cases hends

namespace Remembered

def request (id : String) : OwnerControlRequest where
  requestId := id
  operation := .discard
  runtimeId := "runtime"
  connection := "runtime#1"
  fence :=
    ⟨1, "runtime", "lease", "build", 30000, ⟨"abi"⟩, ⟨"implementation"⟩,
    ⟨.service, .loadedFileIndex 0, "Actor"⟩⟩
  routeAuthority := ⟨"build"⟩
  deadlineAt := 10000

/-- Two requests, each acknowledged by the owner. -/
def events : List ControlEvent :=
  [.sendControl (request "a"), .onAck "runtime" "a" .discard "runtime#1" true,
    .sendControl (request "b"), .onAck "runtime" "b" .discard "runtime#1" true]

def broker (events : List ControlEvent) : ControlBroker :=
  events.foldl (apply { maxTombstones := 1 }) {}

end Remembered

open Remembered in
/-- With a shutdown in between one id has ended since, and one is remembered. -/
theorem brokers_bounded_acknowledged :
    (broker (events.take 2 ++ .shutdown :: events.drop 2)).tombstones.card ≤ 1 ∧
      (retiredIds { maxTombstones := 1 } (events.take 2 ++ .shutdown :: events.drop 2)) = {"b"} :=
  ⟨((brokers_bounded {} { maxTombstones := 1 } {}).2.1 _ _ (Run.of_foldl _ _ _)).2 (by decide),
    by decide⟩

open Remembered in
/-- One id may be remembered, and two are. -/
theorem two_remembered_of_one :
    Run (Step { maxTombstones := 1 }) {} events (broker events) ∧
    (broker events).tombstones.card = 2 :=
  ⟨Run.of_foldl _ _ _, by decide⟩

end Skiff.Actor
