import Skiff.Actor.ActivationWaiters
import Skiff.Session.Directory

/-!
# The actor frame sink

`ActorFrameSink` (`router/src/supervisor/actor_sink.rs`) answers `actor.getOrCreate`
requests. A request that joins or starts an activation is suspended: its rpc id is put in
the sink's waiter map, and the handler of the acknowledgement or of the deadline, on
another thread, takes it out again and writes the response.

`handle_get_or_create` calls the broker first and takes the lock of the waiter map
afterwards, so the two are steps of their own here; so are the broker call of the handler
of an acknowledgement or a deadline and its loop over the waiters, which runs under the
lock of the waiter map. The task lane calls the broker too and keeps no waiter record. A sweep of
the
deadlines is a row of timeouts, each followed by its loop, and the broker's `shutdown` is
never called here. Frames that end the session instead of getting a response are left out.
-/

namespace Skiff.Actor

open Session (RuntimeSessionEpoch)
open ActivationBroker List OrdMap Run

inductive GetOrCreateFrame where
  | response (actorRef : ActorRef)
  | error (code message : String)

/-- Why a request is refused before the broker is called. -/
inductive OwnerRefusal where
  | ownerServiceUnresolved
  | ownerUnavailable

def OwnerRefusal.frame : OwnerRefusal → GetOrCreateFrame
  | ownerServiceUnresolved =>
    .error "ActorOwnerServiceUnresolved" "actor declaration owner service cannot be resolved"
  | ownerUnavailable => .error "OwnerUnavailable" "no Runtime is available to own the Actor"

/-- What a request gets at once; `none` for one that is suspended. -/
def GetOrCreateOutcome.frame : GetOrCreateOutcome → Option GetOrCreateFrame
  | .resolved actorRef => some (.response actorRef)
  | .joined | .startedActivation _ => none
  | .lineageConflict =>
    some (.error "ActorCreateLineageConflict"
      "different actor test lineage while a claim is in flight")
  | .saturated => some (.error "ActorActivationSaturated" "actor activation claim budget reached")
  | .failed code => some (.error code "actor get-or-create failed closed")

/-- The waiters of a claim that has ended, on their way to the sink. -/
inductive Resolution where
  | ack (waiters : List String)
  | timeout (waiters : List String)
deriving DecidableEq

def Resolution.waiters : Resolution → List String
  | ack waiters | timeout waiters => waiters

def ActivationAckOutcome.resolution : ActivationAckOutcome → Option Resolution
  | .committed _ waiters | .aborted waiters | .commitRejected waiters => some (.ack waiters)
  | .lateAck | .wrongCorrelation => none

/-- A response as it is handed to the writer of its session. -/
structure Response where
  session : RuntimeSessionEpoch
  rpcId : String
  frame : GetOrCreateFrame

/-- A record of the waiter map. -/
structure Waiter where
  rpcId : String
  session : RuntimeSessionEpoch
  actorKey : ActorLogicalKey
deriving DecidableEq

/-- The sink with its broker, the responses it has handed to the session writer, the requests
between their broker call and their insert, and the handlers between their broker call and
their loop. `suspended` and `direct` list the requests by what the broker made of them. -/
structure ActorFrameSink where
  broker : ActivationBroker := .new
  waiters : OrdMap String Waiter := ∅
  handed : List Response := []
  inserting : List Waiter := []
  resolving : List Resolution := []
  suspended : List String := []
  direct : List String := []

inductive SinkEvent where
  | request (session : RuntimeSessionEpoch) (request : ActorGetOrCreateRequest)
      (control : ActivateInitialControlRequest → Except String Unit)
      (gaps : AdmissionGaps)
  | refuse (session : RuntimeSessionEpoch) (rpcId : String) (refusal : OwnerRefusal)
  | task (request : ActorGetOrCreateRequest)
      (control : ActivateInitialControlRequest → Except String Unit)
      (gaps : AdmissionGaps)
  | insert (waiter : Waiter)
  | ack (requestId runtimeId connection : String) (accepted : Bool) (now : Nat) (gap : Gap)
  | timeout (requestId : String) (gap : Gap)
  | resolve (resolution : Resolution)
  | outside (call : OutsideCall)

/-- The rpc id that an event brings in. -/
def SinkEvent.rpcId? : SinkEvent → Option String
  | .request _ admitted _ _ | .task admitted _ _ => some admitted.rpcId
  | .refuse _ rpcId _ => some rpcId
  | .insert _ | .ack .. | .timeout .. | .resolve _ | .outside _ => none

namespace ActorFrameSink

variable (options : ActorActivationBrokerOptions) (sink : ActorFrameSink)

/-- The response goes to the writer. What the writer makes of it is dropped by the loops
(`let _ = self.writer.write(..)`) and ends the session of a request answered at once; the
sink is the same either way. -/
def write (session : RuntimeSessionEpoch) (rpcId : String) (frame : GetOrCreateFrame) :
    ActorFrameSink :=
  { sink with handed := sink.handed ++ [⟨session, rpcId, frame⟩] }

/-- `handle_get_or_create` up to the lock of the waiter map. -/
def handleGetOrCreate (session : RuntimeSessionEpoch) (request : ActorGetOrCreateRequest)
    (control : ActivateInitialControlRequest → Except String Unit)
    (gaps : AdmissionGaps) : ActorFrameSink :=
  let (outcome, broker) := sink.broker.getOrCreate options request control gaps
  match outcome.frame with
  | some frame =>
    { sink with broker := broker, direct := request.rpcId :: sink.direct }.write session
      request.rpcId frame
  | none =>
    { sink with
      broker := broker
      inserting := ⟨request.rpcId, session, request.actorKey⟩ :: sink.inserting
      suspended := request.rpcId :: sink.suspended }

/-- The frame for one waiter of an acknowledged claim, from the outcome the broker has. -/
def ackFrame (waiter : Waiter) : Option GetOrCreateFrame :=
  match sink.broker.outcomes.get? waiter.rpcId with
  | some (.resolved epoch) => some (.response ⟨waiter.actorKey, epoch⟩)
  | some (.failed code) => some (.error code "actor get-or-create failed closed")
  | none => none

def timeoutFrame : GetOrCreateFrame :=
  .error "ActivationTimeout" "actor activation deadline elapsed without owner ACK"

/-- One round of the loops of `resolve_activation_ack` and `resolve_activation_timeout`. A
waiter without a record is passed over. -/
def resolveWaiter (frame : Waiter → Option GetOrCreateFrame) (sink : ActorFrameSink)
    (rpcId : String) : ActorFrameSink :=
  match sink.waiters.get? rpcId with
  | none => sink
  | some waiter =>
    let sink := { sink with waiters := sink.waiters.erase rpcId }
    match frame waiter with
    | some frame => sink.write waiter.session rpcId frame
    | none => sink

def resolve (resolution : Resolution) : ActorFrameSink :=
  match resolution with
  | .ack waiters => waiters.foldl (resolveWaiter sink.ackFrame) sink
  | .timeout waiters => waiters.foldl (resolveWaiter fun _ => some timeoutFrame) sink

/-- Each event that is possible, and what it does. -/
def apply (sink : ActorFrameSink) : SinkEvent → Option ActorFrameSink
  | .request session request control gaps =>
    some (sink.handleGetOrCreate options session request control gaps)
  | .refuse session rpcId refusal =>
    some ({ sink with direct := rpcId :: sink.direct }.write session rpcId refusal.frame)
  | .task request control gaps =>
    some { sink with broker := (sink.broker.getOrCreate options request control gaps).2 }
  | .insert waiter =>
    if waiter ∈ sink.inserting then
      some { sink with
        inserting := sink.inserting.erase waiter
        waiters := sink.waiters.insert waiter.rpcId waiter }
    else none
  | .ack requestId runtimeId connection accepted now gap =>
    let (outcome, broker) :=
      sink.broker.onActivationAck options requestId runtimeId connection accepted now gap
    some { sink with
      broker := broker, resolving := outcome.resolution.toList ++ sink.resolving }
  | .timeout requestId gap =>
    let (outcome, broker) := sink.broker.onActivationTimeout requestId gap
    some { sink with
      broker := broker
      resolving := (outcome.map fun outcome => .timeout outcome.waiters).toList ++ sink.resolving }
  | .resolve resolution =>
    if resolution ∈ sink.resolving then
      some { sink.resolve resolution with resolving := sink.resolving.erase resolution }
    else none
  | .outside call => some { sink with broker := sink.broker.wait [call] }

def Step (sink : ActorFrameSink) (event : SinkEvent) (next : ActorFrameSink) : Prop :=
  sink.apply options event = some next

/-! ## What is asked of the sink -/

/-- How many responses were handed to the writer. -/
def responses (rpcId : String) : Nat := (sink.handed.map Response.rpcId).count rpcId

/-- How many of them were written: the writer refuses a frame when the session is gone, its
queue is full or the frame is over budget. -/
def written (accepts : Response → Bool) (rpcId : String) : Nat :=
  ((sink.handed.filter accepts).map Response.rpcId).count rpcId

/-- No live claim and no handler has this waiter. -/
def Ended (rpcId : String) : Prop :=
  sink.broker.waiting rpcId = 0 ∧ ∀ resolution ∈ sink.resolving, rpcId ∉ resolution.waiters

/-- A request that was answered at once has one response; a suspended one has one as soon as
its claim has ended, and then no waiter record, now or later. -/
def AnsweredOnce (accepts : Response → Bool) : Prop :=
  (∀ rpcId ∈ sink.direct, sink.written accepts rpcId = 1) ∧
    ∀ rpcId ∈ sink.suspended, sink.Ended rpcId → sink.written accepts rpcId = 1 ∧
      sink.waiters.get? rpcId = none ∧ rpcId ∉ sink.inserting.map Waiter.rpcId

/-- The loop over the waiters of an ended claim finds each of them inserted. -/
def FindsInserted : SinkEvent → Prop
  | .resolve resolution => ∀ rpcId ∈ resolution.waiters, rpcId ∉ sink.inserting.map Waiter.rpcId
  | .request .. | .refuse .. | .task .. | .insert _ | .ack .. | .timeout .. | .outside _ => True

/-- A step whose loop finds its waiters inserted and whose responses the writer takes. -/
def CleanStep (accepts : Response → Bool) (sink : ActorFrameSink) (event : SinkEvent)
    (next : ActorFrameSink) : Prop :=
  sink.Step options event next ∧ sink.FindsInserted event ∧
    ∀ response ∈ next.handed, accepts response

end ActorFrameSink

/-! ## What the sink needs of the broker -/

variable {result : GetOrCreateOutcome × ActivationBroker}

namespace ActivationBroker

variable {options : ActorActivationBrokerOptions} {broker next : ActivationBroker}
variable {request : ActorGetOrCreateRequest} {gap : Gap} {requestId rpcId : String}
variable {control : ActivateInitialControlRequest → Except String Unit} {gaps : AdmissionGaps}

/-- Whoever was answered has an outcome. -/
def Recorded (broker : ActivationBroker) : Prop :=
  ∀ rpcId ∈ broker.answered.map Prod.fst, (broker.outcomes.get? rpcId).isSome

theorem Recorded.answer (h : broker.Recorded) (rpcId : String)
    (outcome : ActivationWaiterOutcome) : (broker.answer rpcId outcome).Recorded := by
  intro other hmem
  show ((broker.outcomes.insert rpcId outcome).get? other).isSome
  rw [get?_insert]
  split
  case isTrue => rfl
  case isFalse hne =>
    have hbefore : other ∈ (broker.answered ++ [(rpcId, outcome)]).map Prod.fst := hmem
    rw [map_append, mem_append] at hbefore
    obtain hbefore | hlast := hbefore
    · exact h other hbefore
    · exact absurd (mem_singleton.mp hlast) hne

theorem Recorded.answerAll (h : broker.Recorded) (waiters : List String)
    (outcome : ActivationWaiterOutcome) : (broker.answerAll waiters outcome).Recorded := by
  unfold ActivationBroker.answerAll
  induction waiters generalizing broker with
  | nil => exact h
  | cons waiter rest ih => exact ih (h.answer waiter outcome)

/-- A suspended caller was not answered, and the answers have their outcomes. -/
def Suspends (broker : ActivationBroker) (result : GetOrCreateOutcome × ActivationBroker) : Prop :=
  (result.1.frame = none → result.2.answered = broker.answered) ∧
    (broker.Recorded → result.2.Recorded)

theorem suspends_of_frame {frame : GetOrCreateFrame} (hframe : result.1.frame = some frame)
    (hrecorded : broker.Recorded → result.2.Recorded) : Suspends broker result := by
  refine ⟨?_, hrecorded⟩
  intro hnone
  rw [hframe] at hnone
  cases hnone

variable {middle : ActivationBroker}

theorem suspends_reject (hanswered : middle.answered = broker.answered)
    (houtcomes : middle.outcomes = broker.outcomes) (code : String) :
    Suspends broker (middle.reject rpcId code) := by
  refine suspends_of_frame rfl fun h => Recorded.answer ?_ _ _
  unfold Recorded
  rw [hanswered, houtcomes]
  exact h

theorem suspends_reserveKey {beforeReserve beforeAbort : Gap}
    (hanswered : middle.answered = broker.answered)
    (houtcomes : middle.outcomes = broker.outcomes) :
    Suspends broker (middle.reserveKey options request control beforeReserve beforeAbort) := by
  have hrecorded : broker.Recorded → middle.Recorded := by
    unfold Recorded
    rw [hanswered, houtcomes]
    exact id
  unfold reserveKey
  dsimp only
  split
  case h_1 => exact suspends_reject hanswered houtcomes _
  case h_2 =>
    unfold startActivation
    dsimp only
    split
    case h_1 => exact ⟨fun _ => hanswered, fun h => hrecorded h⟩
    case h_2 =>
      refine suspends_of_frame rfl fun h => Recorded.answerAll ?_ _ _
      exact hrecorded h

theorem getOrCreate_suspends :
    Suspends broker (broker.getOrCreate options request control gaps) := by
  unfold getOrCreate
  split
  case isTrue => exact suspends_of_frame rfl id
  case isFalse =>
    split
    case h_1 claim hget =>
      split
      case isTrue => exact suspends_of_frame rfl fun h => Recorded.answer h _ _
      case isFalse => exact ⟨fun _ => rfl, id⟩
    case h_2 =>
      unfold admitClaim
      dsimp only
      split
      case h_1 fence howner =>
        split
        case isTrue => exact suspends_reject rfl rfl _
        case isFalse => exact suspends_of_frame rfl fun h => Recorded.answer h _ _
      case h_2 =>
        split
        case isTrue => exact suspends_reserveKey rfl rfl
        case isFalse => exact suspends_reject rfl rfl _

/-- A claim ends, and its waiters are handed out with one answer. -/
structure Ends (broker next : ActivationBroker) (waiters : List String) : Prop where
  kept : next.Kept
  recorded : broker.Recorded → next.Recorded
  waiting : ∀ rpcId, broker.waiting rpcId = next.waiting rpcId + waiters.count rpcId
  answered : ∀ rpcId, rpcId ∈ next.answered.map Prod.fst ↔
    rpcId ∈ broker.answered.map Prod.fst ∨ rpcId ∈ waiters

theorem ends_of_answerAll {key : ActorLogicalKey} {claim : ActivationClaim}
    {retired : ActivationBroker} {outcome : ActivationWaiterOutcome}
    (hget : broker.claims.get? key = some claim)
    (hclaims : retired.claims = broker.claims.erase key)
    (hanswered : retired.answered = broker.answered)
    (houtcomes : retired.outcomes = broker.outcomes)
    (hkept : (retired.answerAll claim.waiters outcome).Kept) :
    Ends broker (retired.answerAll claim.waiters outcome) claim.waiters where
  kept := hkept
  recorded := by
    intro h
    refine Recorded.answerAll ?_ _ _
    unfold Recorded
    rw [hanswered, houtcomes]
    exact h
  waiting := by
    intro rpcId
    have herase := broker.claims.weight_erase (fun _ claim => claim.waiters.count rpcId) key
    rw [weightAt_of_get? hget] at herase
    unfold waiting
    rw [answerAll_claims, hclaims]
    omega
  answered := by
    intro rpcId
    rw [answerAll_answered, hanswered, map_append, mem_append, map_map]
    simp

variable (requestId gap) in
theorem onActivationTimeout_ends (h : broker.Kept) :
    ((broker.onActivationTimeout requestId gap).1 = none ∧
        (broker.onActivationTimeout requestId gap).2 = broker) ∨
      ∃ outcome, (broker.onActivationTimeout requestId gap).1 = some outcome ∧
        Ends broker (broker.onActivationTimeout requestId gap).2 outcome.waiters := by
  have hkept := (onActivationTimeout_spec h :
    Quiet broker (broker.onActivationTimeout requestId gap).2).kept
  unfold onActivationTimeout at hkept ⊢
  split
  case h_1 => exact .inl ⟨rfl, rfl⟩
  case h_2 key hkey =>
    rw [hkey] at hkept
    dsimp only at hkept
    split
    case h_1 => exact .inl ⟨rfl, rfl⟩
    case h_2 claim hget =>
      rw [hget] at hkept
      exact .inr ⟨_, rfl, ends_of_answerAll hget rfl rfl rfl hkept⟩

variable (options requestId gap) in
theorem onActivationAck_ends (runtimeId connection : String) (accepted : Bool) (now : Nat)
    (h : broker.Kept) :
    let result := broker.onActivationAck options requestId runtimeId connection accepted now gap
    (result.1.resolution = none ∧ result.2 = broker) ∨
      ∃ resolution, result.1.resolution = some resolution ∧
        Ends broker result.2 resolution.waiters := by
  have hkept : (broker.onActivationAck options requestId runtimeId connection accepted now
    gap).2.Kept := (onActivationAck_spec h).1.kept
  dsimp only
  unfold onActivationAck at hkept ⊢
  split
  case h_1 =>
    refine .inl ⟨?_, rfl⟩
    dsimp only
    split <;> rfl
  case h_2 key hkey =>
    rw [hkey] at hkept
    dsimp only at hkept
    split
    case h_1 => exact .inl ⟨rfl, rfl⟩
    case h_2 claim hget =>
      rw [hget] at hkept
      dsimp only at hkept
      split
      case isTrue => exact .inl ⟨rfl, rfl⟩
      case isFalse hmatches =>
        rw [if_neg hmatches] at hkept
        dsimp only at hkept ⊢
        split
        case isTrue haccepted =>
          rw [if_pos haccepted] at hkept
          split
          case h_1 fence registry hcommit | h_2 error hcommit =>
            rw [hcommit] at hkept
            exact .inr ⟨_, rfl, ends_of_answerAll hget rfl rfl rfl hkept⟩
        case isFalse haccepted =>
          rw [if_neg haccepted] at hkept
          exact .inr ⟨_, rfl, ends_of_answerAll hget rfl rfl rfl hkept⟩

end ActivationBroker

/-! ## Where a request is -/

namespace ActorFrameSink

variable {options : ActorActivationBrokerOptions} {sink next : ActorFrameSink}
variable {event : SinkEvent} {events : List SinkEvent} {rpcId : String}
variable {accepts : Response → Bool}

/-- How often a waiter is on its way to the sink. -/
def handling (sink : ActorFrameSink) (rpcId : String) : Nat :=
  (sink.resolving.map fun resolution => resolution.waiters.count rpcId).sum

def insertions (sink : ActorFrameSink) (rpcId : String) : Nat :=
  (sink.inserting.map Waiter.rpcId).count rpcId

def records (sink : ActorFrameSink) (rpcId : String) : Nat :=
  if (sink.waiters.get? rpcId).isSome then 1 else 0

/-- The places of one request: in a live claim, with a handler, before its insert, in the
waiter map, and among the responses. -/
structure Place where
  waiting : Nat
  handling : Nat
  insertions : Nat
  records : Nat
  responses : Nat

def place (sink : ActorFrameSink) (rpcId : String) : Place where
  waiting := sink.broker.waiting rpcId
  handling := sink.handling rpcId
  insertions := sink.insertions rpcId
  records := sink.records rpcId
  responses := sink.responses rpcId

namespace Place

/-- A suspended request: first it waits and has a record to come or to stay, then it has its
response. -/
def Held (place : Place) : Prop :=
  place.waiting + place.handling + place.responses = 1 ∧
    place.insertions + place.records + place.responses = 1

/-- No record, now or later. -/
def Free (place : Place) : Prop := place.insertions = 0 ∧ place.records = 0

/-- A request that has not come yet. -/
def Unused (place : Place) : Prop := place.waiting = 0 ∧ place.handling = 0 ∧ place.responses = 0

end Place

theorem handling_eq_zero : sink.handling rpcId = 0 ↔
    ∀ resolution ∈ sink.resolving, rpcId ∉ resolution.waiters := by
  unfold handling
  rw [List.sum_eq_zero_iff_forall_eq_nat]
  constructor
  · intro h resolution hmem
    exact count_eq_zero.mp (h _ (mem_map_of_mem hmem))
  intro h n hn
  obtain ⟨resolution, hmem, rfl⟩ := mem_map.mp hn
  exact count_eq_zero.mpr (h resolution hmem)

theorem ended_iff : sink.Ended rpcId ↔
    (sink.place rpcId).waiting = 0 ∧ (sink.place rpcId).handling = 0 :=
  and_congr_right fun _ => handling_eq_zero.symm

theorem records_eq_zero : sink.records rpcId = 0 ↔ sink.waiters.get? rpcId = none := by
  unfold records
  cases hget : sink.waiters.get? rpcId with
  | none => simp
  | some waiter => simp

theorem insertions_eq_zero : sink.insertions rpcId = 0 ↔ rpcId ∉ sink.inserting.map Waiter.rpcId :=
  count_eq_zero

/-! ## One event -/

section Write

variable (session : RuntimeSessionEpoch) (frame : GetOrCreateFrame)

theorem responses_write (other : String) :
    (sink.write session rpcId frame).responses other =
      sink.responses other + if other = rpcId then 1 else 0 := by
  unfold responses write
  simp only [map_append, count_append, map_cons, map_nil]
  by_cases h : other = rpcId
  · simp [h]
  · simp [h, Ne.symm h]

end Write

/-- A loop over waiters: each that has a record loses it and gets one response. -/
structure Resolved (sink next : ActorFrameSink) (waiters : List String) : Prop where
  broker : next.broker = sink.broker
  inserting : next.inserting = sink.inserting
  resolving : next.resolving = sink.resolving
  suspended : next.suspended = sink.suspended
  direct : next.direct = sink.direct
  hit : ∀ rpcId ∈ waiters, next.records rpcId = 0 ∧
    next.responses rpcId = sink.responses rpcId + sink.records rpcId
  miss : ∀ rpcId, rpcId ∉ waiters → next.records rpcId = sink.records rpcId ∧
    next.responses rpcId = sink.responses rpcId

variable {frame : Waiter → Option GetOrCreateFrame}

theorem resolveWaiter_resolved
    (hframe : ∀ waiter, sink.waiters.get? rpcId = some waiter → (frame waiter).isSome) :
    Resolved sink (resolveWaiter frame sink rpcId) [rpcId] := by
  unfold resolveWaiter
  cases hget : sink.waiters.get? rpcId with
  | none =>
    refine ⟨rfl, rfl, rfl, rfl, rfl, ?_, fun _ _ => ⟨rfl, rfl⟩⟩
    intro other hmem
    obtain rfl := mem_singleton.mp hmem
    have hnone : sink.records other = 0 := records_eq_zero.mpr hget
    exact ⟨hnone, by rw [hnone, Nat.add_zero]⟩
  | some waiter =>
    obtain ⟨answer, hanswer⟩ := Option.isSome_iff_exists.mp (hframe waiter hget)
    dsimp only
    rw [hanswer]
    have hone : sink.records rpcId = 1 := by
      unfold records
      rw [hget]
      rfl
    refine ⟨rfl, rfl, rfl, rfl, rfl, ?_, ?_⟩
    · intro other hmem
      obtain rfl := mem_singleton.mp hmem
      refine ⟨records_eq_zero.mpr (get?_erase_self _ _), ?_⟩
      rw [responses_write, if_pos rfl, hone]
      rfl
    intro other hmem
    have hne : other ≠ rpcId := fun heq => hmem (mem_singleton.mpr heq)
    constructor
    · show (if ((sink.waiters.erase rpcId).get? other).isSome then 1 else 0) = _
      rw [get?_erase_of_ne _ hne]
      rfl
    rw [responses_write, if_neg hne]
    rfl

variable {waiters : List String}

theorem Resolved.cons {middle : ActorFrameSink}
    (h : Resolved sink middle [rpcId]) (h' : Resolved middle next waiters) :
    Resolved sink next (rpcId :: waiters) where
  broker := h'.broker.trans h.broker
  inserting := h'.inserting.trans h.inserting
  resolving := h'.resolving.trans h.resolving
  suspended := h'.suspended.trans h.suspended
  direct := h'.direct.trans h.direct
  hit := by
    intro other hmem
    by_cases hfirst : other = rpcId
    · subst hfirst
      obtain ⟨hnone, hresponses⟩ := h.hit other (mem_singleton_self _)
      by_cases hlater : other ∈ waiters
      · obtain ⟨hnone', hresponses'⟩ := h'.hit other hlater
        exact ⟨hnone', by omega⟩
      obtain ⟨hsame, hsame'⟩ := h'.miss other hlater
      exact ⟨hsame.trans hnone, hsame'.trans hresponses⟩
    have hlater := (mem_cons.mp hmem).resolve_left hfirst
    obtain ⟨hnone', hresponses'⟩ := h'.hit other hlater
    obtain ⟨hsame, hsame'⟩ := h.miss other fun hm => hfirst (mem_singleton.mp hm)
    exact ⟨hnone', by rw [hresponses', hsame, hsame']⟩
  miss := by
    intro other hmem
    rw [mem_cons, not_or] at hmem
    obtain ⟨hsame, hsame'⟩ := h.miss other fun hm => hmem.1 (mem_singleton.mp hm)
    obtain ⟨hlast, hlast'⟩ := h'.miss other hmem.2
    exact ⟨hlast.trans hsame, hlast'.trans hsame'⟩

variable {waiter : Waiter}

variable {other : String}

theorem resolveWaiter_get?
    (hget : (resolveWaiter frame sink rpcId).waiters.get? other = some waiter) :
    sink.waiters.get? other = some waiter := by
  revert hget
  unfold resolveWaiter
  cases hold : sink.waiters.get? rpcId with
  | none => exact id
  | some found =>
    dsimp only
    have herase : (sink.waiters.erase rpcId).get? other = some waiter →
        sink.waiters.get? other = some waiter := by
      rw [get?_erase]
      split
      case isTrue => exact fun h => by cases h
      case isFalse => exact id
    cases frame found with
    | none | some answer => exact herase

theorem foldl_resolved (hframe : ∀ waiter, waiter.rpcId ∈ waiters → (frame waiter).isSome)
    (hkeys : ∀ rpcId waiter, sink.waiters.get? rpcId = some waiter → waiter.rpcId = rpcId) :
    Resolved sink (waiters.foldl (resolveWaiter frame) sink) waiters := by
  induction waiters generalizing sink with
  | nil => exact ⟨rfl, rfl, rfl, rfl, rfl, fun _ h => (by cases h),
      fun _ _ => ⟨rfl, rfl⟩⟩
  | cons rpcId rest ih =>
    have hfirst : Resolved sink (resolveWaiter frame sink rpcId) [rpcId] := by
      refine resolveWaiter_resolved fun waiter hget => hframe waiter ?_
      rw [hkeys rpcId waiter hget]
      exact .head _
    refine hfirst.cons (ih (fun waiter hmem => hframe waiter (.tail _ hmem)) ?_)
    exact fun other waiter hget => hkeys other waiter (resolveWaiter_get? hget)

/-! ## Every run -/

/-- What the events so far and the sink have in common. -/
structure Ledger (events : List SinkEvent) (sink : ActorFrameSink) : Prop where
  kept : sink.broker.Kept
  recorded : sink.broker.Recorded
  keys : ∀ rpcId waiter, sink.waiters.get? rpcId = some waiter → waiter.rpcId = rpcId
  settled : ∀ resolution ∈ sink.resolving, ∀ rpcId ∈ resolution.waiters,
    rpcId ∈ sink.broker.answered.map Prod.fst
  unused : ∀ rpcId, rpcId ∉ events.filterMap SinkEvent.rpcId? →
    (sink.place rpcId).Unused ∧ rpcId ∉ sink.suspended ∧ rpcId ∉ sink.direct
  held : ∀ rpcId ∈ sink.suspended, (sink.place rpcId).Held
  free : ∀ rpcId, rpcId ∉ sink.suspended → (sink.place rpcId).Free
  once : ∀ rpcId ∈ sink.direct, rpcId ∉ sink.suspended ∧ sink.responses rpcId = 1
  silent : ∀ rpcId, rpcId ∉ sink.suspended → rpcId ∉ sink.direct → sink.responses rpcId = 0

theorem ledger_new : Ledger [] ({} : ActorFrameSink) where
  kept := Actor.Kept.new
  recorded := by simp [Recorded, new]
  keys := by simp
  settled := by simp
  unused := by
    intro rpcId _
    exact ⟨⟨rfl, rfl, rfl⟩, by simp, by simp⟩
  held := by simp
  free := by
    intro rpcId _
    exact ⟨rfl, rfl⟩
  once := by simp
  silent := by
    intro rpcId _ _
    rfl

/-- A suspended request whose claim has ended was handed to the writer once. -/
theorem Ledger.responses_of_ended (h : Ledger events sink) (hmem : rpcId ∈ sink.suspended)
    (hended : sink.Ended rpcId) : sink.responses rpcId = 1 ∧ (sink.place rpcId).Free := by
  obtain ⟨hwaiting, hhandling⟩ := ended_iff.mp hended
  obtain ⟨hfirst, hsecond⟩ := h.held rpcId hmem
  rw [hwaiting, hhandling] at hfirst
  have hone : (sink.place rpcId).responses = 1 := by omega
  exact ⟨hone, by omega, by omega⟩

theorem Ledger.answeredOnce (h : Ledger events sink)
    (htaken : ∀ response ∈ sink.handed, accepts response) : sink.AnsweredOnce accepts := by
  have hwritten : ∀ rpcId, sink.written accepts rpcId = sink.responses rpcId := by
    intro rpcId
    unfold written responses
    rw [filter_eq_self.mpr htaken]
  refine ⟨fun rpcId hmem => (hwritten rpcId).trans (h.once rpcId hmem).2, ?_⟩
  intro rpcId hmem hended
  obtain ⟨hone, hinsertions, hrecords⟩ := h.responses_of_ended hmem hended
  exact ⟨(hwritten rpcId).trans hone, records_eq_zero.mp hrecords,
    insertions_eq_zero.mp hinsertions⟩

theorem written_le (rpcId : String) : sink.written accepts rpcId ≤ sink.responses rpcId :=
  (filter_sublist.map Response.rpcId).count_le rpcId

/-- A response whose request has as many written as handed over was taken. -/
theorem accepts_of_written {response : Response} (hmem : response ∈ sink.handed)
    (hsame : sink.written accepts response.rpcId = sink.responses response.rpcId) :
    accepts response := by
  by_contra hrefused
  obtain ⟨before, after, hhanded⟩ := append_of_mem hmem
  have hbefore := (filter_sublist (p := accepts) (l := before).map Response.rpcId).count_le
    response.rpcId
  have hafter := (filter_sublist (p := accepts) (l := after).map Response.rpcId).count_le
    response.rpcId
  unfold written responses at hsame
  rw [hhanded, filter_append, filter_cons_of_neg hrefused] at hsame
  simp only [map_append, map_cons, count_append, count_cons_self] at hsame
  omega

/-- Where every request is answered once, the writer has taken all it was handed. -/
theorem Ledger.taken (h : Ledger events sink) (honce : sink.AnsweredOnce accepts) :
    ∀ response ∈ sink.handed, accepts response := by
  intro response hmem
  refine accepts_of_written hmem ?_
  have hhanded : 0 < sink.responses response.rpcId :=
    count_pos_iff.mpr (mem_map_of_mem hmem)
  by_cases hsuspended : response.rpcId ∈ sink.suspended
  · have hended : sink.Ended response.rpcId := by
      obtain ⟨hfirst, -⟩ := h.held _ hsuspended
      simp only [place] at hfirst
      exact ended_iff.mpr ⟨by simp only [place]; omega, by simp only [place]; omega⟩
    rw [(honce.2 _ hsuspended hended).1, (h.responses_of_ended hsuspended hended).1]
  by_cases hdirect : response.rpcId ∈ sink.direct
  · rw [honce.1 _ hdirect, (h.once _ hdirect).2]
  exact absurd (h.silent _ hsuspended hdirect) (Nat.ne_of_gt hhanded)

/-- An event that brings no request moves each one within its places. -/
structure Place.Keeps (place next : Place) : Prop where
  held : place.Held → next.Held
  free : place.Free → next.Free ∧ next.responses = place.responses
  unused : place.Unused → place.Free → next.Unused

theorem Place.Keeps.refl (place : Place) : place.Keeps place :=
  ⟨id, fun h => ⟨h, rfl⟩, fun h _ => h⟩

theorem Ledger.keep (h : Ledger events sink) (hnone : event.rpcId? = none)
    (hplace : ∀ rpcId, (sink.place rpcId).Keeps (next.place rpcId))
    (hkept : next.broker.Kept) (hrecorded : next.broker.Recorded)
    (hkeys : ∀ rpcId waiter, next.waiters.get? rpcId = some waiter → waiter.rpcId = rpcId)
    (hsettled : ∀ resolution ∈ next.resolving, ∀ rpcId ∈ resolution.waiters,
      rpcId ∈ next.broker.answered.map Prod.fst)
    (hsuspended : next.suspended = sink.suspended) (hdirect : next.direct = sink.direct) :
    Ledger (events ++ [event]) next where
  kept := hkept
  recorded := hrecorded
  keys := hkeys
  settled := hsettled
  unused := by
    intro rpcId hmem
    rw [filterMap_append, filterMap_cons_none hnone, filterMap_nil, append_nil] at hmem
    obtain ⟨hunused, hout, hout'⟩ := h.unused rpcId hmem
    rw [hsuspended, hdirect]
    exact ⟨(hplace rpcId).unused hunused (h.free rpcId hout), hout, hout'⟩
  held := by
    intro rpcId hmem
    rw [hsuspended] at hmem
    exact (hplace rpcId).held (h.held rpcId hmem)
  free := by
    intro rpcId hmem
    rw [hsuspended] at hmem
    exact ((hplace rpcId).free (h.free rpcId hmem)).1
  once := by
    intro rpcId hmem
    rw [hdirect] at hmem
    rw [hsuspended]
    obtain ⟨hout, hone⟩ := h.once rpcId hmem
    exact ⟨hout, ((hplace rpcId).free (h.free rpcId hout)).2.trans hone⟩
  silent := by
    intro rpcId hout hout'
    rw [hsuspended] at hout
    rw [hdirect] at hout'
    exact ((hplace rpcId).free (h.free rpcId hout)).2.trans (h.silent rpcId hout hout')

variable {resolution : Resolution} {broker : ActivationBroker}

/-- The claim of some waiters has ended; they are with a handler now. -/
theorem Ledger.ends (h : Ledger events sink) (hnone : event.rpcId? = none)
    (hends : Ends sink.broker broker resolution.waiters) :
    Ledger (events ++ [event])
      { sink with broker := broker, resolving := resolution :: sink.resolving } := by
  refine h.keep hnone ?_ hends.kept (hends.recorded h.recorded) h.keys ?_ rfl rfl
  · intro rpcId
    have hwaiting := hends.waiting rpcId
    have hhandling : ({ sink with
        broker := broker, resolving := resolution :: sink.resolving } : ActorFrameSink).handling
          rpcId = resolution.waiters.count rpcId + sink.handling rpcId := by
      simp [handling]
    constructor
    · rintro ⟨hfirst, hsecond⟩
      refine ⟨?_, hsecond⟩
      simp only [place, hhandling] at hfirst ⊢
      show broker.waiting rpcId + _ + sink.responses rpcId = 1
      omega
    · intro hfree
      exact ⟨hfree, rfl⟩
    rintro ⟨hzero, hzero', hresponses⟩ -
    refine ⟨?_, ?_, hresponses⟩
    · show broker.waiting rpcId = 0
      have hzero : sink.broker.waiting rpcId = 0 := hzero
      omega
    show ActorFrameSink.handling _ rpcId = 0
    have hzero : sink.broker.waiting rpcId = 0 := hzero
    have hzero' : sink.handling rpcId = 0 := hzero'
    rw [hhandling]
    omega
  intro other hmem rpcId hwaits
  refine (hends.answered rpcId).mpr ?_
  obtain rfl | hmem := mem_cons.mp hmem
  · exact .inr hwaits
  · exact .inl (h.settled other hmem rpcId hwaits)

theorem Ledger.insert (h : Ledger events sink) (hmem : waiter ∈ sink.inserting) :
    Ledger (events ++ [.insert waiter])
      { sink with
        inserting := sink.inserting.erase waiter
        waiters := sink.waiters.insert waiter.rpcId waiter } := by
  have hcount : ∀ rpcId, sink.insertions rpcId =
      ((sink.inserting.erase waiter).map Waiter.rpcId).count rpcId +
        if waiter.rpcId = rpcId then 1 else 0 := by
    intro rpcId
    unfold insertions
    have hperm := (perm_cons_erase hmem).map Waiter.rpcId
    rw [hperm.count_eq, map_cons, count_cons]
    simp
  refine h.keep rfl ?_ h.kept h.recorded ?_ h.settled rfl rfl
  · intro rpcId
    have hinsertions := hcount rpcId
    by_cases heq : waiter.rpcId = rpcId
    · subst heq
      rw [if_pos rfl] at hinsertions
      have hrecord : ({ sink with
          inserting := sink.inserting.erase waiter
          waiters := sink.waiters.insert waiter.rpcId waiter } : ActorFrameSink).records
            waiter.rpcId = 1 := by
        unfold records
        rw [get?_insert_self]
        rfl
      constructor
      · rintro ⟨hfirst, hsecond⟩
        refine ⟨hfirst, ?_⟩
        have hsecond : sink.insertions waiter.rpcId + sink.records waiter.rpcId +
          sink.responses waiter.rpcId = 1 := hsecond
        show ((sink.inserting.erase waiter).map Waiter.rpcId).count waiter.rpcId +
          ActorFrameSink.records _ waiter.rpcId + sink.responses waiter.rpcId = 1
        rw [hrecord]
        omega
      · rintro ⟨hzero, -⟩
        have hzero : sink.insertions waiter.rpcId = 0 := hzero
        omega
      intro hunused _
      exact hunused
    rw [if_neg heq, Nat.add_zero] at hinsertions
    have hrecord : ({ sink with
        inserting := sink.inserting.erase waiter
        waiters := sink.waiters.insert waiter.rpcId waiter } : ActorFrameSink).records
          rpcId = sink.records rpcId := by
      unfold records
      rw [get?_insert_of_ne _ _ (Ne.symm heq)]
    have hplace : ({ sink with
        inserting := sink.inserting.erase waiter
        waiters := sink.waiters.insert waiter.rpcId waiter } : ActorFrameSink).place rpcId =
          sink.place rpcId := by
      unfold place
      rw [Place.mk.injEq]
      exact ⟨rfl, rfl, hinsertions.symm, hrecord, rfl⟩
    rw [hplace]
    exact .refl _
  intro rpcId found hget
  obtain ⟨heq, rfl⟩ | ⟨-, hget⟩ := get?_insert_eq_some.mp hget
  · exact heq.symm
  · exact h.keys rpcId found hget

theorem Ledger.resolved (h : Ledger events sink) (hmem : resolution ∈ sink.resolving)
    (hinserted : ∀ rpcId ∈ resolution.waiters, rpcId ∉ sink.inserting.map Waiter.rpcId)
    (hresolved : Resolved sink next resolution.waiters)
    (hkeys : ∀ rpcId waiter, next.waiters.get? rpcId = some waiter → waiter.rpcId = rpcId) :
    Ledger (events ++ [.resolve resolution])
      { next with resolving := sink.resolving.erase resolution } := by
  have hhandling : ∀ rpcId, sink.handling rpcId = resolution.waiters.count rpcId +
      ((sink.resolving.erase resolution).map fun r => r.waiters.count rpcId).sum := by
    intro rpcId
    unfold handling
    rw [((perm_cons_erase hmem).map fun r => r.waiters.count rpcId).sum_nat, map_cons, sum_cons]
  refine h.keep rfl ?_ ?_ ?_ hkeys ?_ hresolved.suspended hresolved.direct
  · intro rpcId
    have hcount := hhandling rpcId
    have hbroker : next.broker.waiting rpcId = sink.broker.waiting rpcId := by
      rw [hresolved.broker]
    have hinsertions : next.insertions rpcId = sink.insertions rpcId := by
      unfold insertions
      rw [hresolved.inserting]
    by_cases hwaits : rpcId ∈ resolution.waiters
    · obtain ⟨hnone, hresponses⟩ := hresolved.hit rpcId hwaits
      have hpos := count_pos_iff.mpr hwaits
      have hzero := insertions_eq_zero.mpr (hinserted rpcId hwaits)
      constructor
      · rintro ⟨hfirst, hsecond⟩
        simp only [place] at hfirst hsecond
        constructor
        · show next.broker.waiting rpcId +
            ((sink.resolving.erase resolution).map fun r => r.waiters.count rpcId).sum +
              next.responses rpcId = 1
          omega
        show next.insertions rpcId + next.records rpcId + next.responses rpcId = 1
        omega
      · rintro ⟨hfree, hfree'⟩
        simp only [place] at hfree hfree'
        refine ⟨⟨hinsertions.trans hfree, hnone⟩, ?_⟩
        show next.responses rpcId = sink.responses rpcId
        omega
      rintro ⟨-, hunused, -⟩ -
      simp only [place] at hunused
      omega
    obtain ⟨hrecords, hresponses⟩ := hresolved.miss rpcId hwaits
    rw [count_eq_zero.mpr hwaits, Nat.zero_add] at hcount
    have hplace : ({ next with resolving := sink.resolving.erase resolution } :
        ActorFrameSink).place rpcId = sink.place rpcId := by
      unfold place
      rw [Place.mk.injEq]
      exact ⟨hbroker, hcount.symm, hinsertions, hrecords, hresponses⟩
    rw [hplace]
    exact .refl _
  · show next.broker.Kept
    rw [hresolved.broker]
    exact h.kept
  · show next.broker.Recorded
    rw [hresolved.broker]
    exact h.recorded
  intro other hother rpcId hwaits
  show rpcId ∈ next.broker.answered.map Prod.fst
  rw [hresolved.broker]
  exact h.settled other (mem_of_mem_erase hother) rpcId hwaits

/-- What a new request becomes: its event brings its rpc id, and all others stay. -/
theorem Ledger.admit (h : Ledger events sink) {newId : String} (hid : event.rpcId? = some newId)
    (hplace : ∀ rpcId, rpcId ≠ newId → next.place rpcId = sink.place rpcId)
    (hkept : next.broker.Kept) (hrecorded : next.broker.Recorded)
    (hwaiters : next.waiters = sink.waiters)
    (hsettled : ∀ resolution ∈ next.resolving, ∀ rpcId ∈ resolution.waiters,
      rpcId ∈ next.broker.answered.map Prod.fst)
    (hsuspended : ∀ rpcId, rpcId ≠ newId → (rpcId ∈ next.suspended ↔ rpcId ∈ sink.suspended))
    (hdirect : ∀ rpcId, rpcId ≠ newId → (rpcId ∈ next.direct ↔ rpcId ∈ sink.direct))
    (hheld : newId ∈ next.suspended → (next.place newId).Held)
    (hfree : newId ∉ next.suspended → (next.place newId).Free)
    (honce : newId ∈ next.direct → newId ∉ next.suspended ∧ next.responses newId = 1)
    (hsilent : newId ∉ next.suspended → newId ∉ next.direct → next.responses newId = 0) :
    Ledger (events ++ [event]) next where
  kept := hkept
  recorded := hrecorded
  keys := by
    rw [hwaiters]
    exact h.keys
  settled := hsettled
  unused := by
    intro rpcId hmem
    rw [filterMap_append, filterMap_cons_some hid, filterMap_nil, mem_append,
      not_or, mem_singleton] at hmem
    obtain ⟨hbefore, hne⟩ := hmem
    rw [hplace rpcId hne, hsuspended rpcId hne, hdirect rpcId hne]
    exact h.unused rpcId hbefore
  held := by
    intro rpcId hmem
    by_cases hne : rpcId = newId
    · subst hne
      exact hheld hmem
    rw [hplace rpcId hne]
    exact h.held rpcId ((hsuspended rpcId hne).mp hmem)
  free := by
    intro rpcId hmem
    by_cases hne : rpcId = newId
    · subst hne
      exact hfree hmem
    rw [hplace rpcId hne]
    exact h.free rpcId fun hbefore => hmem ((hsuspended rpcId hne).mpr hbefore)
  once := by
    intro rpcId hmem
    by_cases hne : rpcId = newId
    · subst hne
      exact honce hmem
    obtain ⟨hout, hone⟩ := h.once rpcId ((hdirect rpcId hne).mp hmem)
    refine ⟨fun hbefore => hout ((hsuspended rpcId hne).mp hbefore), ?_⟩
    exact (congrArg Place.responses (hplace rpcId hne)).trans hone
  silent := by
    intro rpcId hout hout'
    by_cases hne : rpcId = newId
    · subst hne
      exact hsilent hout hout'
    refine (congrArg Place.responses (hplace rpcId hne)).trans (h.silent rpcId ?_ ?_)
    · exact fun hbefore => hout ((hsuspended rpcId hne).mpr hbefore)
    exact fun hbefore => hout' ((hdirect rpcId hne).mpr hbefore)

/-- The claims after an admission: a caller that got no answer waits, and nobody else moves. -/
theorem admission_waiting {request : ActorGetOrCreateRequest} {broker after : ActivationBroker}
    {outcome : GetOrCreateOutcome} (h : Admission broker request after outcome) :
    (∀ rpcId, rpcId ≠ request.rpcId → after.waiting rpcId = broker.waiting rpcId) ∧
      (after.answered = broker.answered → outcome ≠ .saturated →
        after.waiting request.rpcId = broker.waiting request.rpcId + 1) := by
  unfold waiting
  cases h with
  | saturated hclaims _ =>
    rw [hclaims]
    exact ⟨fun _ _ => rfl, fun _ hroom => absurd rfl hroom⟩
  | answered answer _ hclaims hanswered =>
    rw [hclaims]
    refine ⟨fun _ _ => rfl, fun hsame => ?_⟩
    rw [hanswered] at hsame
    have hlength := congrArg length hsame
    rw [length_append, length_singleton] at hlength
    omega
  | @joined claim hget _ hclaims _ =>
    have hinsert := fun rpcId => broker.claims.weight_insert
      (fun _ claim => claim.waiters.count rpcId) request.actorKey
      { claim with waiters := claim.waiters ++ [request.rpcId] }
    simp only [weightAt_of_get? hget, count_append] at hinsert
    rw [hclaims]
    constructor
    · intro rpcId hne
      have hother := hinsert rpcId
      simp only [count_singleton, beq_iff_eq, Ne.symm hne, if_false] at hother
      omega
    intro _ _
    have hself := hinsert request.rpcId
    simp only [count_singleton_self] at hself
    omega
  | @started claim requestId habsent hwaiters _ hclaims _ =>
    have hinsert := fun rpcId => broker.claims.weight_insert
      (fun _ claim => claim.waiters.count rpcId) request.actorKey claim
    simp only [weightAt, habsent, Option.elim_none, hwaiters] at hinsert
    rw [hclaims]
    constructor
    · intro rpcId hne
      have hother := hinsert rpcId
      simp only [count_singleton, beq_iff_eq, Ne.symm hne, if_false] at hother
      omega
    intro _ _
    have hself := hinsert request.rpcId
    simp only [count_singleton_self] at hself
    omega

/-- What a call of the broker for a new request leaves for the sink. -/
structure Admitted (request : ActorGetOrCreateRequest) (broker : ActivationBroker)
    (result : GetOrCreateOutcome × ActivationBroker) : Prop where
  kept : result.2.Kept
  recorded : broker.Recorded → result.2.Recorded
  answered : broker.answered <+: result.2.answered
  waiting : ∀ rpcId, rpcId ≠ request.rpcId → result.2.waiting rpcId = broker.waiting rpcId
  suspends : result.1.frame = none →
    result.2.waiting request.rpcId = broker.waiting request.rpcId + 1

variable {control : ActivateInitialControlRequest → Except String Unit}

theorem admitted {request : ActorGetOrCreateRequest} {gaps : AdmissionGaps} (h : broker.Kept) :
    Admitted request broker (broker.getOrCreate options request control gaps) := by
  have hspec : Admits broker request
    (broker.getOrCreate options request control gaps) := getOrCreate_spec h
  have hsuspends : Suspends broker
    (broker.getOrCreate options request control gaps) := getOrCreate_suspends
  obtain ⟨hothers, hself⟩ := admission_waiting hspec.2
  refine ⟨hspec.1, hsuspends.2, hspec.2.carries.answered, hothers, fun hnone => ?_⟩
  refine hself (hsuspends.1 hnone) ?_
  intro hsaturated
  rw [hsaturated] at hnone
  cases hnone

section

variable (h : Ledger events sink)
include h

theorem Ledger.settled_of_prefix (hanswered : sink.broker.answered <+: broker.answered) :
    ∀ resolution ∈ sink.resolving, ∀ rpcId ∈ resolution.waiters,
      rpcId ∈ broker.answered.map Prod.fst := by
  intro resolution hmem rpcId hwaits
  exact (hanswered.map Prod.fst).subset (h.settled resolution hmem rpcId hwaits)

theorem Ledger.task {request : ActorGetOrCreateRequest} (hid : event.rpcId? = some request.rpcId)
    (hnew : request.rpcId ∉ events.filterMap SinkEvent.rpcId?)
    (hadmitted : Admitted request sink.broker result) :
    Ledger (events ++ [event]) { sink with broker := result.2 } := by
  obtain ⟨⟨-, -, hresponses⟩, hout, hout'⟩ := h.unused _ hnew
  refine h.admit hid ?_ hadmitted.kept (hadmitted.recorded h.recorded) rfl
    (h.settled_of_prefix hadmitted.answered) (fun _ _ => Iff.rfl) (fun _ _ => Iff.rfl)
    (fun hmem => absurd hmem hout) (fun _ => h.free _ hout) (fun hmem => absurd hmem hout')
    (fun _ _ => hresponses)
  intro rpcId hne
  unfold place
  rw [Place.mk.injEq]
  exact ⟨hadmitted.waiting rpcId hne, rfl, rfl, rfl, rfl⟩

/-- A request that is answered at once. -/
theorem Ledger.direct {newId : String}
    (hid : event.rpcId? = some newId) (hnew : newId ∉ events.filterMap SinkEvent.rpcId?)
    (hkept : broker.Kept) (hrecorded : broker.Recorded)
    (hanswered : sink.broker.answered <+: broker.answered)
    (hwaiting : ∀ rpcId, rpcId ≠ newId → broker.waiting rpcId = sink.broker.waiting rpcId)
    (session : RuntimeSessionEpoch) (frame : GetOrCreateFrame) :
    Ledger (events ++ [event])
      ({ sink with broker := broker, direct := newId :: sink.direct }.write session newId
        frame) := by
  obtain ⟨⟨-, -, hresponses⟩, hout, -⟩ := h.unused _ hnew
  have hwrite : ∀ rpcId, ({ sink with broker := broker, direct := newId :: sink.direct }.write
      session newId frame).responses rpcId =
        sink.responses rpcId + if rpcId = newId then 1 else 0 := responses_write session frame
  refine h.admit hid ?_ hkept hrecorded rfl (h.settled_of_prefix hanswered)
    (fun _ _ => Iff.rfl) ?_ (fun hmem => absurd hmem hout) (fun _ => h.free _ hout) ?_
    (fun _ hnot => absurd (.head _) hnot)
  · intro rpcId hne
    have hsame := hwrite rpcId
    rw [if_neg hne, Nat.add_zero] at hsame
    unfold place
    rw [Place.mk.injEq]
    exact ⟨hwaiting rpcId hne, rfl, rfl, rfl, hsame⟩
  · intro rpcId hne
    exact mem_cons.trans (or_iff_right hne)
  intro _
  refine ⟨hout, ?_⟩
  have hresponses : sink.responses newId = 0 := hresponses
  rw [hwrite, if_pos rfl, hresponses]

theorem Ledger.request {session : RuntimeSessionEpoch} {request : ActorGetOrCreateRequest}
    {gaps : AdmissionGaps}
    (hnew : request.rpcId ∉ events.filterMap SinkEvent.rpcId?) :
    Ledger (events ++ [.request session request control gaps])
      (sink.handleGetOrCreate options session request control gaps) := by
  have hadmitted : Admitted request sink.broker
    (sink.broker.getOrCreate options request control gaps) := admitted h.kept
  obtain ⟨⟨hwaiting, hhandling, hresponses⟩, hout, hout'⟩ := h.unused _ hnew
  obtain ⟨hinsertions, hrecords⟩ := h.free _ hout
  unfold handleGetOrCreate
  dsimp only
  cases hframe : (sink.broker.getOrCreate options request control gaps).1.frame with
  | some frame =>
    exact h.direct rfl hnew hadmitted.kept (hadmitted.recorded h.recorded) hadmitted.answered
      hadmitted.waiting session frame
  | none =>
    refine h.admit rfl ?_ hadmitted.kept (hadmitted.recorded h.recorded) rfl
      (h.settled_of_prefix hadmitted.answered) ?_ (fun _ _ => Iff.rfl) ?_ ?_ ?_
      (fun hnot _ => absurd (.head _) hnot)
    · intro rpcId hne
      unfold place
      rw [Place.mk.injEq]
      refine ⟨hadmitted.waiting rpcId hne, rfl, ?_, rfl, rfl⟩
      simp only [insertions, map_cons]
      exact count_cons_of_ne (Ne.symm hne)
    · intro rpcId hne
      exact mem_cons.trans (or_iff_right hne)
    · intro _
      simp only [place] at hwaiting hhandling hresponses hinsertions hrecords
      have hwaits := hadmitted.suspends hframe
      have hinserts : (request.rpcId :: sink.inserting.map Waiter.rpcId).count request.rpcId =
          sink.insertions request.rpcId + 1 := count_cons_self
      constructor
      · show (sink.broker.getOrCreate options request control gaps).2.waiting request.rpcId +
          sink.handling request.rpcId + sink.responses request.rpcId = 1
        omega
      show (request.rpcId :: sink.inserting.map Waiter.rpcId).count request.rpcId +
        sink.records request.rpcId + sink.responses request.rpcId = 1
      omega
    · intro hnot
      exact absurd (.head _) hnot
    intro hmem
    exact absurd hmem hout'

theorem ackFrame_isSome (hmem : resolution ∈ sink.resolving)
    (hwaits : waiter.rpcId ∈ resolution.waiters) : (sink.ackFrame waiter).isSome := by
  have hanswered := h.settled resolution hmem waiter.rpcId hwaits
  obtain ⟨outcome, houtcome⟩ := Option.isSome_iff_exists.mp (h.recorded _ hanswered)
  unfold ackFrame
  rw [houtcome]
  cases outcome with
  | resolved epoch => rfl
  | failed code => rfl

theorem Ledger.resolve (hmem : resolution ∈ sink.resolving) :
    Resolved sink (sink.resolve resolution) resolution.waiters := by
  cases resolution with
  | ack waiters => exact foldl_resolved (fun waiter hwaits => ackFrame_isSome h hmem hwaits) h.keys
  | timeout waiters => exact foldl_resolved (fun _ _ => rfl) h.keys

end

theorem foldl_resolveWaiter_get?
    (hget : (waiters.foldl (resolveWaiter frame) sink).waiters.get? other = some waiter) :
    sink.waiters.get? other = some waiter := by
  induction waiters generalizing sink with
  | nil => exact hget
  | cons rpcId rest ih => exact resolveWaiter_get? (ih hget)

theorem resolve_get? (hget : (sink.resolve resolution).waiters.get? other = some waiter) :
    sink.waiters.get? other = some waiter := by
  cases resolution with
  | ack waiters | timeout waiters => exact foldl_resolveWaiter_get? hget

/-- An event that changes nothing of what is counted. -/
theorem Ledger.still (h : Ledger events sink) (hnone : event.rpcId? = none) :
    Ledger (events ++ [event]) sink :=
  h.keep hnone (fun _ => .refl _) h.kept h.recorded h.keys h.settled rfl rfl

theorem Ledger.outside (h : Ledger events sink) (call : OutsideCall) :
    Ledger (events ++ [.outside call]) { sink with broker := sink.broker.wait [call] } :=
  h.keep rfl (fun _ => .refl _) (h.kept.wait [call]) h.recorded h.keys h.settled rfl rfl

theorem Ledger.ack (h : Ledger events sink) {requestId runtimeId connection : String}
    {accepted : Bool} {now : Nat} {gap : Gap}
    (hstep : sink.Step options (.ack requestId runtimeId connection accepted now gap) next) :
    Ledger (events ++ [.ack requestId runtimeId connection accepted now gap]) next := by
  have hends := onActivationAck_ends options gap requestId runtimeId connection accepted now h.kept
  have hnext : some next = sink.apply options _ := hstep.symm
  generalize hresult : sink.broker.onActivationAck options requestId runtimeId connection accepted
    now gap = result at hends
  rw [apply, hresult, Option.some.injEq] at hnext
  rw [hnext]
  dsimp only at hends ⊢
  obtain ⟨hnone, hbroker⟩ | ⟨resolution, hsome, hends⟩ := hends
  · rw [hnone, hbroker]
    exact h.still rfl
  rw [hsome]
  exact h.ends rfl hends

theorem Ledger.timeout (h : Ledger events sink) {requestId : String} {gap : Gap}
    (hstep : sink.Step options (.timeout requestId gap) next) :
    Ledger (events ++ [.timeout requestId gap]) next := by
  have hends := onActivationTimeout_ends gap requestId h.kept
  have hnext : some next = sink.apply options _ := hstep.symm
  generalize hresult : sink.broker.onActivationTimeout requestId gap = result at hends
  rw [apply, hresult, Option.some.injEq] at hnext
  rw [hnext]
  obtain ⟨hnone, hbroker⟩ | ⟨outcome, hsome, hends⟩ := hends
  · rw [hnone, hbroker]
    exact h.still rfl
  rw [hsome]
  have hends : Ends sink.broker result.2 (Resolution.timeout outcome.waiters).waiters := hends
  exact h.ends rfl hends

theorem Ledger.step (h : Ledger events sink) (hstep : sink.Step options event next)
    (hfinds : sink.FindsInserted event)
    (hnew : ∀ rpcId ∈ event.rpcId?, rpcId ∉ events.filterMap SinkEvent.rpcId?) :
    Ledger (events ++ [event]) next := by
  cases event with
  | request session request control gaps =>
    cases hstep
    exact h.request (hnew _ rfl)
  | refuse session rpcId refusal =>
    cases hstep
    exact h.direct rfl (hnew _ rfl) h.kept h.recorded (prefix_refl _) (fun _ _ => rfl) _ _
  | task request control gaps =>
    cases hstep
    exact h.task rfl (hnew _ rfl) (admitted h.kept)
  | insert waiter =>
    obtain ⟨hmem, hnext⟩ := Option.ite_none_right_eq_some.mp hstep
    cases hnext
    exact h.insert hmem
  | ack requestId runtimeId connection accepted now gap => exact h.ack hstep
  | timeout requestId gap => exact h.timeout hstep
  | resolve resolution =>
    obtain ⟨hmem, hnext⟩ := Option.ite_none_right_eq_some.mp hstep
    cases hnext
    exact h.resolved hmem hfinds (h.resolve hmem)
      fun rpcId waiter hget => h.keys rpcId waiter (resolve_get? hget)
  | outside call =>
    cases hstep
    exact h.outside call

theorem step_functional : Functional (Step options) := by
  intro s event t t' ht ht'
  exact Option.some.inj (ht.symm.trans ht')

theorem new_of_distinct (hdistinct : ((events ++ [event]).filterMap SinkEvent.rpcId?).Nodup) :
    ∀ rpcId ∈ event.rpcId?, rpcId ∉ events.filterMap SinkEvent.rpcId? := by
  rw [filterMap_append] at hdistinct
  obtain ⟨-, -, hdisjoint⟩ := nodup_append.mp hdistinct
  intro rpcId hid hmem
  refine hdisjoint rpcId hmem rpcId ?_ rfl
  rw [filterMap_cons_some hid]
  exact .head _

theorem distinct_before (hdistinct : ((events ++ [event]).filterMap SinkEvent.rpcId?).Nodup) :
    (events.filterMap SinkEvent.rpcId?).Nodup := by
  rw [filterMap_append] at hdistinct
  exact hdistinct.of_append_left

theorem ledger_of_clean (h : Run (CleanStep options accepts) {} events sink)
    (hdistinct : (events.filterMap SinkEvent.rpcId?).Nodup) : Ledger events sink := by
  refine history (P := fun (es : List SinkEvent) (s : ActorFrameSink) =>
    (es.filterMap SinkEvent.rpcId?).Nodup → Ledger es s) (fun _ => ledger_new) ?_ h hdistinct
  rintro es s event t - ih ⟨hstep, hfinds, -⟩ hnodup
  exact (ih (distinct_before hnodup)).step hstep hfinds (new_of_distinct hnodup)

theorem taken_of_clean (h : Run (CleanStep options accepts) {} events sink) :
    ∀ response ∈ sink.handed, accepts response :=
  Run.invariant (P := fun s : ActorFrameSink => ∀ response ∈ s.handed, accepts response)
    (fun _ hstep => hstep.2.2) h (by simp)

/-- The loop over a waiter before its insert leaves it without a response. -/
theorem not_answeredOnce (h : Ledger events sink)
    (hstep : sink.Step options (.resolve resolution) next)
    (hmissed : ¬ sink.FindsInserted (.resolve resolution)) : ¬ next.AnsweredOnce accepts := by
  obtain ⟨hmem, hnext⟩ := Option.ite_none_right_eq_some.mp hstep
  cases hnext
  have hresolved := h.resolve hmem
  simp only [FindsInserted, not_forall, not_not] at hmissed
  obtain ⟨rpcId, hwaits, hinserting⟩ := hmissed
  rintro ⟨-, honce⟩
  have hinsertions : 0 < sink.insertions rpcId := count_pos_iff.mpr hinserting
  have hsuspended : rpcId ∈ sink.suspended := by
    by_contra hout
    have hfree : sink.insertions rpcId = 0 := (h.free rpcId hout).1
    omega
  obtain ⟨hfirst, hsecond⟩ := h.held rpcId hsuspended
  simp only [place] at hfirst hsecond
  have hhandling : sink.handling rpcId = resolution.waiters.count rpcId +
      ((sink.resolving.erase resolution).map fun r => r.waiters.count rpcId).sum := by
    unfold handling
    rw [((perm_cons_erase hmem).map fun r => r.waiters.count rpcId).sum_nat, map_cons, sum_cons]
  have hpos := count_pos_iff.mpr hwaits
  have hended : Ended { sink.resolve resolution with
      resolving := sink.resolving.erase resolution } rpcId := by
    refine ended_iff.mpr ⟨?_, ?_⟩
    · show (sink.resolve resolution).broker.waiting rpcId = 0
      rw [hresolved.broker]
      omega
    show ((sink.resolving.erase resolution).map fun r => r.waiters.count rpcId).sum = 0
    omega
  have hresponses := (hresolved.hit rpcId hwaits).2
  have hone := (honce rpcId (by rw [hresolved.suspended]; exact hsuspended) hended).1
  have hle : (sink.resolve resolution).written accepts rpcId ≤
    (sink.resolve resolution).responses rpcId := written_le rpcId
  have hone : (sink.resolve resolution).written accepts rpcId = 1 := hone
  omega

theorem clean_of_answeredOnce (h : Run (Step options) {} events sink)
    (hdistinct : (events.filterMap SinkEvent.rpcId?).Nodup)
    (hall : ∀ u ∈ visited (Step options) {} events, u.AnsweredOnce accepts) :
    Run (CleanStep options accepts) {} events sink := by
  refine history (P := fun (es : List SinkEvent) (s : ActorFrameSink) =>
    (es.filterMap SinkEvent.rpcId?).Nodup →
      (∀ u ∈ visited (Step options) {} es, u.AnsweredOnce accepts) →
        Run (CleanStep options accepts) {} es s)
    (fun _ _ => .nil _) ?_ h hdistinct hall
  intro es s event t hrun ih hstep hnodup hall
  have hbefore := distinct_before hnodup
  rw [visited_snoc step_functional hrun hstep] at hall
  have hclean := ih hbefore fun u hu => hall u (.inr hu)
  have hledger := ledger_of_clean hclean hbefore
  have honce := hall t (.inl rfl)
  have hfinds : s.FindsInserted event := by
    by_contra hmissed
    cases event with
    | resolve resolution => exact not_answeredOnce hledger hstep hmissed honce
    | _ => exact hmissed trivial
  have htaken := (hledger.step hstep hfinds (new_of_distinct hnodup)).taken honce
  exact snoc_iff.mpr ⟨s, hclean, hstep, hfinds, htaken⟩

/-- In every state of a run every request that was answered at once has exactly one response
written, and every suspended one whose claim has ended has exactly one and no waiter record,
if and only if each loop of the run over the waiters of an ended claim found them inserted
and the writer took every response. -/
theorem responses_once_iff (h : Run (Step options) {} events sink)
    (hdistinct : (events.filterMap SinkEvent.rpcId?).Nodup) :
    (∀ u ∈ visited (Step options) {} events, u.AnsweredOnce accepts) ↔
      Run (CleanStep options accepts) {} events sink := by
  constructor
  · exact clean_of_answeredOnce h hdistinct
  · rintro hclean u ⟨before, ⟨after, rfl⟩, hu⟩
    obtain ⟨v, hv, -⟩ := append_iff.mp hclean
    obtain rfl := functional step_functional hu (hv.mono fun hstep => hstep.1)
    rw [filterMap_append] at hdistinct
    exact (ledger_of_clean hv hdistinct.of_append_left).answeredOnce (taken_of_clean hv)

section Sample

theorem run_of_foldlM (h : events.foldlM (apply options) sink = some next) :
    Run (Step options) sink events next := by
  induction events generalizing sink with
  | nil =>
    cases h
    exact .nil _
  | cons event rest ih =>
    rw [foldlM_cons] at h
    obtain ⟨middle, hfirst, hrest⟩ := Option.bind_eq_some_iff.mp h
    exact .cons hfirst (ih hrest)

def sinkSession : RuntimeSessionEpoch := ⟨"runtime-a", 1⟩

def sinkRequest : SinkEvent :=
  .request sinkSession (sessionRequest "rpc-1") (fun _ => .ok ()) ⟨[], [], [], [], []⟩

def sinkInsert : SinkEvent := .insert ⟨"rpc-1", sinkSession, (sessionRequest "rpc-1").actorKey⟩

def sinkAck : SinkEvent := .ack "actor-claim-0" "runtime-a" "conn-a" true 5 []

def sinkEvents : List SinkEvent :=
  [sinkRequest, sinkInsert, sinkAck, .resolve (.ack ["rpc-1"])]

/-- The insert comes in time and the writer takes the response, so both sides hold. -/
theorem responses_once_iff_acked :
    ∃ sink, Run (CleanStep {} fun _ => true) {} sinkEvents sink ∧
      ∀ u ∈ visited (Step {}) {} sinkEvents, u.AnsweredOnce fun _ => true := by
  have hclean : ∃ sink, Run (CleanStep {} fun _ => true) {} sinkEvents sink := by
    refine ⟨_, .cons ⟨rfl, trivial, fun _ _ => rfl⟩ (.cons ⟨rfl, trivial, fun _ _ => rfl⟩
      (.cons ⟨rfl, trivial, fun _ _ => rfl⟩ (.cons ⟨rfl, ?_, fun _ _ => rfl⟩ (.nil _))))⟩
    show ∀ rpcId ∈ ["rpc-1"], rpcId ∉ []
    simp
  obtain ⟨sink, hclean⟩ := hclean
  refine ⟨sink, hclean, (responses_once_iff (hclean.mono fun hstep => hstep.1) ?_).mpr hclean⟩
  decide

/-- The acknowledgement comes as soon as the control frame is sent, and its handler runs
before the request gets to its insert: no response, and a record that stays. The writer takes
whatever it is handed. -/
theorem acknowledged_before_insert :
    ¬ ∀ events sink, (events.filterMap SinkEvent.rpcId?).Nodup →
      Run (Step {}) {} events sink → sink.AnsweredOnce fun _ => true := by
  intro h
  have hsome : ([sinkRequest, sinkAck, .resolve (.ack ["rpc-1"]), sinkInsert].foldlM (apply {})
      {}).any (fun sink => sink.suspended = ["rpc-1"] ∧ sink.broker.waiting "rpc-1" = 0 ∧
        sink.resolving = [] ∧ sink.written (fun _ => true) "rpc-1" = 0) = true := by decide
  obtain ⟨sink, hsink, hfinal⟩ := (Option.any_eq_true _ _).mp hsome
  obtain ⟨hsuspended, hwaiting, hresolving, hnone⟩ := of_decide_eq_true hfinal
  have honce := (h _ sink (by decide) (run_of_foldlM hsink)).2 "rpc-1" (by rw [hsuspended]; decide)
  have hended : sink.Ended "rpc-1" := ⟨hwaiting, by rw [hresolving]; simp⟩
  rw [hnone] at honce
  exact absurd (honce hended).1 (by decide)

end Sample

end ActorFrameSink
end Skiff.Actor
