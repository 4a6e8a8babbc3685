import Skiff.Data.Mut
import Skiff.Router.Admission

/-!
# The request dispatcher

Requests and task attempts that wait for a runtime's response
(`router/src/dispatch/dispatcher.rs`). Every operation runs under the dispatcher's lock,
so it is one step. What its ports answer (the candidate view, the deadline checks, the
revalidation, the writes to a peer) is an argument of the step, and what it asks of them is
listed with the step's result. An `expect` that would fail is a panic.
-/

namespace Skiff.Router

open Session (RuntimeSessionEpoch)

/-! ## Requests, frames and results -/

structure RequestDeadline where
  timeoutMs : Nat
  expiresAt : String

/-- What the dispatcher reads of a `request.start` header. -/
structure RequestStartHeader where
  requestId : String
  mode : String
  deadline : Option RequestDeadline
  buildId : Option String
  testCaseCapability : Option String

structure DispatchSubmit where
  header : RequestStartHeader
  preferSession : Option RuntimeSessionEpoch

structure TaskAttemptFacts where
  taskId : String
  attemptId : String
  leaseId : String

structure TaskAttemptSubmit where
  header : RequestStartHeader
  facts : TaskAttemptFacts
  preferSession : Option RuntimeSessionEpoch

inductive RuntimeResponseFrame (ε : Type) where
  | start (requestId : String)
  | chunk (requestId : String) (seq : Nat) (payload : List UInt8)
  | endFrame (requestId : String) (payloadPresent : Bool) (payload : List UInt8)
  | error (requestId : String) (error : ε)
  | cancel (requestId : String) (reason : String)

def RuntimeResponseFrame.requestId {ε : Type} : RuntimeResponseFrame ε → String
  | .start requestId | .chunk requestId _ _ | .endFrame requestId _ _ | .error requestId _
  | .cancel requestId _ => requestId

inductive DispatchedFrame (ε : Type) where
  | start (requestId : String)
  | chunk (requestId : String) (seq : Nat) (payload : List UInt8)
  | endFrame (requestId : String) (payload : List UInt8)
  | error (requestId : String) (error : ε)

def DispatchedFrame.requestId {ε : Type} : DispatchedFrame ε → String
  | .start requestId | .chunk requestId _ _ | .endFrame requestId _ | .error requestId _ =>
    requestId

inductive RequestCancelReason where
  | timeout
  | callerCancel
  | runtimeDisconnect
  | gatewayDisconnect
  | drain
  | retire
  | clientDisconnect
  | routerShutdown
  | backpressure
  | deadlineExceeded
  | protocolError
  | streamDropped
deriving DecidableEq

namespace RequestCancelReason

def fromWire (reason : String) : Option RequestCancelReason :=
  [("timeout", timeout), ("caller_cancel", callerCancel),
    ("runtime_disconnect", runtimeDisconnect), ("gateway_disconnect", gatewayDisconnect),
    ("drain", drain), ("retire", retire), ("client_disconnect", clientDisconnect),
    ("router_shutdown", routerShutdown), ("backpressure", backpressure),
    ("deadline_exceeded", deadlineExceeded), ("protocol_error", protocolError),
    ("stream_dropped", streamDropped)].lookup reason

def contractH : List RequestCancelReason :=
  [callerCancel, clientDisconnect, timeout, deadlineExceeded, backpressure, protocolError,
    streamDropped, runtimeDisconnect, routerShutdown]

end RequestCancelReason

inductive RevalidateOutcome where
  | ok
  | cancelled
  | staleRevision
  | tupleMismatch
deriving DecidableEq

inductive SubmitRejectReason where
  | duplicate
  | queueFull
  | noCandidate
  | revalidateFailClosed
  | shutdown
  | deadlineExpired
  | invalidMode
  | callbackError
deriving DecidableEq

/-- The result of an admission, of a request or of a task attempt. -/
inductive SubmitResult where
  | accepted (requestId : String) (sessionEpoch : RuntimeSessionEpoch)
  | rejected (requestId : String) (reason : SubmitRejectReason)
deriving DecidableEq

inductive TerminalSource where
  | runtimeResponseEnd
  | runtimeResponseError
  | runtimeRequestCancel
  | timeout
  | callerAbort
  | clientDisconnect
  | backpressure
  | protocolError
  | callbackError
  | runtimeDisconnect
  | routerShutdown

def TerminalSource.asStr : TerminalSource → String
  | .runtimeResponseEnd => "runtime_response_end"
  | .runtimeResponseError => "runtime_response_error"
  | .runtimeRequestCancel => "runtime_request_cancel"
  | .timeout => "timeout"
  | .callerAbort => "caller_abort"
  | .clientDisconnect => "client_disconnect"
  | .backpressure => "backpressure"
  | .protocolError => "protocol_error"
  | .callbackError => "callback_error"
  | .runtimeDisconnect => "runtime_disconnect"
  | .routerShutdown => "router_shutdown"

inductive RequestOutcome where
  | completed
  | failed
  | cancelled
  | protocolError

structure CancelFrame where
  requestId : String
  reason : String

structure PendingTerminal where
  requestId : String
  outcome : RequestOutcome
  source : TerminalSource
  cancelFrame : Option CancelFrame

inductive TaskAttemptTerminalOutcome where
  | succeeded
  | failed (message : String)
  | uncertain (reason : String)

def taskAttemptOutcome (outcome : RequestOutcome) (source : TerminalSource)
    (errorMessage : Option String) : TaskAttemptTerminalOutcome :=
  match outcome with
  | .completed => .succeeded
  | .failed => .failed (errorMessage.getD "target failed")
  | .cancelled =>
    match source with
    | .timeout | .runtimeRequestCancel =>
      .failed (errorMessage.getD ("request canceled: " ++ source.asStr))
    | _ => .uncertain source.asStr
  | .protocolError => .uncertain "protocol_error"

/-! ## The dispatcher -/

inductive PendingKind where
  | unary
  | stream
  | taskAttempt
deriving DecidableEq

inductive StreamPhase where
  | waitingStart
  | streaming
deriving DecidableEq

/-- A request that waits, with its lease and its permit, both of its session. -/
structure Pending where
  kind : PendingKind
  sessionEpoch : RuntimeSessionEpoch
  lease : RegisteredSessionLease
  permit : RuntimeSessionEpoch
  streamPhase : Option StreamPhase
  nextSeq : Nat
  deadline : Option RequestDeadline
  taskAttempt : Option TaskAttemptFacts
  testCaseCapability : Option String
  lease_session : lease.sessionEpoch = sessionEpoch
  permit_session : permit = sessionEpoch

/-- Whether an `End` frame completes the request. -/
def Pending.completes (pending : Pending) (payloadPresent : Bool) : Bool :=
  match pending.kind with
  | .unary => true
  | .stream => pending.streamPhase = some .streaming && !payloadPresent
  | .taskAttempt => !payloadPresent

structure DispatcherInner where
  pool : AdmissionPool
  pending : OrdMap String Pending
  closedSessions : List RuntimeSessionEpoch
  stopped : Bool

/-- What the ports answer during one operation. The check of a deadline is made twice,
and every request gets at most one cancel frame. -/
structure Answers where
  view : CandidateDirectoryView
  expired : Bool
  expiredAtEnqueue : Bool
  revalidate : RevalidateOutcome
  startWritten : Bool
  cancelWritten : String → Bool

/-- What an operation asks of the ports. -/
inductive Effect where
  | requestStart (session : RuntimeSessionEpoch) (requestId : String)
  | taskAttemptStart (session : RuntimeSessionEpoch) (requestId : String)
  | requestCancel (session : RuntimeSessionEpoch) (requestId reason : String)
  | abortSession (session : RuntimeSessionEpoch)
  | onTerminal (requestId : String) (facts : TaskAttemptFacts)
      (outcome : TaskAttemptTerminalOutcome)

structure FrameOutcome (ε : Type) where
  frames : List (DispatchedFrame ε) := []
  terminals : List PendingTerminal := []

namespace DispatcherInner

variable (inner : DispatcherInner) (answers : Answers)

def new (maxConcurrency : Nat) : DispatcherInner := ⟨.new maxConcurrency, ∅, [], false⟩

/-! ### Admission -/

/-- The checks on a selected candidate. A failed revalidation gives the permit back and,
where that is allowed, looks for another candidate. -/
def confirm (deadline : Option RequestDeadline) (leases : List RegisteredSessionLease)
    (reselects : Bool) (lease : RegisteredSessionLease) (pool : AdmissionPool) :
    Except Panic (DispatcherInner × Except SubmitRejectReason RegisteredSessionLease) :=
  if deadline.isSome && answers.expiredAtEnqueue then do
    let pool ← pool.releasePermit lease.sessionEpoch
    .ok ({ inner with pool := pool }, .error .deadlineExpired)
  else if answers.revalidate ≠ .ok then do
    let pool ← pool.releasePermit lease.sessionEpoch
    if reselects then
      match pool.selectAfterRevalidateFailure leases lease.sessionEpoch with
      | none => .ok ({ inner with pool := pool }, .error .revalidateFailClosed)
      | some (other, pool) => .ok ({ inner with pool := pool }, .ok other)
    else .ok ({ inner with pool := pool }, .error .revalidateFailClosed)
  else .ok ({ inner with pool := pool }, .ok lease)

/-- The way of a request or a task attempt to a candidate with a permit. -/
def choose (header : RequestStartHeader) (query : Except Panic (Option CandidateQuery))
    (retained : RegisteredSessionLease → Bool) (preferred : Option RuntimeSessionEpoch)
    (reselects : Bool) :
    Except Panic (DispatcherInner × Except SubmitRejectReason RegisteredSessionLease) :=
  if inner.stopped then .ok (inner, .error .shutdown)
  else if (inner.pending.get? header.requestId).isSome then .ok (inner, .error .duplicate)
  else if header.deadline.isSome && answers.expired then .ok (inner, .error .deadlineExpired)
  else if (dispatchModeFromWire header.mode).isNone then .ok (inner, .error .invalidMode)
  else
    match query with
    | .error panic => .error panic
    | .ok none => .ok (inner, .error .noCandidate)
    | .ok (some query) =>
      let leases := ((answers.view.candidates query).filter fun lease =>
        !lease.cancelled && lease.sessionEpoch ∉ inner.closedSessions).filter retained
      if leases.isEmpty then .ok (inner, .error .noCandidate)
      else
        match inner.pool.select leases preferred with
        | none => .ok (inner, .error .queueFull)
        | some (lease, pool) => inner.confirm answers header.deadline leases reselects lease pool

/-- Send the request to the candidate and keep it as pending. A write that fails gives
the permit back. -/
def enqueue (header : RequestStartHeader) (start : RuntimeSessionEpoch → String → Effect)
    (kind : Except Panic PendingKind) (facts : Option TaskAttemptFacts)
    (lease : RegisteredSessionLease) :
    Except Panic (DispatcherInner × List Effect × SubmitResult) :=
  let session := lease.sessionEpoch
  if answers.startWritten then do
    let kind ← kind
    let pending : Pending :=
      { kind := kind, sessionEpoch := session, lease := lease, permit := session
        streamPhase := if kind = .stream then some .waitingStart else none
        nextSeq := 0, deadline := header.deadline, taskAttempt := facts
        testCaseCapability := header.testCaseCapability
        lease_session := rfl, permit_session := rfl }
    .ok ({ inner with pending := inner.pending.insert header.requestId pending },
      [start session header.requestId], .accepted header.requestId session)
  else do
    let pool ← inner.pool.releasePermit session
    .ok ({ inner with pool := pool },
      [start session header.requestId, .requestCancel session header.requestId "protocol_error",
        .abortSession session],
      .rejected header.requestId .callbackError)

end DispatcherInner

/-- The mode of a request, which the codec has validated. -/
def DispatchSubmit.mode (request : DispatchSubmit) : Except Panic DispatchMode :=
  match dispatchModeFromWire request.header.mode with
  | some mode => .ok mode
  | none => .error .modeNotValidated

def candidateQueryFromBuildId (mode : DispatchMode) (buildId : Option String) :
    Option CandidateQuery :=
  buildId.map fun buildId => ⟨mode, buildId⟩

def DispatchMode.pendingKind : DispatchMode → PendingKind
  | .unary => .unary
  | .serverStream => .stream

namespace DispatcherInner

variable (inner : DispatcherInner) (answers : Answers)

/-- Go on with a chosen candidate, or reject. -/
def submitChosen (header : RequestStartHeader) (start : RuntimeSessionEpoch → String → Effect)
    (kind : Except Panic PendingKind) (facts : Option TaskAttemptFacts)
    (chosen : DispatcherInner × Except SubmitRejectReason RegisteredSessionLease) :
    Except Panic (DispatcherInner × List Effect × SubmitResult) :=
  match chosen.2 with
  | .error reason => .ok (chosen.1, [], .rejected header.requestId reason)
  | .ok lease => chosen.1.enqueue answers header start kind facts lease

def submit (request : DispatchSubmit) :
    Except Panic (DispatcherInner × List Effect × SubmitResult) := do
  let query := request.mode.map fun mode => candidateQueryFromBuildId mode request.header.buildId
  let chosen ← inner.choose answers request.header query (fun _ => true) request.preferSession true
  submitChosen answers request.header .requestStart
    (request.mode.map DispatchMode.pendingKind) none chosen

/-- An attempt with a preferred session goes there or nowhere. -/
def taskAttemptSubmit (attempt : TaskAttemptSubmit) :
    Except Panic (DispatcherInner × List Effect × SubmitResult) := do
  let query := candidateQueryFromBuildId .unary attempt.header.buildId
  let chosen ← inner.choose answers attempt.header (.ok query)
    (fun lease => attempt.preferSession.all fun prefer => lease.sessionEpoch = prefer)
    attempt.preferSession attempt.preferSession.isNone
  submitChosen answers attempt.header .taskAttemptStart (.ok .taskAttempt)
    (some attempt.facts) chosen

/-! ### Terminals -/

/-- Take the request out, give its permit back, settle its task attempt, and send the
cancel frame if there is a reason for one. -/
def terminalLocked (requestId : String) (outcome : RequestOutcome) (source : TerminalSource)
    (cancelReason errorMessage : Option String) :
    Except Panic (DispatcherInner × List Effect × Option PendingTerminal) :=
  match inner.pending.get? requestId with
  | none => .ok (inner, [], none)
  | some pending => do
    let pool ← inner.pool.releasePermit pending.permit
    let settled := pending.taskAttempt.toList.map fun facts =>
      Effect.onTerminal requestId facts (taskAttemptOutcome outcome source errorMessage)
    let cancels := cancelReason.toList.map fun reason =>
      Effect.requestCancel pending.sessionEpoch requestId reason
    let written := answers.cancelWritten requestId
    let aborts := if cancelReason.isSome && !written then
      [Effect.abortSession pending.sessionEpoch] else []
    .ok ({ inner with pool := pool, pending := inner.pending.erase requestId },
      settled ++ cancels ++ aborts,
      some
        { requestId := requestId
          outcome := outcome
          source := if cancelReason.isSome && !written then .callbackError else source
          cancelFrame := if written then cancelReason.map (CancelFrame.mk requestId) else none })

/-- `terminal_locked` for each of the requests. -/
def terminateAll (outcome : RequestOutcome) (source : TerminalSource)
    (cancelReason : Option String) : List String → DispatcherInner →
      Except Panic (DispatcherInner × List Effect × List PendingTerminal)
  | [], inner => .ok (inner, [], [])
  | requestId :: rest, inner => do
    let first ← inner.terminalLocked answers requestId outcome source cancelReason none
    let others ← terminateAll outcome source cancelReason rest first.1
    .ok (others.1, first.2.1 ++ others.2.1, first.2.2.toList ++ others.2.2)

/-! ### Frames -/

section Frames

variable {ε : Type}

/-- The end of a request that must be there. -/
def expectTerminal (frames : List (DispatchedFrame ε))
    (terminated : DispatcherInner × List Effect × Option PendingTerminal) :
    Except Panic (DispatcherInner × List Effect × FrameOutcome ε) :=
  match terminated.2.2 with
  | some terminal => .ok (terminated.1, terminated.2.1, ⟨frames, [terminal]⟩)
  | none => .error .pendingMissing

def protocolErrorTerminal (requestId : String) :
    Except Panic (DispatcherInner × List Effect × FrameOutcome ε) := do
  let terminated ← inner.terminalLocked answers requestId .protocolError .protocolError
    (some "protocol_error") none
  expectTerminal [] terminated

/-- Change a pending that must be there, and deliver a frame. -/
def deliver (requestId : String) (change : Pending → Pending) (frame : DispatchedFrame ε) :
    Except Panic (DispatcherInner × List Effect × FrameOutcome ε) :=
  match inner.pending.get? requestId with
  | none => .error .pendingMissing
  | some pending =>
    .ok ({ inner with pending := inner.pending.insert requestId (change pending) }, [],
      ⟨[frame], []⟩)

def onStart (requestId : String) : Except Panic (DispatcherInner × List Effect × FrameOutcome ε) :=
  let accepted := (inner.pending.get? requestId).any fun pending =>
    pending.kind = .stream && pending.streamPhase = some .waitingStart
  if accepted then
    inner.deliver requestId (fun pending => { pending with streamPhase := some .streaming })
      (.start requestId)
  else inner.protocolErrorTerminal answers requestId

def onChunk (requestId : String) (seq : Nat) (payload : List UInt8) :
    Except Panic (DispatcherInner × List Effect × FrameOutcome ε) :=
  let accepted := (inner.pending.get? requestId).any fun pending =>
    pending.kind = .stream && pending.streamPhase = some .streaming && seq = pending.nextSeq
  if accepted then
    inner.deliver requestId (fun pending => { pending with nextSeq := pending.nextSeq + 1 })
      (.chunk requestId seq payload)
  else inner.protocolErrorTerminal answers requestId

def onEnd (requestId : String) (payloadPresent : Bool) (payload : List UInt8) :
    Except Panic (DispatcherInner × List Effect × FrameOutcome ε) :=
  if (inner.pending.get? requestId).any (·.completes payloadPresent) then do
    let terminated ← inner.terminalLocked answers requestId .completed .runtimeResponseEnd none none
    expectTerminal [.endFrame requestId payload] terminated
  else inner.protocolErrorTerminal answers requestId

def onError (debug : ε → String) (requestId : String) (error : ε) :
    Except Panic (DispatcherInner × List Effect × FrameOutcome ε) := do
  let terminated ← inner.terminalLocked answers requestId .failed .runtimeResponseError none
    (some (debug error))
  expectTerminal [.error requestId error] terminated

def onRuntimeCancel (requestId reason : String) :
    Except Panic (DispatcherInner × List Effect × FrameOutcome ε) :=
  let known := (RequestCancelReason.fromWire reason).any (· ∈ RequestCancelReason.contractH)
  if known then do
    let terminated ← inner.terminalLocked answers requestId .cancelled .runtimeRequestCancel
      none (some reason)
    expectTerminal [] terminated
  else inner.protocolErrorTerminal answers requestId

def isStale (session : RuntimeSessionEpoch) (requestId : String) : Bool :=
  (inner.pending.get? requestId).all fun pending => pending.sessionEpoch ≠ session

def onFrame (debug : ε → String) (session : RuntimeSessionEpoch) (frame : RuntimeResponseFrame ε) :
    Except Panic (DispatcherInner × List Effect × FrameOutcome ε) :=
  if inner.isStale session frame.requestId then .ok (inner, [], {})
  else
    match frame with
    | .start requestId => inner.onStart answers requestId
    | .chunk requestId seq payload => inner.onChunk answers requestId seq payload
    | .endFrame requestId payloadPresent payload =>
      inner.onEnd answers requestId payloadPresent payload
    | .error requestId error => inner.onError answers debug requestId error
    | .cancel requestId reason => inner.onRuntimeCancel answers requestId reason

end Frames

/-! ### The other ends -/

def onSessionClosed (session : RuntimeSessionEpoch) :
    Except Panic (DispatcherInner × List Effect × List PendingTerminal) :=
  let inner := { inner with closedSessions := session :: inner.closedSessions }
  let requestIds := (inner.pending.entries.filter fun entry =>
    entry.2.sessionEpoch = session).map Prod.fst
  terminateAll answers .cancelled .runtimeDisconnect none requestIds inner

def shutdown : Except Panic (DispatcherInner × List Effect × List PendingTerminal) :=
  let inner := { inner with stopped := true }
  terminateAll answers .cancelled .routerShutdown (some "router_shutdown") inner.pending.keys inner

def timeout (requestId : String) :
    Except Panic (DispatcherInner × List Effect × Option PendingTerminal) :=
  inner.terminalLocked answers requestId .cancelled .timeout (some "timeout") none

def callerAbort (requestId : String) (wireReason : Option String) :
    Except Panic (DispatcherInner × List Effect × Option PendingTerminal) :=
  let reason := (wireReason.filter fun reason => reason ≠ "").getD "caller_cancel"
  inner.terminalLocked answers requestId .cancelled .callerAbort (some reason) none

def clientDisconnect (requestId : String) :
    Except Panic (DispatcherInner × List Effect × Option PendingTerminal) :=
  inner.terminalLocked answers requestId .cancelled .clientDisconnect
    (some "client_disconnect") none

def backpressure (requestId : String) :
    Except Panic (DispatcherInner × List Effect × Option PendingTerminal) :=
  inner.terminalLocked answers requestId .cancelled .backpressure (some "backpressure") none

end DispatcherInner

/-! ## Steps -/

inductive DispatchOp (ε : Type) where
  | submit (request : DispatchSubmit)
  | taskAttemptSubmit (attempt : TaskAttemptSubmit)
  | onFrame (session : RuntimeSessionEpoch) (frame : RuntimeResponseFrame ε)
  | timeout (requestId : String)
  | callerAbort (requestId : String) (wireReason : Option String)
  | clientDisconnect (requestId : String)
  | backpressure (requestId : String)
  | onSessionClosed (session : RuntimeSessionEpoch)
  | shutdown

/-- What an operation returns: a result of its admission, frames, terminals. -/
structure Reply (ε : Type) where
  result : Option SubmitResult := none
  frames : List (DispatchedFrame ε) := []
  terminals : List PendingTerminal := []

namespace DispatcherInner

variable {ε : Type} (debug : ε → String)

def apply (inner : DispatcherInner) (answers : Answers) : DispatchOp ε →
    Except Panic (DispatcherInner × List Effect × Reply ε)
  | .submit request => do
    let (inner, effects, result) ← inner.submit answers request
    .ok (inner, effects, { result := some result })
  | .taskAttemptSubmit attempt => do
    let (inner, effects, result) ← inner.taskAttemptSubmit answers attempt
    .ok (inner, effects, { result := some result })
  | .onFrame session frame => do
    let (inner, effects, outcome) ← inner.onFrame answers debug session frame
    .ok (inner, effects, { frames := outcome.frames, terminals := outcome.terminals })
  | .timeout requestId => do
    let (inner, effects, terminal) ← inner.timeout answers requestId
    .ok (inner, effects, { terminals := terminal.toList })
  | .callerAbort requestId wireReason => do
    let (inner, effects, terminal) ← inner.callerAbort answers requestId wireReason
    .ok (inner, effects, { terminals := terminal.toList })
  | .clientDisconnect requestId => do
    let (inner, effects, terminal) ← inner.clientDisconnect answers requestId
    .ok (inner, effects, { terminals := terminal.toList })
  | .backpressure requestId => do
    let (inner, effects, terminal) ← inner.backpressure answers requestId
    .ok (inner, effects, { terminals := terminal.toList })
  | .onSessionClosed session => do
    let (inner, effects, terminals) ← inner.onSessionClosed answers session
    .ok (inner, effects, { terminals := terminals })
  | .shutdown => do
    let (inner, effects, terminals) ← inner.shutdown answers
    .ok (inner, effects, { terminals := terminals })

end DispatcherInner

/-- An operation with what it asked of the ports and what it returned. -/
structure DispatchLabel (ε : Type) where
  op : DispatchOp ε
  effects : List Effect
  reply : Reply ε

/-- One operation, whatever the ports answer. -/
def DispatchStep {ε : Type} (debug : ε → String) (s : DispatcherInner) (label : DispatchLabel ε)
    (t : DispatcherInner) : Prop :=
  ∃ answers, s.apply debug answers label.op = .ok (t, label.effects, label.reply)

end Skiff.Router
