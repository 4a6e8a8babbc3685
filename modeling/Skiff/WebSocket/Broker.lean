import Skiff.Data.Indexed
import Skiff.Data.Mut
import Skiff.WebSocket.Index
import Skiff.WebSocket.Profile

/-!
# The request broker

Correlation of requests between runtimes and peers (`router/src/ws/broker.rs`): outbound
requests, which a runtime sends to a peer and the peer answers, and inbound ones, which a
peer sends and the dispatcher answers. Every operation runs under the broker's lock, so it
is one step. What the environment answers during a step (the clock, the writer, the
dispatcher, the method catalog) is an argument of the step, and what the step does to it
is listed with the result. An `expect` that would fail is a panic.

A peer's frame enters as what the profile reads in it. The writer of a generation and the
port that answers a source are numbers that name them.
-/

namespace Skiff.WebSocket

open Session (RuntimeSessionEpoch)

/-! ## Requests and answers -/

structure WebSocketRequestBrokerOptions where
  outboundGlobalCapacity : Nat
  outboundPerGenerationCapacity : Nat
  inboundGlobalCapacity : Nat
  inboundPerGenerationCapacity : Nat
  tombstoneCapacity : Nat
  tombstoneTtlMs : Nat
  inboundTimeoutMs : Nat

structure BrokerConnectionGeneration where
  connectionId : String
  socketGeneration : String
  serviceId : String
  websocketEntryId : String

/-- The source of an outbound request; `respond` names the port that answers it. -/
structure BrokerRuntimeSource where
  sender : RuntimeSessionEpoch
  sessionToken : String
  respond : Nat

inductive ConnectionResponseOutcome where
  | success
  | deadlineExceeded
  | connectionUnavailable
  | transportUnavailable
  | protocolError
  | resourceLimit
  | remote

structure RemoteError where
  code : Int
  message : String
  dataPresent : Bool

structure BrokerRuntimeResponse where
  requestId : String
  outcome : ConnectionResponseOutcome
  remote : Option RemoteError := none
  payload : List UInt8 := []

/-- A `connection.request`, with what `materialize_outbound_params` makes of its payload. -/
structure RuntimeRequest where
  requestId : String
  serviceId : String
  websocketEntryId : String
  ownerToken : Nat
  method : String
  params : Option String
  deadlineTimeoutMs : Option Nat

inductive RuntimeRequestOutcome where
  | success
  | connectionUnavailable
  | resourceLimit
  | protocolError
  | transportUnavailable

inductive PeerTextOutcome where
  | ok
  | close (close : WebSocketLifecycleClose)

inductive InboundCompletionOutcome where
  | completed
  | ignoredLate
  | close (close : WebSocketLifecycleClose)

inductive InboundDispatchResult where
  | success (result : String)
  | invalidParams
  | internalError
  | runtimeUnavailable
  | deadlineExceeded

/-- An id that the profile accepted. -/
structure PeerId where
  id : OpaquePeerId
  bounded : id.Bounded

inductive PeerResponseTerminal where
  | success (result : List UInt8)
  | remoteError (code : Int) (message : String) (data : Option (List UInt8))

/-- What the profile reads in a frame: the classification, and with it what the scanners of
the broker find in the text. -/
inductive PeerText where
  | request (id : PeerId) (method : String) (params : Option (List UInt8))
  | response (id : String) (terminal : Option PeerResponseTerminal)
  | notification (method : String)
  | invalidParams (id : Option PeerId)
  | platformError (kind : PlatformErrorKind)
  | close (code : Nat)

/-! ## Keys -/

structure RuntimeKey where
  sender : RuntimeSessionEpoch
  sessionToken : String
  requestId : String

namespace RuntimeKey

def fields (key : RuntimeKey) : RuntimeSessionEpoch ×ₗ String ×ₗ String :=
  toLex (key.sender, toLex (key.sessionToken, key.requestId))

theorem fields_injective : Function.Injective fields := by
  rintro ⟨s, t, r⟩ ⟨s', t', r'⟩ h
  cases h
  rfl

instance : LinearOrder RuntimeKey := LinearOrder.lift' fields fields_injective

end RuntimeKey

def BrokerRuntimeSource.key (source : BrokerRuntimeSource) (requestId : String) : RuntimeKey :=
  ⟨source.sender, source.sessionToken, requestId⟩

structure InboundExecutionToken where
  connectionId : String
  socketGeneration : Nat
  sequence : Nat
deriving DecidableEq

namespace InboundExecutionToken

def fields (token : InboundExecutionToken) : String ×ₗ Nat ×ₗ Nat :=
  toLex (token.connectionId, toLex (token.socketGeneration, token.sequence))

theorem fields_injective : Function.Injective fields := by
  rintro ⟨c, g, n⟩ ⟨c', g', n'⟩ h
  cases h
  rfl

instance : LinearOrder InboundExecutionToken := LinearOrder.lift' fields fields_injective

end InboundExecutionToken

/-- The correlation key of a peer id on one socket generation. -/
def generationPeerKey (generationUid : Nat) (peerId : OpaquePeerId) : String :=
  toString generationUid ++ ":" ++ peerId.canonicalKey

/-- The id of a generation's next outbound request. -/
def outboundPeerId (socketGeneration : String) (sequence : Nat) : OpaquePeerId :=
  .string (socketGeneration ++ ":" ++ toString sequence)

/-! ## The broker's state -/

structure GenerationState where
  handle : BrokerConnectionGeneration
  generation : Nat
  uid : Nat
  ownerToken : Nat
  writer : Nat
  isOpen : Bool
  outboundActive : Nat
  inboundActive : Nat
  sequence : Nat
  executionSequence : Nat

structure OutboundEntry where
  connectionId : String
  peerKey : String
  runtimeKey : RuntimeKey
  source : BrokerRuntimeSource
  requestId : String
  deadlineAtMs : Option Nat
  generationUid : Nat

structure InboundEntry where
  peerKey : String
  peerId : PeerId
  executionToken : InboundExecutionToken
  deadlineAtMs : Nat
  generationUid : Nat

structure TombstoneEntry where
  key : String
  generationUid : Nat
  createdAtMs : Nat

structure TombstoneStore where
  capacity : Nat
  ttlMs : Nat
  entries : List TombstoneEntry

namespace TombstoneStore

variable (store : TombstoneStore)

def expired (entry : TombstoneEntry) (nowMs : Nat) : Bool := store.ttlMs ≤ nowMs - entry.createdAtMs

def add (key : String) (generationUid nowMs : Nat) : TombstoneStore :=
  let entries := store.entries ++ [⟨key, generationUid, nowMs⟩]
  { store with entries := entries.drop (entries.length - store.capacity) }

def contains (key : String) (nowMs : Nat) : Bool :=
  store.entries.any fun entry => entry.key = key && !store.expired entry nowMs

def removeGeneration (generationUid : Nat) : TombstoneStore :=
  { store with entries := store.entries.filter (·.generationUid ≠ generationUid) }

def sweep (nowMs : Nat) : TombstoneStore :=
  { store with entries := store.entries.dropWhile (store.expired · nowMs) }

end TombstoneStore

structure BrokerInner where
  generations : OrdMap String GenerationState
  outboundByPeer : OrdMap String OutboundEntry
  outboundByRuntime : OrdMap RuntimeKey String
  outboundByGenerationRequest : OrdMap (String ×ₗ String) String
  inboundByPeer : OrdMap String InboundEntry
  inboundByToken : OrdMap InboundExecutionToken String
  outboundTombstones : TombstoneStore
  inboundTombstones : TombstoneStore
  nextGenerationUid : Nat
  nextOwnerToken : Nat
  protocolViolations : Nat
  runtimeDisconnectDetached : Nat

inductive BrokerPanic where
  | generation
  | outboundEntry
  | inboundEntry

/-- What the environment answers during one operation: the readings of the clock, in order
and when an entry is detached, the method catalog, and whether the write and the dispatch
succeed. -/
structure BrokerAnswers where
  clock : Nat → Nat
  detachedAt : String → Nat
  accepts : String → Bool
  written : Bool
  dispatched : Bool

/-- What an operation does. An answer, a request and a terminal name the entry they belong
to; `withdrawn` marks an entry that is detached without an answer, `attached` a generation
that is put in. -/
inductive BrokerEffect where
  | attached (connectionId : String) (generation : Nat)
  | respond (peerKey : Option String) (source : BrokerRuntimeSource)
      (response : BrokerRuntimeResponse)
  | violation (source : BrokerRuntimeSource) (reason : String)
  | request (entry : OutboundEntry) (writer : Nat) (frame : PeerFrame) (written : Bool)
  | withdrawn (entry : OutboundEntry) (source : BrokerRuntimeSource)
  | dispatch (token : InboundExecutionToken) (peerId : PeerId) (writer : Nat) (method : String)
      (params : List UInt8)
  | terminal (token : InboundExecutionToken) (writer : Nat) (frame : PeerFrame) (written : Bool)
  | cancel (token : InboundExecutionToken)
  | platformError (writer : Nat) (frame : PeerFrame) (written : Bool)
  | observe (connectionId method : String)

namespace BrokerInner

variable (options : WebSocketRequestBrokerOptions) (answers : BrokerAnswers) (inner : BrokerInner)

def new : BrokerInner :=
  { generations := ∅, outboundByPeer := ∅, outboundByRuntime := ∅
    outboundByGenerationRequest := ∅, inboundByPeer := ∅, inboundByToken := ∅
    outboundTombstones := ⟨options.tombstoneCapacity, options.tombstoneTtlMs, []⟩
    inboundTombstones := ⟨options.tombstoneCapacity, options.tombstoneTtlMs, []⟩
    nextGenerationUid := 0, nextOwnerToken := 1, protocolViolations := 0
    runtimeDisconnectDetached := 0 }

/-- The sweep of both stores that most operations start with. -/
def sweep : BrokerInner :=
  { inner with
    outboundTombstones := inner.outboundTombstones.sweep (answers.clock 0)
    inboundTombstones := inner.inboundTombstones.sweep (answers.clock 0) }

def updateGeneration (connectionId : String) (f : GenerationState → GenerationState) :
    BrokerInner :=
  match inner.generations.get? connectionId with
  | none => inner
  | some state => { inner with generations := inner.generations.insert connectionId (f state) }

/-! ## Detaching -/

def detachOutbound (entry : OutboundEntry) : BrokerInner :=
  if inner.outboundByPeer.contains entry.peerKey then
    { inner with
      outboundByPeer := inner.outboundByPeer.erase entry.peerKey
      outboundByRuntime := inner.outboundByRuntime.erase entry.runtimeKey
      outboundByGenerationRequest :=
        inner.outboundByGenerationRequest.filterValues (· ≠ entry.peerKey)
      outboundTombstones := inner.outboundTombstones.add entry.peerKey entry.generationUid
        (answers.detachedAt entry.peerKey) }.updateGeneration entry.connectionId fun state =>
      { state with outboundActive := state.outboundActive - 1 }
  else inner

def detachInbound (entry : InboundEntry) : BrokerInner :=
  if inner.inboundByPeer.contains entry.peerKey then
    { inner with
      inboundByPeer := inner.inboundByPeer.erase entry.peerKey
      inboundByToken := inner.inboundByToken.erase entry.executionToken
      inboundTombstones := inner.inboundTombstones.add entry.peerKey entry.generationUid
        (answers.detachedAt entry.peerKey) }.updateGeneration entry.executionToken.connectionId
      fun state => { state with inboundActive := state.inboundActive - 1 }
  else inner

def settleOutbound (entry : OutboundEntry) (response : BrokerRuntimeResponse) :
    BrokerInner × List BrokerEffect :=
  if inner.outboundByPeer.contains entry.peerKey then
    (inner.detachOutbound answers entry, [.respond (some entry.peerKey) entry.source response])
  else (inner, [])

/-! ## Runtime operations -/

def attachGeneration (handle : BrokerConnectionGeneration) (writer generation : Nat) :
    BrokerInner × Except String Nat :=
  if inner.generations.contains handle.connectionId then
    (inner, .error ("broker generation for " ++ handle.connectionId ++ " is already attached"))
  else
    ({ inner with
        nextGenerationUid := inner.nextGenerationUid + 1
        nextOwnerToken := inner.nextOwnerToken + 1
        generations := inner.generations.insert handle.connectionId
          ⟨handle, generation, inner.nextGenerationUid, inner.nextOwnerToken, writer, true,
            0, 0, 0, 0⟩ },
      .ok inner.nextOwnerToken)

/-- A request that is refused: it is answered, and where it violates the protocol that is
reported. -/
def refuse (source : BrokerRuntimeSource) (requestId : String)
    (outcome : ConnectionResponseOutcome) (violation : Option String) :
    BrokerInner × List BrokerEffect :=
  ({ inner with
      protocolViolations := inner.protocolViolations + if violation.isSome then 1 else 0 },
    .respond none source { requestId := requestId, outcome := outcome } ::
      violation.toList.map (.violation source))

/-- The three indexes and the counter that a new outbound entry is put into. -/
def indexOutbound (entry : OutboundEntry) : BrokerInner :=
  { inner with
    outboundByPeer := inner.outboundByPeer.insert entry.peerKey entry
    outboundByRuntime := inner.outboundByRuntime.insert entry.runtimeKey entry.peerKey
    outboundByGenerationRequest := inner.outboundByGenerationRequest.insert
      (toLex (entry.connectionId, entry.requestId)) entry.peerKey }.updateGeneration
    entry.connectionId fun state => { state with outboundActive := state.outboundActive + 1 }

/-- The end of `handle_runtime_request`: the entry is indexed, then written. -/
def sendOutbound (entry : OutboundEntry) (peerId : OpaquePeerId) (method params : String) :
    Except BrokerPanic (BrokerInner × List BrokerEffect × RuntimeRequestOutcome) :=
  match inner.generations.get? entry.connectionId with
  | none => .error .generation
  | some state =>
    let inner := inner.indexOutbound entry
    let frame := encodeOutboundRequest peerId method params
    let effects := frame.toList.map fun frame => .request entry state.writer frame answers.written
    if frame.isSome && answers.written then .ok (inner, effects, .success)
    else
      match inner.outboundByPeer.get? entry.peerKey with
      | none => .error .outboundEntry
      | some entry =>
        .ok (inner.detachOutbound answers entry,
          effects ++ [.respond (some entry.peerKey) entry.source
            { requestId := entry.requestId, outcome := .transportUnavailable }],
          .transportUnavailable)

/-- `handle_runtime_request` once the request is known to be well formed. -/
def startOutbound (connectionId : String) (state : GenerationState)
    (source : BrokerRuntimeSource) (request : RuntimeRequest) (params : String) :
    Except BrokerPanic (BrokerInner × List BrokerEffect × RuntimeRequestOutcome) :=
  let peerId := outboundPeerId state.handle.socketGeneration state.sequence
  let peerKey := generationPeerKey state.uid peerId
  let inner := inner.updateGeneration connectionId fun state =>
    { state with sequence := state.sequence + 1 }
  if inner.outboundByPeer.contains peerKey ||
      inner.outboundTombstones.contains peerKey (answers.clock 0) then
    let (inner, effects) := inner.refuse source request.requestId .protocolError
      (some "outbound peer id generator reused an id")
    .ok (inner, effects, .protocolError)
  else
    inner.sendOutbound answers
      { connectionId := connectionId, peerKey := peerKey
        runtimeKey := source.key request.requestId, source := source
        requestId := request.requestId
        deadlineAtMs := request.deadlineTimeoutMs.map fun timeoutMs =>
          u64Saturating (answers.clock 0 + timeoutMs)
        generationUid := state.uid }
      peerId request.method params

def handleRuntimeRequest (connectionId : String) (source : BrokerRuntimeSource)
    (request : RuntimeRequest) :
    Except BrokerPanic (BrokerInner × List BrokerEffect × RuntimeRequestOutcome) :=
  let inner := inner.sweep answers
  let refused (outcome : RuntimeRequestOutcome) (answer : ConnectionResponseOutcome)
      (violation : Option String) :=
    let (inner, effects) := inner.refuse source request.requestId answer violation
    .ok (inner, effects, outcome)
  match inner.generations.get? connectionId with
  | none => refused .connectionUnavailable .connectionUnavailable none
  | some state =>
    if !state.isOpen then refused .connectionUnavailable .connectionUnavailable none
    else if request.serviceId ≠ state.handle.serviceId ∨
        request.websocketEntryId ≠ state.handle.websocketEntryId ∨
        request.ownerToken ≠ state.ownerToken then
      refused .connectionUnavailable .connectionUnavailable none
    else if request.requestId = "" ∨ request.method = "" then
      refused .protocolError .protocolError (some "invalid connection.request broker metadata")
    else if request.deadlineTimeoutMs = some 0 then
      refused .protocolError .protocolError (some "invalid connection.request deadline")
    else if inner.outboundByRuntime.contains (source.key request.requestId) then
      refused .protocolError .protocolError (some "duplicate active connection.request correlation")
    else if options.outboundGlobalCapacity ≤ inner.outboundByPeer.size ∨
        options.outboundPerGenerationCapacity ≤ state.outboundActive then
      refused .resourceLimit .resourceLimit none
    else
      match request.params with
      | none => refused .resourceLimit .resourceLimit none
      | some params => inner.startOutbound answers connectionId state source request params

def handleRuntimeCancel (source : BrokerRuntimeSource) (requestId : String) :
    Except BrokerPanic (BrokerInner × List BrokerEffect × Bool) :=
  let inner := inner.sweep answers
  match inner.outboundByRuntime.get? (source.key requestId) with
  | none => .ok (inner, [], false)
  | some peerKey =>
    match inner.outboundByPeer.get? peerKey with
    | none => .error .outboundEntry
    | some entry => .ok (inner.detachOutbound answers entry, [.withdrawn entry source], true)

/-- The loops that detach outbound entries. -/
def detachAllOutbound (entries : List OutboundEntry) : BrokerInner :=
  entries.foldl (fun inner entry => inner.detachOutbound answers entry) inner

def detachAllInbound (entries : List InboundEntry) : BrokerInner :=
  entries.foldl (fun inner entry => inner.detachInbound answers entry) inner

/-- The entries that go when a runtime is gone, withdrawn by a source each. -/
def runtimeGone (affects : OutboundEntry → Bool) (source : OutboundEntry → BrokerRuntimeSource) :
    BrokerInner × List BrokerEffect × Nat :=
  let inner := inner.sweep answers
  let affected := inner.outboundByPeer.values.filter affects
  let inner := inner.detachAllOutbound answers affected
  ({ inner with runtimeDisconnectDetached := inner.runtimeDisconnectDetached + affected.length },
    affected.map fun entry => .withdrawn entry (source entry), affected.length)

def handleRuntimeDisconnect (source : BrokerRuntimeSource) :
    BrokerInner × List BrokerEffect × Nat :=
  inner.runtimeGone answers (fun entry =>
    entry.source.sender = source.sender && entry.source.sessionToken = source.sessionToken)
    fun _ => source

def runtimeDisconnectedSender (sender : RuntimeSessionEpoch) :
    BrokerInner × List BrokerEffect × Nat :=
  inner.runtimeGone answers (fun entry => entry.source.sender = sender) OutboundEntry.source

/-! ## Peer operations -/

def unknownResponseId : PeerTextOutcome := .close ⟨1002, "unknown JSON-RPC response id"⟩

def closeTransportError : WebSocketLifecycleClose := ⟨1011, "websocket transport error"⟩

/-- The answer that a peer's response makes. -/
def PeerResponseTerminal.response (requestId : String) :
    PeerResponseTerminal → BrokerRuntimeResponse
  | .success result => { requestId := requestId, outcome := .success, payload := result }
  | .remoteError code message data =>
    { requestId := requestId, outcome := .remote
      remote := some ⟨code, message, data.isSome⟩, payload := data.getD [] }

def handlePeerResponse (connectionId peerId : String) (terminal : Option PeerResponseTerminal) :
    BrokerInner × List BrokerEffect × PeerTextOutcome :=
  match inner.generations.get? connectionId with
  | none => (inner, [], unknownResponseId)
  | some state =>
    let peerKey := generationPeerKey state.uid (.string peerId)
    match inner.outboundByPeer.get? peerKey with
    | none =>
      if inner.outboundTombstones.contains peerKey (answers.clock 1) then (inner, [], .ok)
      else (inner, [], unknownResponseId)
    | some entry =>
      if entry.generationUid ≠ state.uid then (inner, [], unknownResponseId)
      else
        match terminal with
        | none => (inner, [], .close ⟨1002, "invalid JSON-RPC response payload"⟩)
        | some terminal =>
          let (inner, effects) :=
            inner.settleOutbound answers entry
              (PeerResponseTerminal.response entry.requestId terminal)
          (inner, effects, .ok)

/-- Write a platform error. -/
def writePlatformError (connectionId : String) (peerId : Option OpaquePeerId)
    (kind : PlatformErrorKind) :
    Except BrokerPanic (BrokerInner × List BrokerEffect × PeerTextOutcome) :=
  match encodePlatformError peerId kind with
  | none => .ok (inner, [], .close closeTransportError)
  | some frame =>
    match inner.generations.get? connectionId with
    | none => .error .generation
    | some state =>
      .ok (inner, [.platformError state.writer frame answers.written],
        if answers.written then .ok else .close closeTransportError)

def duplicateRequestId : PeerTextOutcome := .close ⟨1002, "duplicate JSON-RPC request id"⟩

def predispatchError (connectionId : String) (peerId : PeerId) (kind : PlatformErrorKind) :
    Except BrokerPanic (BrokerInner × List BrokerEffect × PeerTextOutcome) :=
  match inner.generations.get? connectionId with
  | none => .ok (inner, [], .ok)
  | some state =>
    let peerKey := generationPeerKey state.uid peerId.id
    if inner.inboundByPeer.contains peerKey ||
        inner.inboundTombstones.contains peerKey (answers.clock 2) then
      .ok (inner, [], duplicateRequestId)
    else
      { inner with
        inboundTombstones :=
          inner.inboundTombstones.add peerKey state.uid (answers.clock 2) }.writePlatformError
        answers connectionId (some peerId.id) kind

/-- The terminal frame of a dispatch result; whether the dispatch is aborted with it. -/
def inboundTerminal (peerId : OpaquePeerId) : InboundDispatchResult → Option PeerFrame × Bool
  | .success result => (encodeResult peerId result, false)
  | .invalidParams => (encodePlatformError (some peerId) .invalidParams, false)
  | .internalError | .runtimeUnavailable => (encodePlatformError (some peerId) .internal, false)
  | .deadlineExceeded => (encodePlatformError (some peerId) .timeout, true)

def completeInbound (token : InboundExecutionToken) (result : InboundDispatchResult) :
    Except BrokerPanic (BrokerInner × List BrokerEffect × InboundCompletionOutcome) :=
  match inner.inboundByToken.get? token with
  | none => .ok (inner, [], .ignoredLate)
  | some peerKey =>
    match inner.inboundByPeer.get? peerKey with
    | none => .error .inboundEntry
    | some entry =>
      let (terminal, abort) := inboundTerminal entry.peerId.id result
      let inner := inner.detachInbound answers entry
      let cancels := if abort then [.cancel entry.executionToken] else []
      let frame := terminal.getD
        ((encodePlatformError (some entry.peerId.id) .internal).getD .blank)
      match inner.generations.get? entry.executionToken.connectionId with
      | none => .ok (inner, cancels, .close closeTransportError)
      | some state =>
        .ok (inner,
          cancels ++ [.terminal entry.executionToken state.writer frame answers.written],
          if answers.written then .completed else .close closeTransportError)

def indexInbound (entry : InboundEntry) : BrokerInner :=
  { inner with
    inboundByPeer := inner.inboundByPeer.insert entry.peerKey entry
    inboundByToken := inner.inboundByToken.insert entry.executionToken entry.peerKey
    }.updateGeneration entry.executionToken.connectionId fun state =>
    { state with
      executionSequence := state.executionSequence + 1
      inboundActive := state.inboundActive + 1 }

/-- The end of `handle_inbound_request`: the entry is indexed, then dispatched. -/
def dispatchInbound (connectionId : String) (state : GenerationState) (peerId : PeerId)
    (method : String) (params : List UInt8) :
    Except BrokerPanic (BrokerInner × List BrokerEffect × PeerTextOutcome) :=
  let token : InboundExecutionToken := ⟨connectionId, state.generation, state.executionSequence⟩
  let inner := inner.indexInbound
    { peerKey := generationPeerKey state.uid peerId.id, peerId := peerId, executionToken := token
      deadlineAtMs := u64Saturating (answers.clock 1 + options.inboundTimeoutMs)
      generationUid := state.uid }
  let dispatches := [.dispatch token peerId state.writer method params]
  if answers.dispatched then .ok (inner, dispatches, .ok)
  else do
    let (inner, effects, outcome) ← inner.completeInbound answers token .internalError
    .ok (inner, dispatches ++ effects,
      match outcome with
      | .completed | .ignoredLate => .ok
      | .close close => .close close)

def handleInboundRequest (connectionId : String) (peerId : PeerId) (method : String)
    (params : Option (List UInt8)) :
    Except BrokerPanic (BrokerInner × List BrokerEffect × PeerTextOutcome) :=
  match inner.generations.get? connectionId with
  | none => .ok (inner, [], .ok)
  | some state =>
    let peerKey := generationPeerKey state.uid peerId.id
    if inner.inboundByPeer.contains peerKey ||
        inner.inboundTombstones.contains peerKey (answers.clock 1) then
      .ok (inner, [], duplicateRequestId)
    else if !state.isOpen then .ok (inner, [], .ok)
    else if !answers.accepts method then
      inner.predispatchError answers connectionId peerId .methodNotFound
    else if options.inboundGlobalCapacity ≤ inner.inboundByPeer.size ∨
        options.inboundPerGenerationCapacity ≤ state.inboundActive then
      inner.predispatchError answers connectionId peerId .serverBusy
    else
      match params with
      | none => inner.predispatchError answers connectionId peerId .invalidParams
      | some params => inner.dispatchInbound options answers connectionId state peerId method params

def handlePeerText (connectionId : String) (text : PeerText) :
    Except BrokerPanic (BrokerInner × List BrokerEffect × PeerTextOutcome) :=
  let inner := inner.sweep answers
  if !inner.generations.contains connectionId then .ok (inner, [], .ok)
  else
    match text with
    | .request id method params =>
      inner.handleInboundRequest options answers connectionId id method params
    | .response id terminal => .ok (inner.handlePeerResponse answers connectionId id terminal)
    | .notification method => .ok (inner, [.observe connectionId method], .ok)
    | .invalidParams (some id) => inner.predispatchError answers connectionId id .invalidParams
    | .invalidParams none => inner.writePlatformError answers connectionId none .invalidParams
    | .platformError kind => inner.writePlatformError answers connectionId none kind
    | .close code =>
      .ok (inner, [],
        .close ⟨code, if code = 1009 then "JSON-RPC text frame exceeds profile limits"
          else "invalid JSON-RPC response"⟩)

/-! ## Deadlines and close -/

def fireDeadline (connectionId requestId : String) :
    Except BrokerPanic (BrokerInner × List BrokerEffect × Bool) :=
  match inner.outboundByGenerationRequest.get? (toLex (connectionId, requestId)) with
  | none => .ok (inner, [], false)
  | some peerKey =>
    match inner.outboundByPeer.get? peerKey with
    | none => .error .outboundEntry
    | some entry =>
      let (inner, effects) := inner.settleOutbound answers entry
        { requestId := entry.requestId, outcome := .deadlineExceeded }
      .ok (inner, effects, true)

def fireInboundDeadline (token : InboundExecutionToken) :
    Except BrokerPanic (BrokerInner × List BrokerEffect × Bool) :=
  if !inner.inboundByToken.contains token then .ok (inner, [], false)
  else do
    let (inner, effects, _) ← inner.completeInbound answers token .deadlineExceeded
    .ok (inner, effects, true)

def closeGeneration (connectionId : String) (protocolOutcome : Bool) :
    BrokerInner × List BrokerEffect :=
  match inner.generations.get? connectionId with
  | none => (inner, [])
  | some state =>
    if !state.isOpen then (inner, [])
    else
      let inner := inner.updateGeneration connectionId fun state => { state with isOpen := false }
      let outbound := inner.outboundByPeer.values.filter (·.generationUid = state.uid)
      let inbound := inner.inboundByPeer.values.filter (·.generationUid = state.uid)
      let inner := (inner.detachAllOutbound answers outbound).detachAllInbound answers inbound
      ({ inner with
          generations := inner.generations.erase connectionId
          outboundTombstones := inner.outboundTombstones.removeGeneration state.uid
          inboundTombstones := inner.inboundTombstones.removeGeneration state.uid },
        (inbound.map fun entry => .cancel entry.executionToken) ++
          outbound.map fun entry => .respond (some entry.peerKey) entry.source
            { requestId := entry.requestId
              outcome := if protocolOutcome then .protocolError else .transportUnavailable })

def handlePeerDisconnect (connectionId : String) : BrokerInner × List BrokerEffect :=
  (inner.sweep answers).closeGeneration answers connectionId false

end BrokerInner

/-! ## Runs -/

inductive BrokerOp where
  | attachGeneration (handle : BrokerConnectionGeneration) (writer generation : Nat)
  | handleRuntimeRequest (connectionId : String) (source : BrokerRuntimeSource)
      (request : RuntimeRequest)
  | handleRuntimeCancel (source : BrokerRuntimeSource) (requestId : String)
  | handleRuntimeDisconnect (source : BrokerRuntimeSource)
  | runtimeDisconnectedSender (sender : RuntimeSessionEpoch)
  | handlePeerText (connectionId : String) (text : PeerText)
  | handlePeerDisconnect (connectionId : String)
  | completeInbound (token : InboundExecutionToken) (result : InboundDispatchResult)
  | fireDeadline (connectionId requestId : String)
  | fireInboundDeadline (token : InboundExecutionToken)
  | closeGeneration (connectionId : String) (protocolOutcome : Bool)

namespace BrokerInner

variable (options : WebSocketRequestBrokerOptions) (answers : BrokerAnswers) (inner : BrokerInner)

/-- The broker after an operation, with what it did. -/
def apply : BrokerOp → Except BrokerPanic (BrokerInner × List BrokerEffect)
  | .attachGeneration handle writer generation =>
    .ok ((inner.attachGeneration handle writer generation).1,
      match (inner.attachGeneration handle writer generation).2 with
      | .ok _ => [.attached handle.connectionId generation]
      | .error _ => [])
  | .handleRuntimeRequest connectionId source request =>
    (inner.handleRuntimeRequest options answers connectionId source request).map
      fun result => (result.1, result.2.1)
  | .handleRuntimeCancel source requestId =>
    (inner.handleRuntimeCancel answers source requestId).map fun result => (result.1, result.2.1)
  | .handleRuntimeDisconnect source =>
    .ok ((inner.handleRuntimeDisconnect answers source).1,
      (inner.handleRuntimeDisconnect answers source).2.1)
  | .runtimeDisconnectedSender sender =>
    .ok ((inner.runtimeDisconnectedSender answers sender).1,
      (inner.runtimeDisconnectedSender answers sender).2.1)
  | .handlePeerText connectionId text =>
    (inner.handlePeerText options answers connectionId text).map
      fun result => (result.1, result.2.1)
  | .handlePeerDisconnect connectionId => .ok (inner.handlePeerDisconnect answers connectionId)
  | .completeInbound token result =>
    (inner.completeInbound answers token result).map fun result => (result.1, result.2.1)
  | .fireDeadline connectionId requestId =>
    (inner.fireDeadline answers connectionId requestId).map fun result => (result.1, result.2.1)
  | .fireInboundDeadline token =>
    (inner.fireInboundDeadline answers token).map fun result => (result.1, result.2.1)
  | .closeGeneration connectionId protocolOutcome =>
    .ok (inner.closeGeneration answers connectionId protocolOutcome)

end BrokerInner

structure BrokerLabel where
  op : BrokerOp
  effects : List BrokerEffect

/-- One operation, whatever the environment answers. -/
def BrokerStep (options : WebSocketRequestBrokerOptions) (s : BrokerInner) (label : BrokerLabel)
    (t : BrokerInner) : Prop :=
  ∃ answers, s.apply options answers label.op = .ok (t, label.effects)

end Skiff.WebSocket
