import Skiff.Recoverable.Envelope
import Skiff.WebSocket.Broker

/-!
# The index and its broker

The calls of the client connection index with what they do at the broker (`router/src/ws/index.rs`).
A call takes the index lock and the broker lock one after the other, so `attach` is two steps, the
broker's and the index's, and a finalizer closes its generation in a step of its own. The calls
between two of their steps are part of the state, and the steps of different calls interleave.

A label says which step it is, and which connections it reserves, admits and ends.
-/

namespace Skiff.WebSocket

open Session (RuntimeSessionEpoch)
open Recoverable (isWhitespace)

def isControl (c : Char) : Bool := c.toNat < 0x20 || (0x7f ≤ c.toNat && c.toNat ≤ 0x9f)

/-- The check of `ClientSocketGeneration::new`. A text is not its own `trim` just if it starts or
ends with white space. -/
def clientSocketGeneration (connectionId : String) : Except String Unit :=
  let text := connectionId.toList
  if text.isEmpty || text.head?.any isWhitespace || text.getLast?.any isWhitespace ||
      1024 < connectionId.utf8ByteSize || text.any isControl then
    .error ("invalid connection frame: " ++
      "connection frame connectionId must be a bounded non-empty canonical string")
  else .ok ()

structure AttachMeta where
  serviceId : String
  websocketEntryId : String

/-- An `attach` between the broker's section and the index's. -/
structure AttachCall where
  id : String
  generation : Nat
  runtime : RuntimeSessionEpoch
  writer : Nat

/-- The index and the broker, the attaches whose generation the broker has and the index has not
seen, and the finalizers that have not yet closed theirs. -/
structure Gateway where
  index : IndexInner Nat
  broker : BrokerInner
  attaching : List AttachCall
  finalizers : List (FinalizerRecord Nat)

namespace IndexInner

variable {W : Type} (options : ClientConnectionIndexOptions) (inner : IndexInner W)

/-! ## What a call of the index does -/

/-- The finalizers that a call starts. -/
def started : IndexCall W → List (FinalizerRecord W)
  | .admitConnection id businessKey rank maxConnections overflow =>
    (inner.admitConnection options id businessKey rank maxConnections overflow).2.1
  | .finish id terminal close => (inner.finishLocked id terminal close).1.toList
  | .runtimeDisconnected runtime => (inner.runtimeDisconnected runtime).1
  | .shutdown => inner.shutdown.1
  | _ => []

/-- The terminals that a call gives: those of the finalizers that it starts, and that of a
connection which it refuses for its key. -/
def ended : IndexCall W → List (FinalizerRecord W)
  | .admitConnection id businessKey rank maxConnections overflow =>
    match inner.admitConnection options id businessKey rank maxConnections overflow with
    | (.accepted, finalizers, _) => finalizers
    | (.rejected _, _, after) =>
      if after.connectionsById.contains id then []
      else (inner.finishLocked id .policyRejected none).1.toList
  | call => inner.started options call

def reserved : IndexCall W → List String
  | .reserve id =>
    match (inner.reserve options id).1 with
    | .ok () => [id]
    | .error _ => []
  | _ => []

def admitted : IndexCall W → List String
  | .admitConnection id businessKey rank maxConnections overflow =>
    match (inner.admitConnection options id businessKey rank maxConnections overflow).1 with
    | .accepted => [id]
    | .rejected _ => []
  | _ => []

end IndexInner

/-! ## Steps -/

namespace Gateway

variable (answers : BrokerAnswers) (s : Gateway)

/-- `attach` up to the end of the broker's section. -/
def attachGeneration (id : String) (generation : Nat) (display : String)
    (runtime : RuntimeSessionEpoch) (writer : Nat) (connection : AttachMeta) :
    Except String Unit × Gateway :=
  match clientSocketGeneration id with
  | .error error => (.error error, s)
  | .ok () =>
    match s.broker.attachGeneration
        ⟨id, display, connection.serviceId, connection.websocketEntryId⟩ writer generation with
    | (broker, .error error) => (.error error, { s with broker := broker })
    | (broker, .ok _) =>
      (.ok (), { s with
        broker := broker, attaching := s.attaching ++ [⟨id, generation, runtime, writer⟩] })

/-- `attach` in the index. The generation of an unknown connection is closed again. -/
def attachIndexed (call : AttachCall) : Except String Unit × Gateway :=
  let (result, index) := s.index.attach call.id call.generation call.runtime call.writer
  (result, { s with
    index := index
    broker :=
      if s.index.connectionsById.contains call.id then s.broker
      else (s.broker.closeGeneration answers call.id false).1 })

def startFinalizer (record : FinalizerRecord Nat) : Gateway :=
  if record.generation.isSome then
    { s with
      broker := (s.broker.closeGeneration answers record.connectionId
        (record.terminal = .protocolClose)).1 }
  else s

end Gateway

inductive GatewayCall where
  | index (call : IndexCall Nat)
  | attachGeneration (id : String) (generation : Nat) (display : String)
      (runtime : RuntimeSessionEpoch) (writer : Nat) (connection : AttachMeta)
  | attachIndexed (call : AttachCall)
  | startFinalizer (record : FinalizerRecord Nat)

structure GatewayLabel where
  call : GatewayCall
  reserved : List String
  admitted : List String
  ended : List (FinalizerRecord Nat)

/-- A step of a call that reserves, admits and ends nothing. -/
def GatewayLabel.plain (call : GatewayCall) : GatewayLabel := ⟨call, [], [], []⟩

/-- A step of some call. Any attach and any finalizer may be the next to go on. -/
inductive GatewayStep (options : ClientConnectionIndexOptions) :
    Gateway → GatewayLabel → Gateway → Prop
  | index {s : Gateway} (call : IndexCall Nat)
      (single : ∀ id generation runtime writer, call ≠ .attach id generation runtime writer) :
      GatewayStep options s
        ⟨.index call, s.index.reserved options call, s.index.admitted options call,
          s.index.ended options call⟩
        { s with
          index := s.index.apply options call
          finalizers := s.finalizers ++ s.index.started options call }
  | attachGeneration {s : Gateway} (id : String) (generation : Nat) (display : String)
      (runtime : RuntimeSessionEpoch) (writer : Nat) (connection : AttachMeta) :
      GatewayStep options s
        (.plain (.attachGeneration id generation display runtime writer connection))
        (s.attachGeneration id generation display runtime writer connection).2
  | attachIndexed {s : Gateway} (answers : BrokerAnswers) {before after : List AttachCall}
      {call : AttachCall} (waiting : s.attaching = before ++ call :: after) :
      GatewayStep options s (.plain (.attachIndexed call))
        ({ s with attaching := before ++ after }.attachIndexed answers call).2
  | startFinalizer {s : Gateway} (answers : BrokerAnswers)
      {before after : List (FinalizerRecord Nat)} {record : FinalizerRecord Nat}
      (waiting : s.finalizers = before ++ record :: after) :
      GatewayStep options s (.plain (.startFinalizer record))
        ({ s with finalizers := before ++ after }.startFinalizer answers record)

/-- The router starts with no connection. -/
def Gateway.new (options : WebSocketRequestBrokerOptions) : Gateway := ⟨.new, .new options, [], []⟩

/-- No call is between two of its steps. -/
def Gateway.Idle (s : Gateway) : Prop := s.attaching = [] ∧ s.finalizers = []

/-- An attach that finds its connection reserved, after the broker has taken its generation. -/
def Gateway.Strands (s : Gateway) : GatewayCall → Prop
  | .attachIndexed call => ∃ record,
      s.index.connectionsById.get? call.id = some record ∧ record.state = .reserved
  | _ => False

/-- A step of a run in which every connection is admitted before it is attached. -/
def CalmGatewayStep (options : ClientConnectionIndexOptions) (s : Gateway) (label : GatewayLabel)
    (t : Gateway) : Prop :=
  GatewayStep options s label t ∧ ¬ s.Strands label.call

end Skiff.WebSocket
