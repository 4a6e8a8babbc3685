import Skiff.Session.Directory

/-!
# The client connection index

Logical client connections and their replacement by business identity
(`router/src/ws/index.rs`). Every operation is one section under the index lock; the
finalizers that it starts are listed with its result. The writers are those of a type `W`,
and what a writer has buffered is an argument of the write.
-/

namespace Skiff.WebSocket

open Session (RuntimeSessionEpoch)

structure WebSocketLifecycleClose where
  code : Nat
  reason : String
deriving DecidableEq

inductive ClientTerminal where
  | peerClose
  | replacement
  | policyRejected
  | runtimeDisconnect
  | shutdown
  | slowClient
  | protocolClose
  | releaseTimeout
  | transportError
deriving DecidableEq

def closePolicyRejected : WebSocketLifecycleClose :=
  ⟨1008, "connection rejected by admission policy"⟩

def closeSuperseded : WebSocketLifecycleClose := ⟨4009, "connection superseded"⟩

def closeHighWaterCapacity : WebSocketLifecycleClose := ⟨1013, "admission high-water capacity"⟩

def closeShutdown : WebSocketLifecycleClose := ⟨1001, "websocket gateway shutting down"⟩

/-- A refusal with the policy's code and a reason of its own. -/
def policyClose (reason : String) : WebSocketLifecycleClose := ⟨closePolicyRejected.code, reason⟩

inductive OverflowPolicy where
  | rejectNew
  | closeOldest
deriving DecidableEq

inductive AdmissionOutcome where
  | accepted
  | rejected (close : WebSocketLifecycleClose)
deriving DecidableEq

structure ClientConnectionIndexOptions where
  connectionLimit : Nat
  slowClientBudgetBytes : Nat
  highWaterCapacity : Nat

inductive ConnectionState where
  | reserved
  | admitted
  | attached
deriving DecidableEq

structure ConnectionRecord (W : Type) where
  businessKey : Option String
  rank : Option Nat
  state : ConnectionState
  generation : Option Nat
  runtime : Option RuntimeSessionEpoch
  writer : Option W
  observedWriteBytes : Nat
  observedWrites : Nat
deriving DecidableEq

structure FinalizerRecord (W : Type) where
  connectionId : String
  generation : Option Nat
  terminal : ClientTerminal
  close : Option WebSocketLifecycleClose
  writer : Option W

/-- The index under its lock. `byRuntime` has the connections of a session in order. -/
structure IndexInner (W : Type) where
  connectionsById : OrdMap String (ConnectionRecord W)
  admissionOrder : List String
  businessOrder : OrdMap String (List String)
  highWater : OrdMap String Nat
  byRuntime : OrdMap RuntimeSessionEpoch (OrdMap String Unit)
  finalizing : OrdMap String (FinalizerRecord W)
  finalizerCount : Nat
  terminalsById : OrdMap String ClientTerminal
  slowClientCount : Nat
  shuttingDown : Bool

inductive WriteBudget where
  | accepted
  | stale
  | overBudget

def u64Saturating (n : Nat) : Nat := min n (2 ^ 64 - 1)

namespace IndexInner

variable {W : Type}

def new : IndexInner W := ⟨∅, [], ∅, ∅, ∅, ∅, 0, ∅, 0, false⟩

variable (options : ClientConnectionIndexOptions) (inner : IndexInner W)

/-! ## Finishing -/

/-- The orders and the fence after a connection of a business key left. The fence goes
with the last of them. -/
def leaveBusiness (id : String) : Option String → IndexInner W
  | none => inner
  | some key =>
    match inner.businessOrder.get? key with
    | none => inner
    | some order =>
      let order := order.filter (· ≠ id)
      if order.isEmpty then
        { inner with
          businessOrder := inner.businessOrder.erase key
          highWater := inner.highWater.erase key }
      else { inner with businessOrder := inner.businessOrder.insert key order }

def leaveRuntime (id : String) : Option RuntimeSessionEpoch → IndexInner W
  | none => inner
  | some runtime =>
    match inner.byRuntime.get? runtime with
    | none => inner
    | some ids => { inner with byRuntime := inner.byRuntime.insert runtime (ids.erase id) }

def finishLocked (id : String) (terminal : ClientTerminal)
    (close : Option WebSocketLifecycleClose) : Option (FinalizerRecord W) × IndexInner W :=
  match inner.connectionsById.get? id with
  | none => (none, inner)
  | some record =>
    let rest := { inner with connectionsById := inner.connectionsById.erase id }
    let rest := (rest.leaveBusiness id record.businessKey).leaveRuntime id record.runtime
    let finalizer : FinalizerRecord W := ⟨id, record.generation, terminal, close, record.writer⟩
    (some finalizer,
      { rest with
        finalizerCount := rest.finalizerCount + 1
        terminalsById := rest.terminalsById.insert id terminal
        slowClientCount := rest.slowClientCount + if terminal = .slowClient then 1 else 0
        finalizing :=
          if finalizer.writer.isSome ∨ finalizer.generation.isSome then
            rest.finalizing.insert id finalizer
          else rest.finalizing })

/-- The loops over the connections to finish. -/
def finishAll (terminal : ClientTerminal) (close : Option WebSocketLifecycleClose) :
    List String → IndexInner W → List (FinalizerRecord W) × IndexInner W
  | [], inner => ([], inner)
  | id :: ids, inner =>
    let (first, inner) := inner.finishLocked id terminal close
    let (others, inner) := finishAll terminal close ids inner
    (first.toList ++ others, inner)

/-! ## Admission -/

def reserve (id : String) : Except String Unit × IndexInner W :=
  if inner.shuttingDown then (.error "gateway is shutting down", inner)
  else if options.connectionLimit ≤ inner.connectionsById.size then
    (.error "connection limit reached", inner)
  else if inner.connectionsById.contains id then
    (.error ("connection " ++ id ++ " already exists"), inner)
  else
    (.ok (),
      { inner with
        connectionsById :=
          inner.connectionsById.insert id ⟨none, none, .reserved, none, none, none, 0, 0⟩
        admissionOrder := inner.admissionOrder ++ [id] })

def existingFor (key : String) : List String :=
  ((inner.businessOrder.get? key).getD []).filter inner.connectionsById.contains

/-- Whether the fence of a key refuses an admission with this rank. -/
def fenceRefuses (fence : Option Nat) (rank : Option Nat) : Bool :=
  fence.any fun fence => rank.all (· ≤ fence)

/-- The replacement that an admission for a business key makes, or its refusal. -/
def replaceBusiness (key : String) (rank : Option Nat) (maxConnections : Nat)
    (overflow : OverflowPolicy) :
    Except WebSocketLifecycleClose (List (FinalizerRecord W) × IndexInner W) :=
  let existing := inner.existingFor key
  if fenceRefuses (inner.highWater.get? key) rank then .error closePolicyRejected
  else
    match rank with
    | some rank =>
      if ¬ inner.highWater.contains key ∧ options.highWaterCapacity ≤ inner.highWater.size then
        .error closeHighWaterCapacity
      else
        .ok (finishAll .replacement (some closeSuperseded) existing
          { inner with highWater := inner.highWater.insert key rank })
    | none =>
      if overflow = .rejectNew ∧ maxConnections ≤ existing.length then .error closePolicyRejected
      else if overflow = .closeOldest ∧ maxConnections < existing.length + 1 then
        .ok (finishAll .replacement (some closePolicyRejected)
          (existing.take (existing.length + 1 - maxConnections)) inner)
      else .ok ([], inner)

/-- The record of an accepted connection, and its place in the order of its key. -/
def index (id : String) (record : ConnectionRecord W) (businessKey : Option String)
    (rank : Option Nat) : IndexInner W :=
  { inner with
    connectionsById := inner.connectionsById.insert id
      { record with businessKey := businessKey, rank := rank, state := .admitted }
    businessOrder :=
      match businessKey with
      | none => inner.businessOrder
      | some key =>
        inner.businessOrder.insert key ((inner.businessOrder.get? key).getD [] ++ [id]) }

/-- `admit` once the connection is known to be reserved. -/
def admitReserved (id : String) (record : ConnectionRecord W) (businessKey : Option String)
    (rank : Option Nat) (maxConnections : Nat) (overflow : OverflowPolicy) :
    AdmissionOutcome × List (FinalizerRecord W) × IndexInner W :=
  let replaced : Except WebSocketLifecycleClose (List (FinalizerRecord W) × IndexInner W) :=
    match businessKey with
    | none => .ok ([], inner)
    | some key => inner.replaceBusiness options key rank maxConnections overflow
  match replaced with
  | .error close => (.rejected close, [], (inner.finishLocked id .policyRejected none).2)
  | .ok (finalizers, inner) => (.accepted, finalizers, inner.index id record businessKey rank)

def admitConnection (id : String) (businessKey : Option String) (rank : Option Nat)
    (maxConnections : Nat) (overflow : OverflowPolicy) :
    AdmissionOutcome × List (FinalizerRecord W) × IndexInner W :=
  if ¬ (1 ≤ maxConnections ∧ maxConnections ≤ 2 ^ 32 - 1) then
    (.rejected (policyClose "maxConnections out of range"), [], inner)
  else if inner.shuttingDown then (.rejected closeShutdown, [], inner)
  else
    match inner.connectionsById.get? id with
    | none => (.rejected (policyClose "unknown connection id"), [], inner)
    | some record =>
      if record.state ≠ .reserved then
        (.rejected (policyClose "connection is not reserved"), [], inner)
      else inner.admitReserved options id record businessKey rank maxConnections overflow

/-! ## The other operations -/

/-- `attach` once the broker has attached the generation. -/
def attach (id : String) (generation : Nat) (runtime : RuntimeSessionEpoch) (writer : W) :
    Except String Unit × IndexInner W :=
  match inner.connectionsById.get? id with
  | none => (.error ("unknown connection " ++ id), inner)
  | some record =>
    if record.state ≠ .admitted then (.error ("connection " ++ id ++ " is not admitted"), inner)
    else
      (.ok (),
        { inner with
          connectionsById := inner.connectionsById.insert id
            { record with
              generation := some generation, runtime := some runtime, writer := some writer
              state := .attached }
          byRuntime := inner.byRuntime.insert runtime
            (((inner.byRuntime.get? runtime).getD ∅).insert id ()) })

def runtimeDisconnected (runtime : RuntimeSessionEpoch) : List (FinalizerRecord W) × IndexInner W :=
  finishAll .runtimeDisconnect none ((inner.byRuntime.get? runtime).getD ∅).keys inner

def shutdown : List (FinalizerRecord W) × IndexInner W :=
  finishAll .shutdown none inner.connectionsById.keys { inner with shuttingDown := true }

/-- The captured writer's fence and its budget. -/
def reserveWrite (id : String) (generation bytes buffered : Nat) : WriteBudget × IndexInner W :=
  match inner.connectionsById.get? id with
  | none => (.stale, inner)
  | some record =>
    if record.state ≠ .attached ∨ record.generation ≠ some generation then (.stale, inner)
    else if options.slowClientBudgetBytes <
        u64Saturating (u64Saturating
          ((if record.writer.isSome then buffered else 0) + record.observedWriteBytes) + bytes) then
      (.overBudget, inner)
    else
      (.accepted,
        { inner with
          connectionsById := inner.connectionsById.insert id
            { record with
              observedWriteBytes := u64Saturating (record.observedWriteBytes + bytes)
              observedWrites := record.observedWrites + 1 } })

def completeWrite (id : String) (generation bytes : Nat) : IndexInner W :=
  match inner.connectionsById.get? id with
  | none => inner
  | some record =>
    if record.generation = some generation then
      { inner with
        connectionsById := inner.connectionsById.insert id
          { record with observedWriteBytes := record.observedWriteBytes - bytes } }
    else inner

def removeFinalized (id : String) : IndexInner W :=
  { inner with finalizing := inner.finalizing.erase id }

end IndexInner

/-! ## Runs -/

inductive IndexCall (W : Type) where
  | reserve (id : String)
  | admitConnection (id : String) (businessKey : Option String) (rank : Option Nat)
      (maxConnections : Nat) (overflow : OverflowPolicy)
  | attach (id : String) (generation : Nat) (runtime : RuntimeSessionEpoch) (writer : W)
  | finish (id : String) (terminal : ClientTerminal) (close : Option WebSocketLifecycleClose)
  | runtimeDisconnected (runtime : RuntimeSessionEpoch)
  | shutdown
  | reserveWrite (id : String) (generation bytes buffered : Nat)
  | completeWrite (id : String) (generation bytes : Nat)
  | removeFinalized (id : String)

namespace IndexInner

variable {W : Type} (options : ClientConnectionIndexOptions) (inner : IndexInner W)

/-- The index after a call. -/
def apply : IndexCall W → IndexInner W
  | .reserve id => (inner.reserve options id).2
  | .admitConnection id businessKey rank maxConnections overflow =>
    (inner.admitConnection options id businessKey rank maxConnections overflow).2.2
  | .attach id generation runtime writer => (inner.attach id generation runtime writer).2
  | .finish id terminal close => (inner.finishLocked id terminal close).2
  | .runtimeDisconnected runtime => (inner.runtimeDisconnected runtime).2
  | .shutdown => inner.shutdown.2
  | .reserveWrite id generation bytes buffered =>
    (inner.reserveWrite options id generation bytes buffered).2
  | .completeWrite id generation bytes => inner.completeWrite id generation bytes
  | .removeFinalized id => inner.removeFinalized id

def Step (s : IndexInner W) (call : IndexCall W) (t : IndexInner W) : Prop :=
  s.apply options call = t

end IndexInner

end Skiff.WebSocket
