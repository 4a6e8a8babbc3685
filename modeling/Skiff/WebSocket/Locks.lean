import Skiff.Data.Locks

/-!
# Locks of the WebSocket lane

The broker, the connection index and the dispatch store each have one mutex. A call is given
with the branches it takes; its sections follow the source function under these branches.
Responders, session writers and the writer of the socket take none of the three.

Three branches nest against the order in which the others nest. A write under the broker lock
that finds the client over its budget closes the generation and so takes the broker lock again.
An attach whose record is gone closes the generation under the index lock. A closing session
completes its inbound requests under the store lock.
-/

namespace Skiff.WebSocket.Locks

open Section

inductive LaneLock where
  | broker
  | index
  | store
deriving DecidableEq

/-! ## The connection index -/

/-- How a write through the captured writer goes. Over the budget, `found` is the record that
`finish` removes: none, or one with or without a generation. -/
inductive CapturedWrite where
  | stale
  | overBudget (found : Option Bool)
  | accepted (sent : Bool)
deriving DecidableEq

/-- The write returns `Ok`. -/
def CapturedWrite.sent : CapturedWrite → Bool
  | .accepted sent => sent
  | .stale | .overBudget _ => false

def closeGeneration : Section LaneLock := locked .broker done

def reserveWrite : Section LaneLock := locked .index done

def completeWrite : Section LaneLock := locked .index done

def startFinalizer (hasGeneration : Bool) : Section LaneLock :=
  if hasGeneration then closeGeneration else done

def finish (found : Option Bool) : Section LaneLock :=
  locked .index done ++ found.elim done startFinalizer

/-- The body that `write_text` and `write_binary` share. -/
def capturedWrite : CapturedWrite → Section LaneLock
  | .stale => reserveWrite
  | .overBudget found => reserveWrite ++ finish found
  | .accepted sent => reserveWrite ++ if sent then done else completeWrite

def writeText (write : CapturedWrite) : Section LaneLock := capturedWrite write

def writeBinary (write : CapturedWrite) : Section LaneLock := capturedWrite write

/-- The branches of `attach`: the generation is not one, the broker refuses it, the record is gone
from the index, or it is there. -/
inductive Attach where
  | invalid
  | refused
  | gone
  | reached

def attachGeneration : Section LaneLock := locked .broker done

def attach : Attach → Section LaneLock
  | .invalid => done
  | .refused => attachGeneration
  | .gone => attachGeneration ++ locked .index closeGeneration
  | .reached => attachGeneration ++ locked .index done

/-- `admit` with the records that it replaces; `none` where it refuses before it locks. -/
def admitConnection (replaced : Option (List Bool)) : Section LaneLock :=
  replaced.elim done fun records => locked .index done ++ each records startFinalizer

/-- `runtime_disconnected` and `shutdown` of the index with the records that they finish. -/
def finishAll (records : List Bool) : Section LaneLock :=
  locked .index done ++ each records startFinalizer

/-- The task that `spawn_finalizer` spawns. -/
def finalizerTask (failures : Bool) : Section LaneLock :=
  locked .index done ++ if failures then locked .index done else done

/-! ## The broker -/

/-- How the completion of an inbound request goes under the broker lock. -/
inductive InboundCompletion where
  | ignoredLate
  | noGeneration
  | written (write : CapturedWrite)

def InboundCompletion.closes : InboundCompletion → Bool
  | .ignoredLate => false
  | .noGeneration => true
  | .written write => !write.sent

def completeInboundInner : InboundCompletion → Section LaneLock
  | .ignoredLate | .noGeneration => done
  | .written write => writeText write

/-- `dispatch_inbound` looks the connection up and, unless it fails, inserts the request. -/
def dispatchInbound (inserted : Bool) : Section LaneLock :=
  locked .store done ++ if inserted then locked .store done else done

/-- What a peer text frame comes to under the broker lock: nothing is written, a platform error is
written unless its encoding fails, or a request is dispatched or its dispatch fails. -/
inductive PeerText where
  | settled (close : Bool)
  | platformError (write : Option CapturedWrite)
  | dispatched
  | undispatched (completion : InboundCompletion)

def PeerText.closes : PeerText → Bool
  | .settled close => close
  | .platformError write => !(write.elim false CapturedWrite.sent)
  | .dispatched => false
  | .undispatched completion => completion.closes

def handlePeerTextInner : PeerText → Section LaneLock
  | .settled _ => done
  | .platformError write => write.elim done writeText
  | .dispatched => dispatchInbound true
  | .undispatched completion => dispatchInbound false ++ completeInboundInner completion

/-- `handle_runtime_request`; `none` where it settles before the write. -/
def handleRuntimeRequest (write : Option CapturedWrite) : Section LaneLock :=
  locked .broker (write.elim done writeText)

/-- `handle_runtime_send` of the broker, which writes after it dropped the lock. -/
def brokerRuntimeSend (write : Option CapturedWrite) : Section LaneLock :=
  locked .broker done ++ write.elim done capturedWrite

/-! ## The lane -/

/-- The target of a `connection.send`. -/
inductive RuntimeSend where
  | unsupported
  | connection (write : Option CapturedWrite)
  | businessIdentity (writes : List (Option CapturedWrite))

def handleRuntimeSend : RuntimeSend → Section LaneLock
  | .unsupported => done
  | .connection write => brokerRuntimeSend write
  | .businessIdentity writes => locked .index done ++ each writes brokerRuntimeSend

def handlePeerText (frame : PeerText) (found : Option Bool) : Section LaneLock :=
  locked .broker (handlePeerTextInner frame) ++ if frame.closes then finish found else done

def handlePeerBinary (attached : Bool) (found : Option Bool) : Section LaneLock :=
  locked .broker done ++ if attached then finish found else done

def completeInbound (completion : InboundCompletion) (found : Option Bool) : Section LaneLock :=
  locked .broker (completeInboundInner completion) ++
    if completion.closes then finish found else done

def fireInboundDeadline (completion : Option InboundCompletion) : Section LaneLock :=
  locked .broker (completion.elim done completeInboundInner)

def runtimeDisconnected (records : List Bool) : Section LaneLock :=
  locked .broker done ++ finishAll records

def snapshot : Section LaneLock := locked .index done ++ locked .broker done

/-! ## The dispatch store -/

/-- The completion of one inbound request of the store; `none` where the lane is not set. -/
abbrev StoreCompletion := Option (InboundCompletion × Option Bool)

def storeCompletion (completion : StoreCompletion) : Section LaneLock :=
  completion.elim done fun completion => completeInbound completion.1 completion.2

/-- `on_inbound_response` and `on_inbound_terminal`. -/
def onInboundResponse (completion : StoreCompletion) : Section LaneLock :=
  locked .store done ++ storeCompletion completion

def onSessionClosed (inbound : List StoreCompletion) : Section LaneLock :=
  locked .store (each inbound storeCompletion)

/-- The session consumer: the store, the lane, and the consumer that it wraps. -/
def sessionConsumer (inbound : List StoreCompletion) (records : List Bool) : Section LaneLock :=
  onSessionClosed inbound ++ runtimeDisconnected records ++ locked .broker done

/-! ## Calls -/

/-- The calls of the lane, of the store and of the session consumer. `single` stands for those that
take one lock and call nothing under it: `reserve`, the lookups and the budget of the index, the
cancellation, the deadline and the lookups of the broker, and what the store registers and counts.
-/
inductive LaneCall where
  | single (lock : LaneLock)
  | captured (write : CapturedWrite)
  | admitConnection (replaced : Option (List Bool))
  | attach (branch : Attach)
  | finish (found : Option Bool)
  | shutdown (records : List Bool)
  | finalizerTask (failures : Bool)
  | handlePeerText (frame : PeerText) (found : Option Bool)
  | handlePeerBinary (attached : Bool) (found : Option Bool)
  | handleRuntimeRequest (write : Option CapturedWrite)
  | handleRuntimeSend (send : RuntimeSend)
  | completeInbound (completion : InboundCompletion) (found : Option Bool)
  | fireInboundDeadline (completion : Option InboundCompletion)
  | runtimeDisconnected (records : List Bool)
  | snapshot
  | onInboundResponse (completion : StoreCompletion)
  | onSessionClosed (inbound : List StoreCompletion)
  | sessionConsumer (inbound : List StoreCompletion) (records : List Bool)

def LaneCall.sections : LaneCall → Section LaneLock
  | .single lock => locked lock done
  | .captured write => capturedWrite write
  | .admitConnection replaced => Locks.admitConnection replaced
  | .attach branch => Locks.attach branch
  | .finish found => Locks.finish found
  | .shutdown records => finishAll records
  | .finalizerTask failures => Locks.finalizerTask failures
  | .handlePeerText frame found => Locks.handlePeerText frame found
  | .handlePeerBinary attached found => Locks.handlePeerBinary attached found
  | .handleRuntimeRequest write => Locks.handleRuntimeRequest write
  | .handleRuntimeSend send => Locks.handleRuntimeSend send
  | .completeInbound completion found => Locks.completeInbound completion found
  | .fireInboundDeadline completion => Locks.fireInboundDeadline completion
  | .runtimeDisconnected records => Locks.runtimeDisconnected records
  | .snapshot => Locks.snapshot
  | .onInboundResponse completion => Locks.onInboundResponse completion
  | .onSessionClosed inbound => Locks.onSessionClosed inbound
  | .sessionConsumer inbound records => Locks.sessionConsumer inbound records

/-! ## The branches that nest -/

def InboundCompletion.write? : InboundCompletion → Option CapturedWrite
  | .written write => some write
  | .ignoredLate | .noGeneration => none

def PeerText.write? : PeerText → Option CapturedWrite
  | .platformError write => write
  | .undispatched completion => completion.write?
  | .settled _ | .dispatched => none

def StoreCompletion.write? (completion : StoreCompletion) : Option CapturedWrite :=
  completion.bind fun completion => completion.1.write?

/-- The writes that a call makes while it holds the broker lock. -/
def LaneCall.brokerWrites : LaneCall → List CapturedWrite
  | .handlePeerText frame _ => frame.write?.toList
  | .handleRuntimeRequest write => write.toList
  | .completeInbound completion _ => completion.write?.toList
  | .fireInboundDeadline completion => (completion.bind InboundCompletion.write?).toList
  | .onInboundResponse completion => (StoreCompletion.write? completion).toList
  | .onSessionClosed inbound | .sessionConsumer inbound _ =>
    inbound.filterMap StoreCompletion.write?
  | _ => []

/-- A write under the broker lock finds its client over the budget and its generation attached. -/
def LaneCall.Overflows (call : LaneCall) : Prop := .overBudget (some true) ∈ call.brokerWrites

/-- The record of the connection is gone when the broker has attached its generation. -/
def LaneCall.AttachesGone (call : LaneCall) : Prop := call = .attach .gone

/-- A peer frame is a request for the dispatch store. -/
def LaneCall.Dispatches : LaneCall → Prop
  | .handlePeerText frame _ => frame = .dispatched ∨ ∃ completion, frame = .undispatched completion
  | _ => False

/-- The completions that a call makes while it holds the store lock. -/
def LaneCall.storeCompletions : LaneCall → List StoreCompletion
  | .onSessionClosed inbound | .sessionConsumer inbound _ => inbound
  | _ => []

/-- A session closes while inbound requests of it are pending. -/
def LaneCall.Completes (call : LaneCall) : Prop :=
  ∃ completion, some completion ∈ call.storeCompletions

/-! ## What each call nests -/

variable {outer inner : LaneLock}

@[simp] theorem not_nests_startFinalizer {hasGeneration : Bool} :
    ¬ (startFinalizer hasGeneration).Nests outer inner := by
  cases hasGeneration <;> simp [startFinalizer, closeGeneration]

variable {lock : LaneLock}

@[simp] theorem mem_locks_startFinalizer {hasGeneration : Bool} :
    lock ∈ (startFinalizer hasGeneration).locks ↔ hasGeneration = true ∧ lock = .broker := by
  cases hasGeneration <;> simp [startFinalizer, closeGeneration]

variable {found : Option Bool}

@[simp] theorem not_nests_finish : ¬ (finish found).Nests outer inner := by
  cases found <;> simp [finish]

variable {records : List Bool}

@[simp] theorem not_nests_finishAll : ¬ (finishAll records).Nests outer inner := by
  simp [finishAll]

@[simp] theorem not_nests_capturedWrite {write : CapturedWrite} :
    ¬ (capturedWrite write).Nests outer inner := by
  rcases write with _ | found | _ | _ <;> simp [capturedWrite, reserveWrite, completeWrite]

@[simp] theorem mem_locks_capturedWrite {write : CapturedWrite} :
    lock ∈ (capturedWrite write).locks ↔
      lock = .index ∨ lock = .broker ∧ write = .overBudget (some true) := by
  rcases write with _ | (_ | _ | _) | _ | _ <;>
    simp [capturedWrite, reserveWrite, completeWrite, finish]

variable {completion : InboundCompletion}

@[simp] theorem not_nests_completeInboundInner :
    ¬ (completeInboundInner completion).Nests outer inner := by
  cases completion <;> simp [completeInboundInner, writeText]

@[simp] theorem mem_locks_completeInboundInner :
    lock ∈ (completeInboundInner completion).locks ↔
      ∃ write ∈ completion.write?, lock ∈ (capturedWrite write).locks := by
  cases completion <;> simp [completeInboundInner, InboundCompletion.write?, writeText]

@[simp] theorem nests_completeInbound : (completeInbound completion found).Nests outer inner ↔
      outer = .broker ∧ inner ∈ (completeInboundInner completion).locks := by
  cases hcloses : completion.closes <;> simp [completeInbound, hcloses]

theorem broker_mem_completeInbound : .broker ∈ (completeInbound completion found).locks := by
  simp [completeInbound]

theorem store_not_mem_completeInbound : .store ∉ (completeInbound completion found).locks := by
  cases hcloses : completion.closes <;> cases found <;> simp [completeInbound, hcloses, finish]

@[simp] theorem nests_attach {branch : Attach} :
    (attach branch).Nests outer inner ↔ outer = .index ∧ inner = .broker ∧ branch = .gone := by
  cases branch <;> simp [attach, attachGeneration, closeGeneration]

@[simp] theorem not_nests_admitConnection {replaced : Option (List Bool)} :
    ¬ (admitConnection replaced).Nests outer inner := by
  cases replaced <;> simp [admitConnection]

@[simp] theorem not_nests_finalizerTask {failures : Bool} :
    ¬ (finalizerTask failures).Nests outer inner := by
  cases failures <;> simp [finalizerTask]

@[simp] theorem nests_handleRuntimeRequest {write : Option CapturedWrite} :
    (handleRuntimeRequest write).Nests outer inner ↔
      outer = .broker ∧ ∃ captured ∈ write, inner ∈ (capturedWrite captured).locks := by
  cases write <;> simp [handleRuntimeRequest, writeText]

@[simp] theorem not_nests_brokerRuntimeSend {write : Option CapturedWrite} :
    ¬ (brokerRuntimeSend write).Nests outer inner := by
  cases write <;> simp [brokerRuntimeSend]

@[simp] theorem not_nests_handleRuntimeSend {send : RuntimeSend} :
    ¬ (handleRuntimeSend send).Nests outer inner := by
  cases send <;> simp [handleRuntimeSend]

@[simp] theorem not_nests_handlePeerBinary {attached : Bool} :
    ¬ (handlePeerBinary attached found).Nests outer inner := by
  cases attached <;> simp [handlePeerBinary]

@[simp] theorem nests_fireInboundDeadline {completion : Option InboundCompletion} :
    (fireInboundDeadline completion).Nests outer inner ↔
      outer = .broker ∧ ∃ write ∈ completion.bind InboundCompletion.write?,
        inner ∈ (capturedWrite write).locks := by
  cases completion <;> simp [fireInboundDeadline]

@[simp] theorem not_nests_runtimeDisconnected :
    ¬ (runtimeDisconnected records).Nests outer inner := by
  simp [runtimeDisconnected]

@[simp] theorem not_nests_snapshot : ¬ snapshot.Nests outer inner := by
  simp [snapshot]

@[simp] theorem nests_handlePeerText {frame : PeerText} :
    (handlePeerText frame found).Nests outer inner ↔
      outer = .broker ∧ inner ∈ (handlePeerTextInner frame).locks := by
  have hinner : ¬ (handlePeerTextInner frame).Nests outer inner := by
    cases frame with
    | settled close => simp [handlePeerTextInner]
    | platformError write => cases write <;> simp [handlePeerTextInner, writeText]
    | dispatched | undispatched completion => simp [handlePeerTextInner, dispatchInbound]
  cases hcloses : frame.closes <;> simp [handlePeerText, hcloses, hinner]

theorem mem_locks_handlePeerTextInner {frame : PeerText} :
    lock ∈ (handlePeerTextInner frame).locks ↔
      (∃ write ∈ frame.write?, lock ∈ (capturedWrite write).locks) ∨
        lock = .store ∧ (frame = .dispatched ∨ ∃ completion, frame = .undispatched completion) := by
  cases frame with
  | settled close => simp [handlePeerTextInner, PeerText.write?]
  | platformError write => cases write <;> simp [handlePeerTextInner, writeText, PeerText.write?]
  | dispatched => simp [handlePeerTextInner, dispatchInbound, PeerText.write?]
  | undispatched completion => simp [handlePeerTextInner, dispatchInbound, PeerText.write?, or_comm]

@[simp] theorem nests_storeCompletion {completion : StoreCompletion} :
    (storeCompletion completion).Nests outer inner ↔
      outer = .broker ∧ ∃ write ∈ completion.write?, inner ∈ (capturedWrite write).locks := by
  cases completion with
  | none | some completion => simp [storeCompletion, StoreCompletion.write?]

@[simp] theorem nests_onInboundResponse {completion : StoreCompletion} :
    (onInboundResponse completion).Nests outer inner ↔
      (storeCompletion completion).Nests outer inner := by
  simp [onInboundResponse]

variable {inbound : List StoreCompletion}

theorem nests_onSessionClosed :
    (onSessionClosed inbound).Nests outer inner ↔
      outer = .store ∧ (∃ completion ∈ inbound, inner ∈ (storeCompletion completion).locks) ∨
        outer = .broker ∧ ∃ write ∈ inbound.filterMap StoreCompletion.write?,
          inner ∈ (capturedWrite write).locks := by
  rw [onSessionClosed, nests_locked, mem_locks_each, nests_each]
  refine or_congr Iff.rfl ?_
  simp only [nests_storeCompletion, List.mem_filterMap]
  constructor
  · rintro ⟨completion, hmem, houter, write, hwrite, hinner⟩
    exact ⟨houter, write, ⟨completion, hmem, hwrite⟩, hinner⟩
  rintro ⟨houter, write, ⟨completion, hmem, hwrite⟩, hinner⟩
  exact ⟨completion, hmem, houter, write, hwrite, hinner⟩

theorem nests_sessionConsumer : (sessionConsumer inbound records).Nests outer inner ↔
      (onSessionClosed inbound).Nests outer inner := by
  simp [sessionConsumer]

namespace LaneCall

variable {call other : LaneCall} {outer inner : LaneLock}

/-- Under the broker lock a call takes the locks of its writes, and the store lock to dispatch;
under the index lock the broker lock, to close a generation that it has attached; and under the
store lock what its completions take. -/
theorem nests_sections : call.sections.Nests outer inner ↔
    outer = .broker ∧ ((∃ write ∈ call.brokerWrites, inner ∈ (capturedWrite write).locks) ∨
        inner = .store ∧ call.Dispatches) ∨
      outer = .index ∧ inner = .broker ∧ call.AttachesGone ∨
      outer = .store ∧ ∃ completion ∈ call.storeCompletions,
        inner ∈ (storeCompletion completion).locks := by
  cases call with
  | handlePeerText frame found =>
    rw [sections, nests_handlePeerText, mem_locks_handlePeerTextInner]
    simp [brokerWrites, Dispatches, AttachesGone, storeCompletions]
  | onSessionClosed inbound =>
    rw [sections, nests_onSessionClosed, or_comm]
    simp [brokerWrites, Dispatches, AttachesGone, storeCompletions]
  | sessionConsumer inbound records =>
    rw [sections, nests_sessionConsumer, nests_onSessionClosed, or_comm]
    simp [brokerWrites, Dispatches, AttachesGone, storeCompletions]
  | _ => simp [sections, brokerWrites, Dispatches, AttachesGone, storeCompletions]

theorem nests_self {lock : LaneLock} :
    call.sections.Nests lock lock ↔ lock = .broker ∧ call.Overflows := by
  rw [nests_sections]
  constructor
  · rintro (⟨rfl, ⟨write, hwrite, hlock⟩ | ⟨hstore, _⟩⟩ | ⟨rfl, hbroker, _⟩ |
      ⟨rfl, completion, _, hlock⟩)
    · obtain hindex | ⟨_, rfl⟩ := mem_locks_capturedWrite.mp hlock
      · cases hindex
      · exact ⟨rfl, hwrite⟩
    · cases hstore
    · cases hbroker
    cases completion with
    | none => simp [storeCompletion] at hlock
    | some completion => exact absurd hlock store_not_mem_completeInbound
  rintro ⟨rfl, hoverflows⟩
  exact .inl ⟨rfl, .inl ⟨_, hoverflows, by simp⟩⟩

theorem nests_broker_index : call.sections.Nests .broker .index ↔ call.brokerWrites ≠ [] := by
  rw [nests_sections]
  simp [List.eq_nil_iff_forall_not_mem]

theorem nests_broker_store : call.sections.Nests .broker .store ↔ call.Dispatches := by
  rw [nests_sections]
  simp

theorem nests_index_iff :
    call.sections.Nests .index inner ↔ inner = .broker ∧ call.AttachesGone := by
  rw [nests_sections]
  simp

theorem nests_store_broker : call.sections.Nests .store .broker ↔ call.Completes := by
  rw [nests_sections]
  constructor
  · rintro (⟨hstore, _⟩ | ⟨hstore, _⟩ | ⟨_, completion, hmem, hlock⟩)
    · cases hstore
    · cases hstore
    cases completion with
    | none => simp [storeCompletion] at hlock
    | some completion => exact ⟨completion, hmem⟩
  rintro ⟨completion, hmem⟩
  exact .inr (.inr ⟨rfl, some completion, hmem, broker_mem_completeInbound⟩)

/-- One call takes the broker lock under the lock of the index or of the store, the other takes
that lock under the broker lock. -/
def Contends (call other : LaneCall) : Prop :=
  (call.AttachesGone ∧ other.brokerWrites ≠ []) ∨ (call.Completes ∧ other.Dispatches)

theorem opposed_iff : Opposed sections call other ↔
    Contends call other ∨ Contends other call ∨ (call.Overflows ∧ other.Overflows) := by
  constructor
  · rintro ⟨outer, inner, hcall, hother⟩
    cases outer with
    | index =>
      obtain ⟨rfl, hgone⟩ := nests_index_iff.mp hcall
      exact .inl (.inl ⟨hgone, nests_broker_index.mp hother⟩)
    | broker =>
      cases inner with
      | broker => exact .inr (.inr ⟨(nests_self.mp hcall).2, (nests_self.mp hother).2⟩)
      | index =>
        exact .inr (.inl (.inl ⟨(nests_index_iff.mp hother).2, nests_broker_index.mp hcall⟩))
      | store =>
        exact .inr (.inl (.inr ⟨nests_store_broker.mp hother, nests_broker_store.mp hcall⟩))
    | store =>
      cases inner with
      | broker => exact .inl (.inr ⟨nests_store_broker.mp hcall, nests_broker_store.mp hother⟩)
      | index => cases (nests_index_iff.mp hother).1
      | store => cases (nests_self.mp hcall).1
  rintro ((⟨hgone, hwrites⟩ | ⟨hcompletes, hdispatches⟩) |
    (⟨hgone, hwrites⟩ | ⟨hcompletes, hdispatches⟩) | ⟨hcall, hother⟩)
  · exact ⟨.index, .broker, nests_index_iff.mpr ⟨rfl, hgone⟩, nests_broker_index.mpr hwrites⟩
  · exact ⟨.store, .broker, nests_store_broker.mpr hcompletes, nests_broker_store.mpr hdispatches⟩
  · exact ⟨.broker, .index, nests_broker_index.mpr hwrites, nests_index_iff.mpr ⟨rfl, hgone⟩⟩
  · exact ⟨.broker, .store, nests_broker_store.mpr hdispatches, nests_store_broker.mpr hcompletes⟩
  · exact ⟨.broker, .broker, nests_self.mpr ⟨rfl, hcall⟩, nests_self.mpr ⟨rfl, hother⟩⟩

/-- A call starts: it does not overflow under the broker lock, and none contends with it. -/
structure Calm (calls : List (LockedCall LaneCall LaneLock)) (call : LaneCall) : Prop where
  budget : ¬ call.Overflows
  order : ∀ other ∈ calls, ¬ Contends call other.call ∧ ¬ Contends other.call call

variable {calls : List (LockedCall LaneCall LaneLock)}

theorem apart_iff : Apart sections calls call ↔ Calm calls call := by
  constructor
  · rintro ⟨honce, hapart⟩
    have hbudget : ¬ call.Overflows := fun h => honce .broker (nests_self.mpr ⟨rfl, h⟩)
    refine ⟨hbudget, fun other hother => ⟨?_, ?_⟩⟩
    · intro hcontends
      exact hapart other hother (opposed_iff.mpr (.inl hcontends))
    intro hcontends
    exact hapart other hother (opposed_iff.mpr (.inr (.inl hcontends)))
  rintro ⟨hbudget, horder⟩
  refine ⟨fun lock hnests => hbudget (nests_self.mp hnests).2, fun other hother hopposed => ?_⟩
  obtain hcontends | hcontends | ⟨hoverflows, _⟩ := opposed_iff.mp hopposed
  · exact (horder other hother).1 hcontends
  · exact (horder other hother).2 hcontends
  · exact hbudget hoverflows

/-- A step of the lane in which a call that starts is calm. -/
def CalmStep (calls : List (LockedCall LaneCall LaneLock)) (event : LockEvent LaneCall LaneLock)
    (calls' : List (LockedCall LaneCall LaneLock)) : Prop :=
  LockStep sections calls event calls' ∧ ∀ call, event = .start call → Calm calls call

/-- Where every call that starts is calm, no call waits for a lock that it holds and no two calls
each wait for a lock that the other holds. -/
theorem calm_run_waits {events : List (LockEvent LaneCall LaneLock)}
    {calls : List (LockedCall LaneCall LaneLock)} (h : Run CalmStep [] events calls) :
    ¬ SelfWait calls ∧ ¬ CrossWait calls :=
  Orderly.run (fun _ _ hcalm => apart_iff.mpr hcalm) h

/-- A request holds the broker lock and waits for the index lock of another call. -/
def writeWaiting : List (LockedCall LaneCall LaneLock) :=
  [⟨.single .index, [.index], [.release .index]⟩,
    ⟨.handleRuntimeRequest (some (.accepted true)), [.broker],
      [.acquire .index, .release .index, .release .broker]⟩]

theorem calm_run_waits_write : ¬ SelfWait writeWaiting ∧ ¬ CrossWait writeWaiting := by
  have hrequest : LockStep sections [] (.start (.handleRuntimeRequest (some (.accepted true))))
      [⟨.handleRuntimeRequest (some (.accepted true)), [], [.acquire .broker, .acquire .index,
        .release .index, .release .broker]⟩] := .start [] _
  have hsingle : LockStep sections [⟨.handleRuntimeRequest (some (.accepted true)), [.broker],
      [.acquire .index, .release .index, .release .broker]⟩] (.start (.single .index))
      [⟨.single .index, [], [.acquire .index, .release .index]⟩,
        ⟨.handleRuntimeRequest (some (.accepted true)), [.broker],
          [.acquire .index, .release .index, .release .broker]⟩] := .start _ _
  refine calm_run_waits (.cons ⟨hrequest, ?_⟩ (.cons ⟨.acquire_alone (by simp), by simp⟩
    (.cons ⟨hsingle, ?_⟩ (.cons ⟨.acquire [] _ (by simp), by simp⟩ (.nil _)))))
  · rintro call ⟨⟩
    exact ⟨by simp [Overflows, brokerWrites], by simp⟩
  · rintro call ⟨⟩
    exact ⟨by simp [Overflows, brokerWrites],
      by simp [Contends, AttachesGone, brokerWrites, Dispatches, Completes, storeCompletions]⟩

theorem run_alone_of_not_overflows (hbudget : ¬ call.Overflows) :
    Run (LockStep sections) [] (alone sections call) [] :=
  run_alone fun _ hnests => hbudget (nests_self.mp hnests).2

/-- A call that overflows under the broker lock comes to wait for it. -/
theorem selfWait_of_overflows (h : call.Overflows) :
    ∃ events calls, Run (LockStep sections) [] (.start call :: events) calls ∧ SelfWait calls :=
  selfWait_alone ⟨.broker, nests_self.mpr ⟨rfl, h⟩⟩

/-- A request to a connection over its budget waits for the broker lock, which it holds. -/
theorem lane_waits_overflow : ∃ events calls, Run (LockStep sections) []
    (alone sections (.single .index) ++ alone sections (.admitConnection (some [])) ++
      alone sections (.attach .reached) ++
      .start (.handleRuntimeRequest (some (.overBudget (some true)))) :: events) calls ∧
    SelfWait calls := by
  have hreserve : ¬ (single .index).Overflows := by simp [Overflows, brokerWrites]
  have hadmit : ¬ (LaneCall.admitConnection (some [])).Overflows := by
    simp [Overflows, brokerWrites]
  have hattach : ¬ (LaneCall.attach .reached).Overflows := by simp [Overflows, brokerWrites]
  have hrequest : (LaneCall.handleRuntimeRequest (some (.overBudget (some true)))).Overflows := by
    simp [Overflows, brokerWrites]
  obtain ⟨events, calls, hrun, hwait⟩ := selfWait_of_overflows hrequest
  have hattached := ((run_alone_of_not_overflows hreserve).trans
    (run_alone_of_not_overflows hadmit)).trans (run_alone_of_not_overflows hattach)
  exact ⟨events, calls, hattached.trans hrun, hwait⟩

end LaneCall

end Skiff.WebSocket.Locks
