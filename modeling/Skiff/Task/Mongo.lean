import Skiff.Data.Bson
import Skiff.Task.Memory

/-!
# The Mongo task store

The conditional writes of `task-control/src/mongo.rs` and the decoding of stored
documents. Every write is one filter and one update on the document with the given
`_id`, evaluated atomically at the server time. The filters and updates are
transcribed field by field; the serde encodings of the execution image, the target
and the trace are a parameter, since no write looks inside them.

`DecodesTo` inverts `documentToRecord` once: it lists what the fields of a document
are when it decodes to a record. All later arguments about documents go through it.
-/

namespace Skiff.Task

variable {Target : Type}

/-! ## Decoding -/

def invalidRecord (taskId : TaskId) (message : String) : TaskStoreError :=
  .invalidRecord taskId message

/-- The serde side of the document format. -/
structure DocumentCodec (Target : Type) where
  encodeExecution : TaskExecutionImageRef → Except String Document
  targetDocument : TaskId → Target → Except TaskStoreError Document
  encodeTrace : TaskTraceContext → Except String Document
  decodeExecution : Document → Except String TaskExecutionImageRef
  decodeTarget : TaskId → Document → Except TaskStoreError Target
  decodeTrace : Document → Except String TaskTraceContext

/-- A required field of a given type; the message names the type and the field. -/
def getField {α : Type} (cast : Bson → Option α) (kind : String) (taskId : TaskId)
    (document : Document) (key : String) : Except TaskStoreError α :=
  match (document.get? key).bind cast with
  | some value => .ok value
  | none => .error (invalidRecord taskId s!"missing {kind} {key}")

def getString := getField Bson.asStr "string"
def getI64 := getField Bson.asI64 "i64"
def getDatetime := getField Bson.asDatetime "datetime"
def getBinary := getField Bson.asBinary "binary"
def getDocument := getField Bson.asDocument "document"

/-- A serde decode, with the error text of the source. -/
def decodeWith {α : Type} (decode : Document → Except String α) (what : String)
    (taskId : TaskId) (document : Document) : Except TaskStoreError α :=
  match decode document with
  | .ok value => .ok value
  | .error error => .error (invalidRecord taskId s!"{what} decode: {error}")

/-- An optional sub-document: anything that is not a document counts as absent. -/
def decodeOptional {α : Type} (decode : Document → Except TaskStoreError α) (value : Option Bson) :
    Except TaskStoreError (Option α) :=
  match value.bind Bson.asDocument with
  | none => .ok none
  | some sub => (decode sub).map some

def decodeState (taskId : TaskId) (document : Document) : Except TaskStoreError TaskState := do
  match ← getString taskId document "state" with
  | "scheduled" => return .scheduled
  | "ready" => return .ready
  | "leased" => return .leased
  | "succeeded" => return .succeeded
  | "failed" => return .failed
  | "platformFailed" => return .platformFailed
  | "canceled" => return .canceled
  | other => .error (invalidRecord taskId s!"unknown task state {other.quote}")

def decodeLease (taskId : TaskId) (document : Document) : Except TaskStoreError TaskLease := do
  let leaseId ← getString taskId document "leaseId"
  let attemptId ← getString taskId document "attemptId"
  let owner ← getString taskId document "owner"
  let expiry ← getDatetime taskId document "expiry"
  return ⟨⟨leaseId⟩, ⟨attemptId⟩, owner, expiry⟩

def decodeOutcome (taskId : TaskId) (document : Document) : Except TaskStoreError TaskOutcome := do
  match ← getString taskId document "kind" with
  | "succeeded" => return .succeeded
  | "targetFailed" => return .targetFailed (← getString taskId document "error")
  | "platformFailed" => return .platformFailed (← getString taskId document "reason")
  | "canceled" => return .canceled
  | other => .error (invalidRecord taskId s!"unknown terminal outcome kind {other.quote}")

def decodeTerminal (taskId : TaskId) (document : Document) :
    Except TaskStoreError TaskTerminal := do
  let outcomeDocument ← getDocument taskId document "outcome"
  let outcome ← decodeOutcome taskId outcomeDocument
  let settledAt ← getDatetime taskId document "settledAt"
  return ⟨settledAt, outcome⟩

def decodeTestCase (taskId : TaskId) (document : Document) :
    Except TaskStoreError TaskTestCaseAuthority := do
  let testCaseCapability ← getString taskId document "testCaseCapability"
  let parentRequestId ← getString taskId document "parentRequestId"
  let originRuntimeId ← getString taskId document "originRuntimeId"
  let originConnectionGeneration ← getI64 taskId document "originConnectionGeneration"
  return ⟨testCaseCapability, parentRequestId, originRuntimeId, originConnectionGeneration.toNat⟩

def getId (document : Document) : Except TaskStoreError String :=
  match (document.get? "_id").bind Bson.asStr with
  | some value => .ok value
  | none => .error (.invalidRecord ⟨"?"⟩ "missing _id")

/-- The signed generation in the document is reread as unsigned. -/
def documentToRecord (codec : DocumentCodec Target) (document : Document) :
    Except TaskStoreError (TaskRecord Target) := do
  let id ← getId document
  let taskId : TaskId := ⟨id⟩
  let owner ← getString taskId document "owner"
  let execution ← decodeWith codec.decodeExecution "execution" taskId
    (← getDocument taskId document "execution")
  let target ← codec.decodeTarget taskId (← getDocument taskId document "target")
  let payload ← getBinary taskId document "payload"
  let dueAt ← getDatetime taskId document "dueAt"
  let state ← decodeState taskId document
  let attemptGeneration ← getI64 taskId document "attemptGeneration"
  let activeLease ← decodeOptional (decodeLease taskId) (document.get? "activeLease")
  let terminal ← decodeOptional (decodeTerminal taskId) (document.get? "terminal")
  let trace ← decodeWith codec.decodeTrace "trace" taskId (← getDocument taskId document "trace")
  let createdAt ← getDatetime taskId document "createdAt"
  let retryNotBefore := (document.get? "retryNotBefore").bind Bson.asDatetime
  let testCase ← decodeOptional (decodeTestCase taskId) (document.get? "testCase")
  return {
    taskId, owner := ⟨owner⟩, execution, target, payload := ⟨payload⟩, dueAt, state
    attemptGeneration := attemptGeneration.toNat, activeLease, terminal, trace, createdAt
    retryNotBefore, testCase }

/-! ## What a document that decodes looks like -/

theorem getField_eq_ok {α : Type} {cast : Bson → Option α} {kind : String} {taskId : TaskId}
    {d : Document} {key : String} {value : α} :
    getField cast kind taskId d key = .ok value ↔ ∃ b, d.get? key = some b ∧
    cast b = some value := by
  unfold getField
  cases hget : (d.get? key).bind cast with
  | none =>
    simp only [reduceCtorEq, false_iff]
    rintro ⟨b, hb, hcast⟩
    simp [hb, hcast] at hget
  | some found =>
    obtain ⟨b, hb, hcast⟩ := Option.bind_eq_some_iff.mp hget
    simp [hb, hcast]

section Fields

variable {taskId : TaskId} {d : Document} {key : String}

theorem getString_eq_ok {value : String} :
    getString taskId d key = .ok value ↔ d.get? key = some (.string value) := by
  simp [getString, getField_eq_ok, Bson.asStr_eq_some]

theorem getI64_eq_ok {value : BitVec 64} :
    getI64 taskId d key = .ok value ↔ d.get? key = some (.int64 value) := by
  simp [getI64, getField_eq_ok, Bson.asI64_eq_some]

theorem getDatetime_eq_ok {value : Int} :
    getDatetime taskId d key = .ok value ↔ d.get? key = some (.datetime value) := by
  simp [getDatetime, getField_eq_ok, Bson.asDatetime_eq_some]

theorem getBinary_eq_ok {value : List UInt8} :
    getBinary taskId d key = .ok value ↔ d.get? key = some (.binary value) := by
  simp [getBinary, getField_eq_ok, Bson.asBinary_eq_some]

theorem getDocument_eq_ok {value : Document} :
    getDocument taskId d key = .ok value ↔ d.get? key = some (.document value) := by
  simp [getDocument, getField_eq_ok, Bson.asDocument_eq_some]

theorem getId_eq_ok {value : String} :
    getId d = .ok value ↔ d.get? "_id" = some (.string value) := by
  unfold getId
  cases hget : (d.get? "_id").bind Bson.asStr with
  | none =>
    simp only [reduceCtorEq, false_iff]
    intro hd
    simp [hd, Bson.asStr] at hget
  | some found =>
    obtain ⟨b, hb, hcast⟩ := Option.bind_eq_some_iff.mp hget
    rw [Bson.asStr_eq_some] at hcast
    simp [hb, hcast]

theorem decodeWith_eq_ok {α : Type} {decode : Document → Except String α} {what : String}
    {value : α} : decodeWith decode what taskId d = .ok value ↔ decode d = .ok value := by
  unfold decodeWith
  cases decode d <;> simp

theorem decodeState_eq_ok {state : TaskState} :
    decodeState taskId d = .ok state ↔ d.get? "state" = some (.string state.asStr) := by
  unfold decodeState
  rw [bind_eq_ok]
  simp only [getString_eq_ok]
  constructor
  · rintro ⟨text, htext, hstate⟩
    rw [htext]
    split at hstate <;> cases hstate <;> rfl
  intro hd
  refine ⟨_, hd, ?_⟩
  cases state <;> rfl

end Fields

/-- What the fields of a document are when it decodes to `record`. -/
structure DecodesTo (codec : DocumentCodec Target) (d : Document) (record : TaskRecord Target) :
    Prop where
  taskId : d.get? "_id" = some (.string record.taskId.value)
  owner : d.get? "owner" = some (.string record.owner.value)
  execution : ∃ sub, d.get? "execution" = some (.document sub) ∧
    codec.decodeExecution sub = .ok record.execution
  target : ∃ sub, d.get? "target" = some (.document sub) ∧
    codec.decodeTarget record.taskId sub = .ok record.target
  payload : d.get? "payload" = some (.binary record.payload.bytes)
  dueAt : d.get? "dueAt" = some (.datetime record.dueAt)
  state : d.get? "state" = some (.string record.state.asStr)
  attemptGeneration : ∃ value, d.get? "attemptGeneration" = some (.int64 value) ∧
    value.toNat = record.attemptGeneration
  activeLease : decodeOptional (decodeLease record.taskId) (d.get? "activeLease") =
    .ok record.activeLease
  terminal : decodeOptional (decodeTerminal record.taskId) (d.get? "terminal") = .ok record.terminal
  trace : ∃ sub, d.get? "trace" = some (.document sub) ∧ codec.decodeTrace sub = .ok record.trace
  createdAt : d.get? "createdAt" = some (.datetime record.createdAt)
  retryNotBefore : (d.get? "retryNotBefore").bind Bson.asDatetime = record.retryNotBefore
  testCase : decodeOptional (decodeTestCase record.taskId) (d.get? "testCase") = .ok record.testCase

theorem documentToRecord_eq_ok {codec : DocumentCodec Target} {d : Document}
    {record : TaskRecord Target} :
    documentToRecord codec d = .ok record ↔ DecodesTo codec d record := by
  simp only [documentToRecord, bind_eq_ok, getId_eq_ok, getString_eq_ok, getDocument_eq_ok,
    getBinary_eq_ok, getDatetime_eq_ok, getI64_eq_ok, decodeState_eq_ok, decodeWith_eq_ok]
  constructor
  · rintro ⟨id, hid, owner, howner, execSub, hexecSub, execution, hexec, targetSub, htargetSub,
      target, htarget, payload, hpayload, dueAt, hdue, state, hstate, generation, hgeneration,
      lease, hlease, terminal, hterminal, traceSub, htraceSub, trace, htrace, createdAt, hcreated,
      testCase, htest, hrecord⟩
    cases hrecord
    exact ⟨hid, howner, ⟨_, hexecSub, hexec⟩, ⟨_, htargetSub, htarget⟩, hpayload, hdue, hstate,
      ⟨_, hgeneration, rfl⟩, hlease, hterminal, ⟨_, htraceSub, htrace⟩, hcreated, rfl, htest⟩
  intro h
  obtain ⟨execSub, hexecSub, hexec⟩ := h.execution
  obtain ⟨targetSub, htargetSub, htarget⟩ := h.target
  obtain ⟨traceSub, htraceSub, htrace⟩ := h.trace
  obtain ⟨generation, hgeneration, hnat⟩ := h.attemptGeneration
  refine ⟨_, h.taskId, _, h.owner, _, hexecSub, _, hexec, _, htargetSub, _, htarget, _, h.payload,
    _, h.dueAt, _, h.state, _, hgeneration, _, h.activeLease, _, h.terminal, _, htraceSub, _,
    htrace, _, h.createdAt, _, h.testCase, ?_⟩
  rw [h.retryNotBefore, hnat]
  rfl

/-! ## The conditional writes -/

namespace Mongo

def leaseDocument (lease : TaskLease) : Document :=
  [("leaseId", .string lease.leaseId.value), ("attemptId", .string lease.attemptId.value),
    ("owner", .string lease.owner), ("expiry", .datetime lease.expiry)]

/-- `terminal_outcome_document`; all its fields are texts. -/
def terminalOutcomeDocument : TaskOutcome → List (String × String)
  | .succeeded => [("kind", "succeeded")]
  | .targetFailed error => [("kind", "targetFailed"), ("error", error)]
  | .platformFailed reason => [("kind", "platformFailed"), ("reason", reason)]
  | .canceled => [("kind", "canceled")]

/-- The paths that a `$set` of `terminal` in a pipeline computes. -/
def terminalPaths (outcome : TaskOutcome) : List (List String × String) :=
  (terminalOutcomeDocument outcome).map (fun field => (["terminal", "outcome", field.1], field.2))
    ++ [(["terminal", "settledAt"], "$$NOW")]

/-- The outcome document as a BSON value. -/
def outcomeFields (outcome : TaskOutcome) : Document :=
  (terminalOutcomeDocument outcome).map fun field => (field.1, .string field.2)

def terminalDocument (terminal : TaskTerminal) : Document :=
  [("settledAt", .datetime terminal.settledAt),
    ("outcome", .document (outcomeFields terminal.outcome))]

def testCaseDocument (authority : TaskTestCaseAuthority) : Document :=
  [("testCaseCapability", .string authority.testCaseCapability),
    ("parentRequestId", .string authority.parentRequestId),
    ("originRuntimeId", .string authority.originRuntimeId),
    ("originConnectionGeneration", .int64 (BitVec.ofNat 64 authority.originConnectionGeneration))]

/-- An absent option is stored as `null`. -/
def nullable {α : Type} (encode : α → Bson) : Option α → Bson
  | some value => encode value
  | none => .null

/-- A serde encode, with the error text of the source. -/
def encodeWith {α : Type} (encode : α → Except String Document) (what : String) (taskId : TaskId)
    (value : α) : Except TaskStoreError Document :=
  match encode value with
  | .ok document => .ok document
  | .error error => .error (invalidRecord taskId s!"{what} encode: {error}")

def recordDocument (codec : DocumentCodec Target) (record : TaskRecord Target) :
    Except TaskStoreError Document := do
  let execution ← encodeWith codec.encodeExecution "execution" record.taskId record.execution
  let target ← codec.targetDocument record.taskId record.target
  let trace ← encodeWith codec.encodeTrace "trace" record.taskId record.trace
  return [("_id", .string record.taskId.value), ("owner", .string record.owner.value),
    ("execution", .document execution), ("target", .document target),
    ("payload", .binary record.payload.bytes), ("dueAt", .datetime record.dueAt),
    ("state", .string record.state.asStr),
    ("attemptGeneration", .int64 (BitVec.ofNat 64 record.attemptGeneration)),
    ("activeLease", nullable (fun lease => .document (leaseDocument lease)) record.activeLease),
    ("terminal", nullable (fun terminal => .document (terminalDocument terminal)) record.terminal),
    ("trace", .document trace), ("createdAt", .datetime record.createdAt),
    ("retryNotBefore", nullable .datetime record.retryNotBefore),
    ("testCase", nullable (fun authority => .document (testCaseDocument authority))
      record.testCase)]

variable [DocumentServer]

def dueNow : Clause := .expr .lte (.field ["dueAt"]) .now
def leaseUnexpired : Clause := .expr .gt (.field ["activeLease", "expiry"]) .now

def claimFilter (input : ClaimInput) : List Clause :=
  [.equals ["_id"] input.taskId.value, .equals ["state"] "ready", dueNow,
    .expr .gt (.date input.leaseExpiry) .now]

def claimUpdate (lease : TaskLease) : Update :=
  .modifiers
    [.set ["state"] (.string "leased"), .set ["activeLease"] (.document (leaseDocument lease)),
    .inc "attemptGeneration"]

/-- The write of `claim_once`. An image that cannot be activated is turned away
before any write. -/
def claimWrite (now : DurableUtcTimestamp) (input : ClaimInput) (attemptId : AttemptId)
    (leaseId : LeaseId) (document : Document) : WriteResult :=
  if !input.imageActivatable then .unmatched
  else findOneAndUpdate now (claimFilter input)
    (claimUpdate ⟨leaseId, attemptId, input.owner, input.leaseExpiry⟩) document

def renewWrite (now : DurableUtcTimestamp) (input : RenewInput) : Document → WriteResult :=
  findOneAndUpdate now
    [.equals ["_id"] input.taskId.value, .equals ["state"] "leased",
      .equals ["activeLease", "leaseId"] input.leaseId.value, leaseUnexpired,
      .expr .gt (.date input.newExpiry) .now]
    (.modifiers [.set ["activeLease", "expiry"] (.datetime input.newExpiry)])

/-- The write of `settle_once`. It is a pipeline, so the texts of the outcome are
expressions here. -/
def settleWrite (now : DurableUtcTimestamp) (input : SettleInput) : Document → WriteResult :=
  findOneAndUpdate now
    [.equals ["_id"] input.taskId.value, .equals ["state"] "leased",
      .equals ["activeLease", "leaseId"] input.leaseId.value, leaseUnexpired]
    (.pipeline
      [.set ((["state"], input.terminal.state.asStr) :: terminalPaths input.terminal.outcome),
      .unset "activeLease"])

def cancelWrite (now : DurableUtcTimestamp) (input : CancelInput) : Document → WriteResult :=
  findOneAndUpdate now
    [.equals ["_id"] input.taskId.value, .isIn ["state"] ["scheduled", "ready"]]
    (.pipeline [.set ((["state"], "canceled") :: terminalPaths .canceled)])

/-- Back to `ready`: recovery and release share their update. -/
def readyUpdate (retryNotBefore : DurableUtcTimestamp) : Update :=
  .modifiers [.set ["state"] (.string "ready"), .max "retryNotBefore" retryNotBefore,
    .unset "activeLease"]

def recoverWrite (now : DurableUtcTimestamp) (input : LeaseRecoveryInput) :
    Document → WriteResult :=
  findOneAndUpdate now
    [.equals ["_id"] input.taskId.value, .equals ["state"] "leased",
      .expr .lte (.field ["activeLease", "expiry"]) .now]
    (readyUpdate input.retryNotBefore)

def releaseWrite (now : DurableUtcTimestamp) (input : ReleaseInput) : Document → WriteResult :=
  findOneAndUpdate now
    [.equals ["_id"] input.taskId.value, .equals ["state"] "leased",
      .equals ["activeLease", "leaseId"] input.leaseId.value, leaseUnexpired]
    (readyUpdate input.retryNotBefore)

/-- `update_many` of `scan_due_once`, on one document of the collection. -/
def scanDueWrite (now : DurableUtcTimestamp) : Document → WriteResult :=
  findOneAndUpdate now [.equals ["state"] "scheduled", dueNow]
    (.modifiers [.set ["state"] (.string "ready")])

end Mongo

end Skiff.Task
