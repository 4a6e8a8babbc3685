import Mathlib.Algebra.Order.Ring.Int
import Mathlib.Data.String.Basic

/-!
# The durable task record

The data of `task-control/src/model.rs` and the store inputs and outcomes of
`store.rs`. A task record is created `scheduled`, and every later transition is a
conditional write against its state and lease; the submission facts (execution
image, target, payload, trace, test-case authority) are frozen.

The detached-call target stays a type parameter: the store persists and compares
it, and no transition looks inside. Timestamps are epoch milliseconds. They are
integers here, and the one place where the width of `i64` is observable, the
checked addition used for lease expiries and retry delays, tests it explicitly.
-/

namespace Skiff.Task

structure TaskId where
  value : String

structure AttemptId where
  value : String
deriving DecidableEq

structure LeaseId where
  value : String
deriving DecidableEq

structure ServiceOwner where
  value : String
deriving DecidableEq

theorem TaskId.value_injective : Function.Injective TaskId.value := by
  rintro ⟨a⟩ ⟨b⟩ h
  cases h
  rfl

instance : LinearOrder TaskId := LinearOrder.lift' TaskId.value TaskId.value_injective

/-- Canonical UTC epoch timestamp in milliseconds. -/
abbrev DurableUtcTimestamp := Int

/-- Durable duration in milliseconds. -/
abbrev DurableDuration := Int

def i64Min : Int := -(2 ^ 63)
def i64Max : Int := 2 ^ 63 - 1

/-- `DurableUtcTimestamp::checked_add_millis`: `none` when the sum leaves `i64`. -/
def DurableUtcTimestamp.checkedAddMillis (t : DurableUtcTimestamp) (millis : Int) :
    Option DurableUtcTimestamp :=
  if i64Min ≤ t + millis ∧ t + millis ≤ i64Max then some (t + millis) else none

inductive TaskState where
  | scheduled
  | ready
  | leased
  | succeeded
  | failed
  | platformFailed
  | canceled
deriving DecidableEq

def TaskState.isTerminal : TaskState → Bool
  | .succeeded | .failed | .platformFailed | .canceled => true
  | .scheduled | .ready | .leased => false

def TaskState.asStr : TaskState → String
  | .scheduled => "scheduled"
  | .ready => "ready"
  | .leased => "leased"
  | .succeeded => "succeeded"
  | .failed => "failed"
  | .platformFailed => "platformFailed"
  | .canceled => "canceled"

/-- One valid execution attempt lease. Every settlement and heartbeat must carry
the current lease id. -/
structure TaskLease where
  leaseId : LeaseId
  attemptId : AttemptId
  owner : String
  expiry : DurableUtcTimestamp
deriving DecidableEq

inductive TaskOutcome where
  | succeeded
  | targetFailed (error : String)
  | platformFailed (reason : String)
  | canceled
deriving DecidableEq

def TaskOutcome.terminalState : TaskOutcome → TaskState
  | .succeeded => .succeeded
  | .targetFailed _ => .failed
  | .platformFailed _ => .platformFailed
  | .canceled => .canceled

@[simp] theorem TaskOutcome.isTerminal_terminalState (outcome : TaskOutcome) :
    outcome.terminalState.isTerminal = true := by
  cases outcome <;> rfl

structure TaskTerminal where
  settledAt : DurableUtcTimestamp
  outcome : TaskOutcome
deriving DecidableEq

def TaskTerminal.state (terminal : TaskTerminal) : TaskState := terminal.outcome.terminalState

/-- Two settlements are the same settlement when their outcomes agree; the time
at which they were made does not matter. -/
def TaskTerminal.sameOutcome (terminal other : TaskTerminal) : Bool :=
  terminal.outcome = other.outcome

structure TaskTraceContext where
  traceId : String
  spanId : Option String
deriving DecidableEq

structure ServiceDeploymentRef where
  serviceId : String
  contractVersion : String
  deploymentRevision : String
  deploymentArtifactIdentity : String
deriving DecidableEq

structure TaskExecutionImageRef where
  targetProfile : String
  packageVersion : String
  deployment : ServiceDeploymentRef
deriving DecidableEq

/-- Already-encoded payload bytes, never decoded by the store. -/
structure RecoverablePayload where
  bytes : List UInt8
deriving DecidableEq

structure TaskTestCaseAuthority where
  testCaseCapability : String
  parentRequestId : String
  originRuntimeId : String
  originConnectionGeneration : Nat
deriving DecidableEq

/-- The canonical task record. `retryNotBefore` is the scheduler-owned backoff
written by recovery and release; submission leaves it empty. -/
structure TaskRecord (Target : Type) where
  taskId : TaskId
  owner : ServiceOwner
  execution : TaskExecutionImageRef
  target : Target
  payload : RecoverablePayload
  dueAt : DurableUtcTimestamp
  state : TaskState
  attemptGeneration : Nat
  activeLease : Option TaskLease
  terminal : Option TaskTerminal
  trace : TaskTraceContext
  createdAt : DurableUtcTimestamp
  retryNotBefore : Option DurableUtcTimestamp
  testCase : Option TaskTestCaseAuthority
deriving DecidableEq

variable {Target : Type}

/-- `TaskRecord::validate_create`, with the messages of the source. -/
def TaskRecord.validateCreate (record : TaskRecord Target) : Except String Unit :=
  if record.state ≠ .scheduled then
    .error s!"task {record.taskId.value} must be created in scheduled state, found {record.state.asStr}"
  else if record.attemptGeneration ≠ 0 then
    .error s!"task {record.taskId.value} must start with attempt generation 0"
  else if record.activeLease.isSome then
    .error s!"task {record.taskId.value} cannot be created with an active lease"
  else if record.terminal.isSome then
    .error s!"task {record.taskId.value} cannot be created with a terminal"
  else if record.createdAt < 0 ∨ record.dueAt < 0 then
    .error s!"task {record.taskId.value} timestamps must be non-negative epoch millis"
  else .ok ()

theorem TaskRecord.validateCreate_ok {record : TaskRecord Target}
    (h : record.validateCreate = .ok ()) :
    record.state = .scheduled ∧ record.attemptGeneration = 0 ∧ record.activeLease = none ∧
      record.terminal = none ∧ 0 ≤ record.createdAt ∧ 0 ≤ record.dueAt := by
  unfold validateCreate at h
  split at h
  · cases h
  split at h
  · cases h
  split at h
  · cases h
  split at h
  · cases h
  split at h
  · cases h
  · simp_all

/-- The fields fixed at submission. Every transition must leave them alone. -/
structure TaskRecord.SameSubmission (record created : TaskRecord Target) : Prop where
  taskId : record.taskId = created.taskId
  owner : record.owner = created.owner
  execution : record.execution = created.execution
  target : record.target = created.target
  payload : record.payload = created.payload
  dueAt : record.dueAt = created.dueAt
  trace : record.trace = created.trace
  createdAt : record.createdAt = created.createdAt
  testCase : record.testCase = created.testCase

theorem TaskRecord.SameSubmission.refl (record : TaskRecord Target) :
    record.SameSubmission record :=
  ⟨rfl, rfl, rfl, rfl, rfl, rfl, rfl, rfl, rfl⟩

theorem TaskRecord.SameSubmission.trans {a b c : TaskRecord Target}
    (h₁ : a.SameSubmission b) (h₂ : b.SameSubmission c) : a.SameSubmission c :=
  ⟨h₁.taskId.trans h₂.taskId, h₁.owner.trans h₂.owner, h₁.execution.trans h₂.execution,
    h₁.target.trans h₂.target, h₁.payload.trans h₂.payload, h₁.dueAt.trans h₂.dueAt,
    h₁.trace.trans h₂.trace, h₁.createdAt.trans h₂.createdAt, h₁.testCase.trans h₂.testCase⟩

/-! ## Store inputs and outcomes -/

structure ClaimInput where
  taskId : TaskId
  owner : String
  leaseExpiry : DurableUtcTimestamp
  imageActivatable : Bool

structure RenewInput where
  taskId : TaskId
  leaseId : LeaseId
  newExpiry : DurableUtcTimestamp

structure SettleInput where
  taskId : TaskId
  leaseId : LeaseId
  terminal : TaskTerminal

structure CancelInput where
  taskId : TaskId

structure LeaseRecoveryInput where
  taskId : TaskId
  retryNotBefore : DurableUtcTimestamp

structure ReleaseInput where
  taskId : TaskId
  leaseId : LeaseId
  retryNotBefore : DurableUtcTimestamp

structure DueScanInput where
  limit : Nat

structure ScanExpiredLeasesInput where
  limit : Nat

inductive ClaimRejection where
  | notReady
  | notDue
  | notActivatable
  | alreadyLeased
  | terminal
  | notFound
  | invalidLeaseExpiry

inductive RenewRejection where
  | staleLease
  | expiredLease
  | invalidExpiry
  | notLeased
  | terminal
  | notFound

inductive CancelRejection where
  | alreadyStarted
  | alreadyTerminal

inductive RecoveryRejection where
  | notExpired
  | notLeased
  | terminal

inductive ReleaseRejection where
  | staleLease
  | expiredLease
  | notLeased
  | terminal

inductive ClaimOutcome (Target : Type) where
  | claimed (record : TaskRecord Target)
  | rejected (reason : ClaimRejection)

inductive RenewOutcome (Target : Type) where
  | renewed (record : TaskRecord Target)
  | rejected (reason : RenewRejection)

inductive SettleOutcome (Target : Type) where
  | settled (record : TaskRecord Target)
  | alreadySettled (record : TaskRecord Target)
  | conflict (record : TaskRecord Target)
  | staleLease
  | expiredLease
  | notLeased
  | notFound

/-- The reducer's settlement result; stores add the current record to it. -/
inductive SettleTransition (Target : Type) where
  | settled (record : TaskRecord Target)
  | alreadySettled
  | conflict
  | staleLease
  | expiredLease
  | notLeased

inductive TaskCancelResultKind where
  | canceled
  | alreadyStarted
  | alreadyTerminal
  | expired

inductive LeaseRecoveryOutcome (Target : Type) where
  | recovered (record : TaskRecord Target)
  | notExpired
  | notLeased
  | terminal
  | notFound

inductive ReleaseOutcome (Target : Type) where
  | released (record : TaskRecord Target)
  | staleLease
  | expiredLease
  | notLeased
  | terminal
  | notFound

/-- `TaskStoreError`; only `transient` is retryable. -/
inductive TaskStoreError where
  | duplicateTaskId (taskId : TaskId) (message : String)
  | casMismatch (taskId : TaskId) (message : String)
  | invalidRecord (taskId : TaskId) (message : String)
  | notFound (taskId : TaskId)
  | transient (message : String)
  | closed
deriving DecidableEq

def TaskStoreError.isRetryable : TaskStoreError → Bool
  | .transient _ => true
  | _ => false

end Skiff.Task
