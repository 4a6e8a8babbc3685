import Skiff.Data.Prog
import Skiff.Task.Invariant

/-!
# Scheduler replicas

The loops of `task-control/src/scheduler/mod.rs` as programs over four kinds of
operation: a store call, an admission, a jitter draw and an atomic section on the
replica's own table of active leases. A replica that is not in a loop may begin
one; every other step performs one operation of one replica, or one call of some
other client of the same store.

A store call can end in three ways for its caller: the reply is delivered, the
call fails before it has any effect, or it takes effect and the caller only sees
an error. Nothing orders the clock values at which calls run.
-/

namespace Skiff.Task

open DurableUtcTimestamp

/-- `AdmissionDecision`; the reasons of the two non-permanent refusals are not
looked at. -/
inductive AdmissionDecision where
  | accepted
  | rejectedProvable
  | uncertain
  | permanentFailure (reason : String)

structure SchedulerConfig where
  schedulerId : String
  batchLimit : Nat
  leaseDuration : DurableDuration
  imageActivatable : Bool

/-! ## Backoff -/

/-- `i64` saturation. -/
def saturate (value : Int) : Int := max i64Min (min value i64Max)

structure RetryBackoffPolicy where
  base : DurableDuration
  max : DurableDuration
  jitterSpan : DurableDuration

/-- `RetryBackoffPolicy::delay_millis`, with the drawn jitter as an argument. -/
def RetryBackoffPolicy.delayMillis (policy : RetryBackoffPolicy) (attemptGeneration : Nat)
    (jitter : Int) : Int :=
  let exponent := min (attemptGeneration - 1) 62
  let doubled := saturate (policy.base * 2 ^ exponent)
  let capped := min doubled policy.max
  saturate (capped + jitter)

/-! ## The loops -/

abbrev LeaseTable := OrdMap TaskId TaskLease

/-- An order in which the hash map of the leases yields its entries. -/
structure LeaseOrder where
  entries : LeaseTable → List (TaskId × TaskLease)
  perm (table : LeaseTable) : (entries table).Perm table.entries

inductive SchedulerOp (Target : Type) where
  | store (call : StoreCall Target)
  | admission (record : TaskRecord Target)
  | jitter (span : DurableDuration)
  | leases (update : LeaseTable → LeaseTable)

/-- A section on the lease table answers with the table it found. -/
def SchedulerOp.Answer {Target : Type} : SchedulerOp Target → Type
  | .store _ => Except TaskStoreError (StoreReply Target)
  | .admission _ => AdmissionDecision
  | .jitter _ => Int
  | .leases _ => LeaseTable

abbrev SchedulerProg (Target : Type) (α : Type) := Prog (SchedulerOp Target) SchedulerOp.Answer α

namespace Scheduler

variable {Target : Type} (config : SchedulerConfig) (backoff : RetryBackoffPolicy)

def callStore (call : StoreCall Target) :
    SchedulerProg Target (Except TaskStoreError (StoreReply Target)) :=
  Prog.perform (SchedulerOp.store call)

/-- `AttemptAdmission` of a claimed record. -/
def requestAdmission (record : TaskRecord Target) : SchedulerProg Target AdmissionDecision :=
  Prog.perform (SchedulerOp.admission record)

def updateLeases (update : LeaseTable → LeaseTable) : SchedulerProg Target LeaseTable :=
  Prog.perform (SchedulerOp.leases update : SchedulerOp Target)

/-- `delay_millis` draws its jitter and returns the delay. -/
def drawDelay (attemptGeneration : Nat) : SchedulerProg Target Int := do
  let jitter : Int ← Prog.perform (SchedulerOp.jitter backoff.jitterSpan : SchedulerOp Target)
  return backoff.delayMillis attemptGeneration jitter

def removeActiveLeaseIf (taskId : TaskId) (leaseId : LeaseId) : SchedulerProg Target Unit := do
  let _ ← updateLeases fun table =>
    if (table.get? taskId).any (·.leaseId = leaseId) then table.erase taskId else table
  return ()

def handleDecision (record : TaskRecord Target) (decision : AdmissionDecision)
    (now : DurableUtcTimestamp) : SchedulerProg Target Unit :=
  match decision with
  | .accepted =>
    match record.activeLease with
    | none => return ()
    | some lease => do
      let _ ← updateLeases fun table => table.insert record.taskId lease
      return ()
  | .rejectedProvable =>
    match record.activeLease with
    | none => return ()
    | some lease => do
      let delay ← drawDelay backoff record.attemptGeneration
      match checkedAddMillis now delay with
      | none => return ()
      | some retryNotBefore => do
        let _ ← callStore (.release ⟨record.taskId, lease.leaseId, retryNotBefore⟩)
        removeActiveLeaseIf record.taskId lease.leaseId
  | .uncertain => return ()
  | .permanentFailure reason =>
    match record.activeLease with
    | none => return ()
    | some lease => do
      let _ ← callStore (.settle ⟨record.taskId, lease.leaseId, ⟨now, .platformFailed reason⟩⟩)
      removeActiveLeaseIf record.taskId lease.leaseId

/-- The body of the due scan over the records it was given. The backoff is filtered
on these records, not on what the store holds when the claim arrives. -/
def scanLoop (now : DurableUtcTimestamp) : List (TaskRecord Target) → SchedulerProg Target Unit
  | [] => return ()
  | record :: rest =>
    if record.state ≠ .ready then scanLoop now rest
    else if record.retryNotBefore.any (· > now) then scanLoop now rest
    else if !config.imageActivatable then scanLoop now rest
    else
      match checkedAddMillis now config.leaseDuration with
      | none => scanLoop now rest
      | some leaseExpiry => do
        let result ← callStore
          (.claim ⟨record.taskId, config.schedulerId, leaseExpiry, config.imageActivatable⟩)
        match result with
        | .ok (.claim (.claimed claimed)) => do
          let decision ← requestAdmission claimed
          handleDecision backoff claimed decision now
          scanLoop now rest
        | _ => scanLoop now rest

/-- `scan_once`: whether the scan filled its batch. -/
def scanOnce : SchedulerProg Target Bool := do
  match ← callStore .now with
  | .ok (.now now) =>
    match ← callStore (.scanDue ⟨config.batchLimit⟩) with
    | .ok (.records records) => do
      scanLoop config backoff now records
      return decide (config.batchLimit ≤ records.length)
    | _ => return false
  | _ => return false

def recoverLoop (now : DurableUtcTimestamp) : List (TaskRecord Target) → SchedulerProg Target Unit
  | [] => return ()
  | record :: rest =>
    if record.state ≠ .leased then recoverLoop now rest
    else
      match record.activeLease with
      | none => recoverLoop now rest
      | some lease => do
        let delay ← drawDelay backoff record.attemptGeneration
        match checkedAddMillis now delay with
        | none => recoverLoop now rest
        | some retryNotBefore => do
          match ← callStore (.recoverExpiredLease ⟨record.taskId, retryNotBefore⟩) with
          | .ok (.recovery (.recovered _)) => do
            removeActiveLeaseIf record.taskId lease.leaseId
            recoverLoop now rest
          | _ => recoverLoop now rest

def recoverOnce : SchedulerProg Target Unit := do
  match ← callStore .now with
  | .ok (.now now) =>
    match ← callStore (.scanExpiredLeases ⟨config.batchLimit⟩) with
    | .ok (.records records) => recoverLoop backoff now records
    | _ => return ()
  | _ => return ()

/-- A renewed lease is written back only if the table still holds that lease. A
rejected renewal drops it, except `invalidExpiry`. -/
def renewLoop (newExpiry : DurableUtcTimestamp) :
    List (TaskId × TaskLease) → SchedulerProg Target Unit
  | [] => return ()
  | (taskId, lease) :: rest => do
    match ← callStore (.renew ⟨taskId, lease.leaseId, newExpiry⟩) with
    | .ok (.renew (.renewed record)) =>
      match record.activeLease with
      | none => renewLoop newExpiry rest
      | some next => do
        let _ ← updateLeases fun table =>
          if (table.get? taskId).any (·.leaseId = lease.leaseId) then table.insert taskId next
          else table
        renewLoop newExpiry rest
    | .ok (.renew (.rejected .invalidExpiry)) => renewLoop newExpiry rest
    | .ok (.renew (.rejected _)) => do
      removeActiveLeaseIf taskId lease.leaseId
      renewLoop newExpiry rest
    | _ => renewLoop newExpiry rest

def renewActiveLeases (order : LeaseOrder) : SchedulerProg Target Unit := do
  match ← callStore .now with
  | .ok (.now now) =>
    match checkedAddMillis now config.leaseDuration with
    | none => return ()
    | some newExpiry => do
      let table ← updateLeases id
      renewLoop newExpiry (order.entries table)
  | _ => return ()

end Scheduler

end Skiff.Task
