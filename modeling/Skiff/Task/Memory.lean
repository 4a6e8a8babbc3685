import Mathlib.Data.List.Sort
import Skiff.Data.Mut
import Skiff.Data.OrdMap
import Skiff.Data.Run
import Skiff.Task.Reducer

/-!
# The in-memory task store

`MemoryTaskStore` of `task-control/src/memory.rs`: every operation first passes
`gate` and then runs its body under the write lock, so gates and bodies of
different callers may interleave, and a body is one atomic step. The body reads
the store clock once, inside the lock; the clock value is part of the event and
is not assumed monotone.

Attempt and lease ids come from an `IdSupply`. The memory adapter numbers them;
no result below depends on how they are chosen.

The second half projects a store step to a single task. `RecordStep` lists what
one event can do to one record, and is all that the later invariants use.
-/

namespace Skiff.Task

/-- The adapter's generator of attempt and lease ids. -/
structure IdSupply where
  attempt : Nat → AttemptId
  lease : Nat → LeaseId

def memoryIds : IdSupply where
  attempt n := ⟨s!"attempt-{n}"⟩
  lease n := ⟨s!"lease-{n}"⟩

structure MemoryState (Target : Type) where
  records : OrdMap TaskId (TaskRecord Target)
  nextAttempt : Nat
  nextLease : Nat
  transientFailures : Nat
  closed : Bool

/-- The operations of the `TaskStore` trait that read or write records. -/
inductive StoreCall (Target : Type) where
  | now
  | create (record : TaskRecord Target)
  | claim (input : ClaimInput)
  | renew (input : RenewInput)
  | settle (input : SettleInput)
  | cancel (input : CancelInput)
  | recoverExpiredLease (input : LeaseRecoveryInput)
  | release (input : ReleaseInput)
  | scanDue (input : DueScanInput)
  | scanExpiredLeases (input : ScanExpiredLeasesInput)

inductive StoreReply (Target : Type) where
  | now (value : DurableUtcTimestamp)
  | created (record : TaskRecord Target)
  | claim (outcome : ClaimOutcome Target)
  | renew (outcome : RenewOutcome Target)
  | settle (outcome : SettleOutcome Target)
  | cancel (kind : TaskCancelResultKind)
  | recovery (outcome : LeaseRecoveryOutcome Target)
  | release (outcome : ReleaseOutcome Target)
  | records (records : List (TaskRecord Target))
  | error (error : TaskStoreError)

def StoreReply.ofCreate {Target : Type} :
    Except TaskStoreError (TaskRecord Target) → StoreReply Target
  | .ok record => .created record
  | .error failure => .error failure

namespace MemoryState

variable {Target : Type}

def empty : MemoryState Target := ⟨∅, 0, 0, 0, false⟩

/-- Write one record; the counters and flags stay. -/
def put (s : MemoryState Target) (id : TaskId) (record : TaskRecord Target) : MemoryState Target :=
  { s with records := s.records.insert id record }

@[simp] theorem get?_put (s : MemoryState Target) (id j : TaskId) (record : TaskRecord Target) :
    (s.put id record).records.get? j = if j = id then some record else s.records.get? j :=
  s.records.get?_insert id j record

def gate (s : MemoryState Target) : Except TaskStoreError Unit × MemoryState Target :=
  if s.closed then (.error .closed, s)
  else if s.transientFailures > 0 then
    (.error (.transient "injected transient task store failure"),
      { s with transientFailures := s.transientFailures - 1 })
  else (.ok (), s)

def failNextTransient (s : MemoryState Target) (count : Nat) : MemoryState Target :=
  { s with transientFailures := count }

def close (s : MemoryState Target) : MemoryState Target := { s with closed := true }

section Operations

variable [DecidableEq Target]

def create (s : MemoryState Target) (record : TaskRecord Target) :
    Except TaskStoreError (TaskRecord Target) × MemoryState Target :=
  match record.validateCreate with
  | .error message => (.error (.invalidRecord record.taskId message), s)
  | .ok () =>
    match s.records.get? record.taskId with
    | some existing =>
      if existing = record then (.ok existing, s)
      else (.error (.duplicateTaskId record.taskId
        "same TaskId with a different canonical record"), s)
    | none => (.ok record, s.put record.taskId record)

end Operations

def claim (ids : IdSupply) (s : MemoryState Target) (now : DurableUtcTimestamp)
    (input : ClaimInput) : ClaimOutcome Target × MemoryState Target :=
  match s.records.get? input.taskId with
  | none => (.rejected .notFound, s)
  | some record =>
    -- the counters advance for rejected claims too
    let bumped := { s with nextAttempt := s.nextAttempt + 1, nextLease := s.nextLease + 1 }
    match Task.claim record input now (ids.attempt s.nextAttempt) (ids.lease s.nextLease) with
    | .ok next => (.claimed next, bumped.put input.taskId next)
    | .error rejection => (.rejected rejection, bumped)

def renew (s : MemoryState Target) (now : DurableUtcTimestamp) (input : RenewInput) :
    Except Panic (RenewOutcome Target × MemoryState Target) :=
  match s.records.get? input.taskId with
  | none => .ok (.rejected .notFound, s)
  | some record => do
    match ← Task.renew record input now with
    | .ok next => return (.renewed next, s.put input.taskId next)
    | .error rejection => return (.rejected rejection, s)

def settle (s : MemoryState Target) (now : DurableUtcTimestamp) (input : SettleInput) :
    Except Panic (SettleOutcome Target × MemoryState Target) :=
  match s.records.get? input.taskId with
  | none => .ok (.notFound, s)
  | some record => do
    match ← Task.settle record input now with
    | .settled next => return (.settled next, s.put input.taskId next)
    | .alreadySettled => return (.alreadySettled record, s)
    | .conflict => return (.conflict record, s)
    | .staleLease => return (.staleLease, s)
    | .expiredLease => return (.expiredLease, s)
    | .notLeased => return (.notLeased, s)

def cancel (s : MemoryState Target) (now : DurableUtcTimestamp) (input : CancelInput) :
    TaskCancelResultKind × MemoryState Target :=
  match s.records.get? input.taskId with
  | none => (.expired, s)
  | some record =>
    match Task.cancel record now with
    | .ok next => (.canceled, s.put input.taskId next)
    | .error .alreadyStarted => (.alreadyStarted, s)
    | .error .alreadyTerminal => (.alreadyTerminal, s)

def recoverExpiredLease (s : MemoryState Target) (now : DurableUtcTimestamp)
    (input : LeaseRecoveryInput) :
    Except Panic (LeaseRecoveryOutcome Target × MemoryState Target) :=
  match s.records.get? input.taskId with
  | none => .ok (.notFound, s)
  | some record => do
    match ← Task.recoverExpiredLease record now input.retryNotBefore with
    | .ok next => return (.recovered next, s.put input.taskId next)
    | .error .notExpired => return (.notExpired, s)
    | .error .notLeased => return (.notLeased, s)
    | .error .terminal => return (.terminal, s)

def release (s : MemoryState Target) (now : DurableUtcTimestamp) (input : ReleaseInput) :
    Except Panic (ReleaseOutcome Target × MemoryState Target) :=
  match s.records.get? input.taskId with
  | none => .ok (.notFound, s)
  | some record => do
    match ← Task.release record input now with
    | .ok next => return (.released next, s.put input.taskId next)
    | .error .staleLease => return (.staleLease, s)
    | .error .expiredLease => return (.expiredLease, s)
    | .error .notLeased => return (.notLeased, s)
    | .error .terminal => return (.terminal, s)

/-- One iteration of the scan loop: advance the record when it is due. -/
def scanRecord (now : DurableUtcTimestamp) (record : TaskRecord Target) : TaskRecord Target :=
  (advanceDue record now).getD record

def scanDue (s : MemoryState Target) (now : DurableUtcTimestamp) (input : DueScanInput) :
    List (TaskRecord Target) × MemoryState Target :=
  let records := s.records.map (scanRecord now)
  let due := records.values.filter fun record => record.state = .ready ∧ record.dueAt ≤ now
  ((due.insertionSort fun a b => a.dueAt ≤ b.dueAt).take input.limit, { s with records := records })

/-- The sort key of `scanExpiredLeases`. -/
def leaseExpiry (record : TaskRecord Target) : DurableUtcTimestamp :=
  (record.activeLease.map (·.expiry)).getD 0

def scanExpiredLeases (s : MemoryState Target) (now : DurableUtcTimestamp)
    (input : ScanExpiredLeasesInput) : List (TaskRecord Target) :=
  let expired := s.records.values.filter fun record =>
    record.state = .leased ∧ record.activeLease.any fun lease => lease.expiry ≤ now
  (expired.insertionSort fun a b => leaseExpiry a ≤ leaseExpiry b).take input.limit

/-- The body of one store call, at one reading of the store clock. -/
def exec [DecidableEq Target] (ids : IdSupply) (s : MemoryState Target)
    (now : DurableUtcTimestamp) : StoreCall Target →
    Except Panic (StoreReply Target × MemoryState Target)
  | .now => .ok (.now now, s)
  | .create record => .ok ((s.create record).map StoreReply.ofCreate id)
  | .claim input => .ok ((s.claim ids now input).map .claim id)
  | .renew input => (s.renew now input).map (Prod.map .renew id)
  | .settle input => (s.settle now input).map (Prod.map .settle id)
  | .cancel input => .ok ((s.cancel now input).map .cancel id)
  | .recoverExpiredLease input => (s.recoverExpiredLease now input).map (Prod.map .recovery id)
  | .release input => (s.release now input).map (Prod.map .release id)
  | .scanDue input => .ok ((s.scanDue now input).map .records id)
  | .scanExpiredLeases input => .ok (.records (s.scanExpiredLeases now input), s)

end MemoryState

/-- A submission due at 10, with nothing in its payload. -/
def sampleRecord : TaskRecord Unit where
  taskId := ⟨"task-1"⟩
  owner := ⟨"svc-1"⟩
  execution := ⟨"prod", "1.0.0", ⟨"svc-1", "1.0.0", "revision-1", "deployment-identity"⟩⟩
  target := ()
  payload := ⟨[]⟩
  dueAt := 10
  state := .scheduled
  attemptGeneration := 0
  activeLease := none
  terminal := none
  trace := ⟨"trace-1", none⟩
  createdAt := 1
  retryNotBefore := none
  testCase := none

/-- What an observer of the store sees, one atomic step each. -/
inductive StoreEvent (Target : Type) where
  | gate (result : Except TaskStoreError Unit)
  | failNextTransient (count : Nat)
  | close
  | body (now : DurableUtcTimestamp) (call : StoreCall Target) (reply : StoreReply Target)

/-- One atomic step of the store. A body may follow any gate: which caller passed
which gate is not tracked, so every interleaving of callers is covered. -/
inductive StoreStep {Target : Type} [DecidableEq Target] (ids : IdSupply) :
    MemoryState Target → StoreEvent Target → MemoryState Target → Prop where
  | gate {s result t} : s.gate = (result, t) → StoreStep ids s (.gate result) t
  | failNextTransient (s count) :
      StoreStep ids s (.failNextTransient count) (s.failNextTransient count)
  | close (s) : StoreStep ids s .close s.close
  | body {s now call reply t} : s.exec ids now call = .ok (reply, t) →
      StoreStep ids s (.body now call reply) t

/-- Run the bodies of the listed calls one after another. -/
def MemoryState.replay {Target : Type} [DecidableEq Target] (ids : IdSupply)
    (s : MemoryState Target) : List (DurableUtcTimestamp × StoreCall Target) →
    Except Panic (List (StoreEvent Target) × MemoryState Target)
  | [] => .ok ([], s)
  | (now, call) :: rest =>
    match s.exec ids now call with
    | .error panic => .error panic
    | .ok (reply, t) =>
      match t.replay ids rest with
      | .error panic => .error panic
      | .ok (history, u) => .ok (.body now call reply :: history, u)

variable {Target : Type} {ids : IdSupply} {s t : MemoryState Target}

theorem MemoryState.replay_run [DecidableEq Target]
    {calls : List (DurableUtcTimestamp × StoreCall Target)} {history : List (StoreEvent Target)}
    (h : s.replay ids calls = .ok (history, t)) :
    Run (StoreStep ids) s history t := by
  induction calls generalizing s history with
  | nil =>
    cases h
    exact .nil _
  | cons head rest ih =>
    obtain ⟨now, call⟩ := head
    simp only [replay] at h
    split at h
    · cases h
    case h_2 reply u hexec =>
      split at h
      · cases h
      case h_2 tail v hrest =>
        cases h
        exact .cons (.body hexec) (ih hrest)

/-- A decidable fact about the end of a replay is a fact about a run. -/
theorem MemoryState.exists_run [DecidableEq Target] (ids : IdSupply)
    (s : MemoryState Target) (calls : List (DurableUtcTimestamp × StoreCall Target))
    (check : List (StoreEvent Target) → MemoryState Target → Bool)
    (h : (s.replay ids calls).toOption.any (fun result => check result.1 result.2) = true) :
    ∃ history t, Run (StoreStep ids) s history t ∧ check history t = true := by
  cases hreplay : s.replay ids calls with
  | error panic => simp [hreplay, Except.toOption] at h
  | ok result =>
    obtain ⟨history, t⟩ := result
    exact ⟨history, t, replay_run hreplay, by simpa [hreplay, Except.toOption] using h⟩

/-! ## What an event says about one task -/

namespace StoreEvent

variable {Target : Type}

/-- A creation that was acknowledged, by insertion or as a repetition. -/
@[simp] def creates (id : TaskId) : StoreEvent Target → Bool
  | .body _ (.create record) (.created _) => record.taskId = id
  | _ => false

/-- A successful claim of the task. -/
@[simp] def claims (id : TaskId) : StoreEvent Target → Bool
  | .body _ (.claim input) (.claim (.claimed _)) => input.taskId = id
  | _ => false

@[simp] def renews (id : TaskId) : StoreEvent Target → Bool
  | .body _ (.renew input) (.renew (.renewed _)) => input.taskId = id
  | _ => false

/-- A settlement that returned `Settled`. -/
@[simp] def settles (id : TaskId) : StoreEvent Target → Bool
  | .body _ (.settle input) (.settle (.settled _)) => input.taskId = id
  | _ => false

/-- A cancellation that returned `Canceled`. -/
@[simp] def cancels (id : TaskId) : StoreEvent Target → Bool
  | .body _ (.cancel input) (.cancel .canceled) => input.taskId = id
  | _ => false

@[simp] def recovers (id : TaskId) : StoreEvent Target → Bool
  | .body _ (.recoverExpiredLease input) (.recovery (.recovered _)) => input.taskId = id
  | _ => false

@[simp] def releases (id : TaskId) : StoreEvent Target → Bool
  | .body _ (.release input) (.release (.released _)) => input.taskId = id
  | _ => false

@[simp] def finishes (id : TaskId) (event : StoreEvent Target) : Bool :=
  event.settles id || event.cancels id

/-- The reply reports a success for the task. A scan writes without naming tasks. -/
def touches (id : TaskId) (event : StoreEvent Target) : Bool :=
  event.creates id || event.claims id || event.renews id || event.finishes id ||
    event.recovers id ||
    event.releases id

end StoreEvent

/-- Everything one event can do to the record stored under `id`. -/
inductive RecordStep {Target : Type} (id : TaskId) :
    StoreEvent Target → Option (TaskRecord Target) → Option (TaskRecord Target) → Prop where
  | created {now record} : record.taskId = id → record.validateCreate = .ok () →
      RecordStep id (.body now (.create record) (.created record)) none (some record)
  | recreated {now record} : record.taskId = id → record.validateCreate = .ok () →
      RecordStep id (.body now (.create record) (.created record)) (some record) (some record)
  | advanced {now input reply record next} : advanceDue record now = some next →
      RecordStep id (.body now (.scanDue input) reply) (some record) (some next)
  | claimed {now input attemptId leaseId record next} : input.taskId = id →
      claim record input now attemptId leaseId = .ok next →
      RecordStep id (.body now (.claim input) (.claim (.claimed next))) (some record) (some next)
  | renewed {now input record next} : input.taskId = id →
      renew record input now = .ok (.ok next) →
      RecordStep id (.body now (.renew input) (.renew (.renewed next))) (some record) (some next)
  | settled {now input record next} : input.taskId = id →
      settle record input now = .ok (.settled next) →
      RecordStep id (.body now (.settle input) (.settle (.settled next))) (some record) (some next)
  | canceled {now input record next} : input.taskId = id → cancel record now = .ok next →
      RecordStep id (.body now (.cancel input) (.cancel .canceled)) (some record) (some next)
  | recovered {now input record next} : input.taskId = id →
      recoverExpiredLease record now input.retryNotBefore = .ok (.ok next) →
      RecordStep id (.body now (.recoverExpiredLease input) (.recovery (.recovered next)))
        (some record) (some next)
  | released {now input record next} : input.taskId = id →
      release record input now = .ok (.ok next) →
      RecordStep id (.body now (.release input) (.release (.released next)))
        (some record) (some next)
  | kept {event stored} : event.touches id = false → RecordStep id event stored stored

namespace MemoryState

variable {Target : Type} {s t : MemoryState Target} {now : DurableUtcTimestamp}

/-! One inversion lemma per operation: the single record it wrote, or none. -/

theorem create_cases [DecidableEq Target] {record : TaskRecord Target}
    {result : Except TaskStoreError (TaskRecord Target)} (h : s.create record = (result, t)) :
    (record.validateCreate = .ok () ∧ s.records.get? record.taskId = none ∧
      result = .ok record ∧ t = s.put record.taskId record) ∨
    (record.validateCreate = .ok () ∧ s.records.get? record.taskId = some record ∧
      result = .ok record ∧ t = s) ∨
    ((∃ error, result = .error error) ∧ t = s) := by
  unfold create at h
  split at h
  · cases h
    exact .inr (.inr ⟨⟨_, rfl⟩, rfl⟩)
  case h_2 hvalid =>
    split at h
    case h_1 existing hexisting =>
      split at h
      case isTrue hsame =>
        cases h
        subst hsame
        exact .inr (.inl ⟨hvalid, hexisting, rfl, rfl⟩)
      · cases h
        exact .inr (.inr ⟨⟨_, rfl⟩, rfl⟩)
    case h_2 hnone =>
      cases h
      exact .inl ⟨hvalid, hnone, rfl, rfl⟩

theorem claim_cases {input : ClaimInput} {outcome : ClaimOutcome Target}
    (h : s.claim ids now input = (outcome, t)) :
    (∃ record next, s.records.get? input.taskId = some record ∧
      Task.claim record input now (ids.attempt s.nextAttempt) (ids.lease s.nextLease) = .ok next ∧
      outcome = .claimed next ∧ t.records = s.records.insert input.taskId next) ∨
    ((∃ reason, outcome = .rejected reason) ∧ t.records = s.records) := by
  unfold claim at h
  split at h
  · cases h
    exact .inr ⟨⟨_, rfl⟩, rfl⟩
  case h_2 record hrecord =>
    simp only at h
    split at h
    case h_1 next hnext =>
      cases h
      exact .inl ⟨record, next, hrecord, hnext, rfl, rfl⟩
    · cases h
      exact .inr ⟨⟨_, rfl⟩, rfl⟩

theorem renew_cases {input : RenewInput} {outcome : RenewOutcome Target}
    (h : s.renew now input = .ok (outcome, t)) :
    (∃ record next, s.records.get? input.taskId = some record ∧
      Task.renew record input now = .ok (.ok next) ∧
      outcome = .renewed next ∧ t = s.put input.taskId next) ∨
    ((∃ reason, outcome = .rejected reason) ∧ t = s) := by
  unfold renew at h
  split at h
  · cases h
    exact .inr ⟨⟨_, rfl⟩, rfl⟩
  case h_2 record hrecord =>
    obtain ⟨result, hresult, h⟩ := bind_eq_ok.mp h
    split at h
    case h_1 next =>
      cases h
      exact .inl ⟨record, next, hrecord, hresult, rfl, rfl⟩
    · cases h
      exact .inr ⟨⟨_, rfl⟩, rfl⟩

theorem settle_cases {input : SettleInput} {outcome : SettleOutcome Target}
    (h : s.settle now input = .ok (outcome, t)) :
    (∃ record next, s.records.get? input.taskId = some record ∧
      Task.settle record input now = .ok (.settled next) ∧
      outcome = .settled next ∧ t = s.put input.taskId next) ∨
    ((∀ next, outcome ≠ .settled next) ∧ t = s) := by
  unfold settle at h
  split at h
  · cases h
    exact .inr ⟨fun _ => nofun, rfl⟩
  case h_2 record hrecord =>
    obtain ⟨result, hresult, h⟩ := bind_eq_ok.mp h
    split at h
    case h_1 next =>
      cases h
      exact .inl ⟨record, next, hrecord, hresult, rfl, rfl⟩
    all_goals
      cases h
      exact .inr ⟨fun _ => nofun, rfl⟩

theorem cancel_cases {input : CancelInput} {kind : TaskCancelResultKind}
    (h : s.cancel now input = (kind, t)) :
    (∃ record next, s.records.get? input.taskId = some record ∧
      Task.cancel record now = .ok next ∧ kind = .canceled ∧ t = s.put input.taskId next) ∨
    (kind ≠ .canceled ∧ t = s) := by
  unfold cancel at h
  split at h
  · cases h
    exact .inr ⟨nofun, rfl⟩
  case h_2 record hrecord =>
    split at h
    case h_1 next hnext =>
      cases h
      exact .inl ⟨record, next, hrecord, hnext, rfl, rfl⟩
    all_goals
      cases h
      exact .inr ⟨nofun, rfl⟩

theorem recoverExpiredLease_cases {input : LeaseRecoveryInput}
    {outcome : LeaseRecoveryOutcome Target}
    (h : s.recoverExpiredLease now input = .ok (outcome, t)) :
    (∃ record next, s.records.get? input.taskId = some record ∧
      Task.recoverExpiredLease record now input.retryNotBefore = .ok (.ok next) ∧
      outcome = .recovered next ∧ t = s.put input.taskId next) ∨
    ((∀ next, outcome ≠ .recovered next) ∧ t = s) := by
  unfold recoverExpiredLease at h
  split at h
  · cases h
    exact .inr ⟨fun _ => nofun, rfl⟩
  case h_2 record hrecord =>
    obtain ⟨result, hresult, h⟩ := bind_eq_ok.mp h
    split at h
    case h_1 next =>
      cases h
      exact .inl ⟨record, next, hrecord, hresult, rfl, rfl⟩
    all_goals
      cases h
      exact .inr ⟨fun _ => nofun, rfl⟩

theorem release_cases {input : ReleaseInput} {outcome : ReleaseOutcome Target}
    (h : s.release now input = .ok (outcome, t)) :
    (∃ record next, s.records.get? input.taskId = some record ∧
      Task.release record input now = .ok (.ok next) ∧
      outcome = .released next ∧ t = s.put input.taskId next) ∨
    ((∀ next, outcome ≠ .released next) ∧ t = s) := by
  unfold release at h
  split at h
  · cases h
    exact .inr ⟨fun _ => nofun, rfl⟩
  case h_2 record hrecord =>
    obtain ⟨result, hresult, h⟩ := bind_eq_ok.mp h
    split at h
    case h_1 next =>
      cases h
      exact .inl ⟨record, next, hrecord, hresult, rfl, rfl⟩
    all_goals
      cases h
      exact .inr ⟨fun _ => nofun, rfl⟩

theorem get?_scanDue (s : MemoryState Target) (now : DurableUtcTimestamp) (input : DueScanInput)
    (id : TaskId) :
    (s.scanDue now input).2.records.get? id = (s.records.get? id).map (scanRecord now) :=
  s.records.get?_map (scanRecord now) id

@[simp] theorem records_gate (s : MemoryState Target) : s.gate.2.records = s.records := by
  unfold gate
  split
  · rfl
  split <;> rfl

end MemoryState

variable {event : StoreEvent Target}

/-- A write under the key of the call is a step of that task's record, and no
step at all of any other task. -/
theorem RecordStep.of_write {id key : TaskId} {record next : TaskRecord Target}
    (hstored : s.records.get? key = some record) (hwrite : t.records = s.records.insert key next)
    (hother : key ≠ id → event.touches id = false)
    (hstep : key = id → RecordStep id event (some record) (some next)) :
    RecordStep id event (s.records.get? id) (t.records.get? id) := by
  rw [hwrite]
  by_cases hkey : key = id
  · subst hkey
    rw [hstored, OrdMap.get?_insert_self]
    exact hstep rfl
  rw [OrdMap.get?_insert_of_ne _ _ (Ne.symm hkey)]
  exact .kept (hother hkey)

theorem except_map_eq_ok {ε : Type u} {α : Type v} {β : Type w} {f : α → β} {x : Except ε α}
    {b : β} :
    x.map f = .ok b ↔ ∃ a, x = .ok a ∧ f a = b := by
  cases x <;> simp [Except.map]

section

open StoreEvent

/-- Every step of the store is, for every task, one of the listed record steps. -/
theorem StoreStep.recordStep [DecidableEq Target] (h : StoreStep ids s event t)
    (id : TaskId) : RecordStep id event (s.records.get? id) (t.records.get? id) := by
  cases h with
  | gate hgate =>
    have ht : t.records = s.records := by
      rw [← MemoryState.records_gate s, hgate]
    rw [ht]
    exact .kept rfl
  | failNextTransient count | close => exact .kept rfl
  | @body now call reply _ hexec =>
    cases call with
    | now | scanExpiredLeases input =>
      cases hexec
      exact .kept rfl
    | create record =>
      obtain ⟨⟨result, t'⟩, hbody⟩ : ∃ result, s.create record = result := ⟨_, rfl⟩
      simp only [MemoryState.exec, hbody, Prod.map_apply, id_eq] at hexec
      cases hexec
      rcases MemoryState.create_cases hbody with
        ⟨hvalid, hnone, rfl, rfl⟩ | ⟨hvalid, hsame, rfl, rfl⟩ | ⟨⟨error, rfl⟩, rfl⟩
      · by_cases hid : record.taskId = id
        · subst hid
          rw [hnone, MemoryState.get?_put, if_pos rfl]
          exact .created rfl hvalid
        rw [MemoryState.get?_put, if_neg (Ne.symm hid)]
        exact .kept (by simp [touches, StoreReply.ofCreate, hid])
      · by_cases hid : record.taskId = id
        · subst hid
          rw [hsame]
          exact .recreated rfl hvalid
        · exact .kept (by simp [touches, StoreReply.ofCreate, hid])
      · exact .kept rfl
    | claim input =>
      obtain ⟨⟨outcome, t'⟩, hbody⟩ : ∃ result, s.claim ids now input = result := ⟨_, rfl⟩
      simp only [MemoryState.exec, hbody, Prod.map_apply, id_eq] at hexec
      cases hexec
      rcases MemoryState.claim_cases hbody with
        ⟨record, next, hrecord, hnext, rfl, hwrite⟩ | ⟨⟨reason, rfl⟩, hsame⟩
      · exact .of_write hrecord hwrite (by simp [touches]) (fun hid => .claimed hid hnext)
      rw [hsame]
      exact .kept rfl
    | renew input =>
      obtain ⟨⟨outcome, t'⟩, hbody, hmap⟩ := except_map_eq_ok.mp hexec
      cases hmap
      rcases MemoryState.renew_cases hbody with
        ⟨record, next, hrecord, hnext, rfl, rfl⟩ | ⟨⟨reason, rfl⟩, rfl⟩
      · exact .of_write hrecord rfl (by simp [touches]) (fun hid => .renewed hid hnext)
      · exact .kept rfl
    | settle input =>
      obtain ⟨⟨outcome, t'⟩, hbody, hmap⟩ := except_map_eq_ok.mp hexec
      cases hmap
      rcases MemoryState.settle_cases hbody with
        ⟨record, next, hrecord, hnext, rfl, rfl⟩ | ⟨hnot, rfl⟩
      · exact .of_write hrecord rfl (by simp [touches]) (fun hid => .settled hid hnext)
      cases outcome with
      | settled next => exact absurd rfl (hnot next)
      | _ => exact .kept rfl
    | cancel input =>
      obtain ⟨⟨kind, t'⟩, hbody⟩ : ∃ result, s.cancel now input = result := ⟨_, rfl⟩
      simp only [MemoryState.exec, hbody, Prod.map_apply, id_eq] at hexec
      cases hexec
      rcases MemoryState.cancel_cases hbody with
        ⟨record, next, hrecord, hnext, rfl, rfl⟩ | ⟨hnot, rfl⟩
      · exact .of_write hrecord rfl (by simp [touches]) (fun hid => .canceled hid hnext)
      cases kind with
      | canceled => exact absurd rfl hnot
      | _ => exact .kept rfl
    | recoverExpiredLease input =>
      obtain ⟨⟨outcome, t'⟩, hbody, hmap⟩ := except_map_eq_ok.mp hexec
      cases hmap
      rcases MemoryState.recoverExpiredLease_cases hbody with
        ⟨record, next, hrecord, hnext, rfl, rfl⟩ | ⟨hnot, rfl⟩
      · exact .of_write hrecord rfl (by simp [touches]) (fun hid => .recovered hid hnext)
      cases outcome with
      | recovered next => exact absurd rfl (hnot next)
      | _ => exact .kept rfl
    | release input =>
      obtain ⟨⟨outcome, t'⟩, hbody, hmap⟩ := except_map_eq_ok.mp hexec
      cases hmap
      rcases MemoryState.release_cases hbody with
        ⟨record, next, hrecord, hnext, rfl, rfl⟩ | ⟨hnot, rfl⟩
      · exact .of_write hrecord rfl (by simp [touches]) (fun hid => .released hid hnext)
      cases outcome with
      | released next => exact absurd rfl (hnot next)
      | _ => exact .kept rfl
    | scanDue input =>
      cases hexec
      change RecordStep id _ _ ((s.scanDue now input).2.records.get? id)
      rw [MemoryState.get?_scanDue]
      cases hstored : s.records.get? id with
      | none => exact .kept rfl
      | some record =>
        simp only [Option.map_some, MemoryState.scanRecord]
        cases hadvance : advanceDue record now with
        | none => exact .kept rfl
        | some next => exact .advanced hadvance

end

end Skiff.Task
