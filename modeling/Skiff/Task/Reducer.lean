import Skiff.Task.Model

/-!
# The task state machine

The pure transitions of `task-control/src/reducer.rs`. The source reads the lease
of a leased record and the terminal of a terminal record with `expect`, so the
transitions that do so may panic on a malformed record; they return in
`Except Panic` here and nothing is assumed about their argument.

Each transition has one inversion lemma stating exactly when it is accepted and
which record it produces. The invariants of the store use these lemmas only.
-/

namespace Skiff.Task

/-- A failed `expect`. -/
structure Panic where
  message : String

/-- `Option::expect`. -/
def expect {α : Type} (value : Option α) (message : String) : Except Panic α :=
  match value with
  | some a => .ok a
  | none => .error ⟨message⟩

section

variable {α β : Type} {value : Option α} {message : String} {f : α → Except Panic β}

theorem expect_bind_eq_ok {b : β} :
    (expect value message >>= f) = .ok b ↔ ∃ a, value = some a ∧ f a = .ok b := by
  cases value <;> simp [expect, bind, Except.bind]

theorem exists_expect_bind (hvalue : ∃ a, value = some a) (hf : ∀ a, ∃ b, f a = .ok b) :
    ∃ b, (expect value message >>= f) = .ok b := by
  obtain ⟨a, rfl⟩ := hvalue
  exact hf a

end

variable {Target : Type}

/-- Monotonic merge of the scheduler-owned retry not-before. -/
def mergeRetryNotBefore (existing : Option DurableUtcTimestamp) (next : DurableUtcTimestamp) :
    Option DurableUtcTimestamp :=
  match existing with
  | some current => if current > next then some current else some next
  | none => some next

/-- `scheduled` to `ready` when the durable not-before time has arrived. -/
def advanceDue (record : TaskRecord Target) (now : DurableUtcTimestamp) :
    Option (TaskRecord Target) :=
  match record.state with
  | .scheduled => if record.dueAt ≤ now then some { record with state := .ready } else none
  | _ => none

/-- `ready` to `leased`, with the attempt and lease ids of the adapter. -/
def claim (record : TaskRecord Target) (input : ClaimInput) (now : DurableUtcTimestamp)
    (attemptId : AttemptId) (leaseId : LeaseId) : Except ClaimRejection (TaskRecord Target) :=
  match record.state with
  | .scheduled => .error .notReady
  | .leased => .error .alreadyLeased
  | .ready =>
    if record.dueAt > now then .error .notDue
    else if !input.imageActivatable then .error .notActivatable
    else if input.leaseExpiry ≤ now then .error .invalidLeaseExpiry
    else .ok { record with
      state := .leased
      attemptGeneration := record.attemptGeneration + 1
      activeLease := some ⟨leaseId, attemptId, input.owner, input.leaseExpiry⟩
      terminal := none }
  | _ => .error .terminal

/-- Lease heartbeat: the current lease id, unexpired, to a future expiry. -/
def renew (record : TaskRecord Target) (input : RenewInput) (now : DurableUtcTimestamp) :
    Except Panic (Except RenewRejection (TaskRecord Target)) :=
  match record.state with
  | .leased => do
    let lease ← expect record.activeLease "leased record carries active lease"
    if lease.leaseId ≠ input.leaseId then return .error .staleLease
    if lease.expiry ≤ now then return .error .expiredLease
    if input.newExpiry ≤ now then return .error .invalidExpiry
    return .ok { record with activeLease := some { lease with expiry := input.newExpiry } }
  | .scheduled | .ready => .ok (.error .notLeased)
  | _ => .ok (.error .terminal)

/-- Terminal settlement: idempotent for the same outcome, fenced by the lease. -/
def settle (record : TaskRecord Target) (input : SettleInput) (now : DurableUtcTimestamp) :
    Except Panic (SettleTransition Target) :=
  match record.state with
  | .leased => do
    let lease ← expect record.activeLease "leased lease"
    if lease.leaseId ≠ input.leaseId then return .staleLease
    if lease.expiry ≤ now then return .expiredLease
    match record.terminal with
    | some existing =>
      if existing.sameOutcome input.terminal then return .alreadySettled else return .conflict
    | none =>
      return .settled { record with
        state := input.terminal.state
        activeLease := none
        terminal := some input.terminal }
  | .scheduled | .ready => .ok .notLeased
  | .succeeded | .failed | .platformFailed | .canceled => do
    let existing ← expect record.terminal "terminal state has terminal"
    if existing.sameOutcome input.terminal then return .alreadySettled else return .conflict

/-- Before-start cancellation. -/
def cancel (record : TaskRecord Target) (now : DurableUtcTimestamp) :
    Except CancelRejection (TaskRecord Target) :=
  match record.state with
  | .scheduled | .ready => .ok { record with
      state := .canceled
      activeLease := none
      terminal := some ⟨now, .canceled⟩ }
  | .leased => .error .alreadyStarted
  | _ => .error .alreadyTerminal

/-- Lease-expiry recovery: a leased record whose lease has expired returns to
`ready` with the scheduler-owned not-before merged in. -/
def recoverExpiredLease (record : TaskRecord Target) (now retryNotBefore : DurableUtcTimestamp) :
    Except Panic (Except RecoveryRejection (TaskRecord Target)) :=
  match record.state with
  | .leased => do
    let lease ← expect record.activeLease "leased lease"
    if lease.expiry > now then return .error .notExpired
    return .ok { record with
      state := .ready
      activeLease := none
      retryNotBefore := mergeRetryNotBefore record.retryNotBefore retryNotBefore }
  | .scheduled | .ready => .ok (.error .notLeased)
  | _ => .ok (.error .terminal)

/-- Provable-rejection release: the current, unexpired lease goes back to `ready`. -/
def release (record : TaskRecord Target) (input : ReleaseInput) (now : DurableUtcTimestamp) :
    Except Panic (Except ReleaseRejection (TaskRecord Target)) :=
  match record.state with
  | .leased => do
    let lease ← expect record.activeLease "leased lease"
    if lease.leaseId ≠ input.leaseId then return .error .staleLease
    if lease.expiry ≤ now then return .error .expiredLease
    return .ok { record with
      state := .ready
      activeLease := none
      retryNotBefore := mergeRetryNotBefore record.retryNotBefore input.retryNotBefore }
  | .scheduled | .ready => .ok (.error .notLeased)
  | _ => .ok (.error .terminal)

/-! ## When a transition is accepted -/

section Inversion

variable {record next : TaskRecord Target} {now : DurableUtcTimestamp}

theorem advanceDue_eq_some :
    advanceDue record now = some next ↔
      record.state = .scheduled ∧ record.dueAt ≤ now ∧ next = { record with state := .ready } := by
  unfold advanceDue
  split
  · split <;> simp_all [eq_comm]
  · simp_all

theorem claim_eq_ok {input : ClaimInput} {attemptId : AttemptId} {leaseId : LeaseId} :
    claim record input now attemptId leaseId = .ok next ↔
      record.state = .ready ∧ record.dueAt ≤ now ∧ input.imageActivatable = true ∧
        now < input.leaseExpiry ∧
        next = { record with
          state := .leased
          attemptGeneration := record.attemptGeneration + 1
          activeLease := some ⟨leaseId, attemptId, input.owner, input.leaseExpiry⟩
          terminal := none } := by
  unfold claim
  split
  · simp_all
  · simp_all
  case h_3 hstate =>
    split
    case isTrue hnotDue => simp [not_le.mpr hnotDue]
    case isFalse hdue =>
      split
      · simp_all
      case isFalse hactivatable =>
        split
        case isTrue hexpired => simp [not_lt.mpr hexpired]
        case isFalse hfuture =>
          rw [Except.ok.injEq, eq_comm]
          simp_all
  · simp_all

theorem renew_eq_ok {input : RenewInput} :
    renew record input now = .ok (.ok next) ↔
      ∃ lease, record.state = .leased ∧ record.activeLease = some lease ∧
        lease.leaseId = input.leaseId ∧ now < lease.expiry ∧ now < input.newExpiry ∧
        next = { record with activeLease := some { lease with expiry := input.newExpiry } } := by
  unfold renew
  split
  case h_1 hstate =>
    rw [expect_bind_eq_ok]
    refine exists_congr fun lease => ?_
    simp only [hstate, true_and, pure, Except.pure]
    split
    · simp_all
    split
    · simp_all
    split
    · simp_all
    · simp_all [eq_comm]
  all_goals simp_all

theorem settle_eq_settled {input : SettleInput} :
    settle record input now = .ok (.settled next) ↔
      ∃ lease, record.state = .leased ∧ record.activeLease = some lease ∧
        lease.leaseId = input.leaseId ∧ now < lease.expiry ∧ record.terminal = none ∧
        next = { record with
          state := input.terminal.state
          activeLease := none
          terminal := some input.terminal } := by
  unfold settle
  split
  case h_1 hstate =>
    rw [expect_bind_eq_ok]
    refine exists_congr fun lease => ?_
    simp only [hstate, true_and, pure, Except.pure]
    split
    · simp_all
    split
    · simp_all
    cases hterminal : record.terminal with
    | none => simp_all [eq_comm]
    | some existing =>
      simp only
      split <;> simp_all
  case h_2 | h_3 => simp_all
  -- a terminal record answers only `alreadySettled` or `conflict`
  all_goals
    refine iff_of_false (fun h => ?_) (by simp_all)
    obtain ⟨existing, -, h⟩ := expect_bind_eq_ok.mp h
    split at h <;> cases h

theorem cancel_eq_ok :
    cancel record now = .ok next ↔
      (record.state = .scheduled ∨ record.state = .ready) ∧
        next = { record with
          state := .canceled
          activeLease := none
          terminal := some ⟨now, .canceled⟩ } := by
  unfold cancel
  split
  · rw [Except.ok.injEq, eq_comm]
    simp_all
  · rw [Except.ok.injEq, eq_comm]
    simp_all
  · simp_all
  · simp_all

theorem recoverExpiredLease_eq_ok {retryNotBefore : DurableUtcTimestamp} :
    recoverExpiredLease record now retryNotBefore = .ok (.ok next) ↔
      ∃ lease, record.state = .leased ∧ record.activeLease = some lease ∧ lease.expiry ≤ now ∧
        next = { record with
          state := .ready
          activeLease := none
          retryNotBefore := mergeRetryNotBefore record.retryNotBefore retryNotBefore } := by
  unfold recoverExpiredLease
  split
  case h_1 hstate =>
    rw [expect_bind_eq_ok]
    refine exists_congr fun lease => ?_
    simp only [hstate, true_and, pure, Except.pure]
    split
    · simp_all
    · simp_all [eq_comm]
  all_goals simp_all

theorem release_eq_ok {input : ReleaseInput} :
    release record input now = .ok (.ok next) ↔
      ∃ lease, record.state = .leased ∧ record.activeLease = some lease ∧
        lease.leaseId = input.leaseId ∧ now < lease.expiry ∧
        next = { record with
          state := .ready
          activeLease := none
          retryNotBefore := mergeRetryNotBefore record.retryNotBefore input.retryNotBefore } := by
  unfold release
  split
  case h_1 hstate =>
    rw [expect_bind_eq_ok]
    refine exists_congr fun lease => ?_
    simp only [hstate, true_and, pure, Except.pure]
    split
    · simp_all
    split
    · simp_all
    · simp_all [eq_comm]
  all_goals simp_all

end Inversion

/-! ## The representation invariant of a record -/

/-- Lease and terminal are present exactly in the states that carry them. -/
structure TaskRecord.WellFormed (record : TaskRecord Target) : Prop where
  leased_iff : record.state = .leased ↔ record.activeLease.isSome = true
  terminal_iff : record.state.isTerminal = true ↔ record.terminal.isSome = true
  terminal_state : ∀ terminal, record.terminal = some terminal → terminal.state = record.state

namespace TaskRecord.WellFormed

variable {record : TaskRecord Target}

section

variable (h : record.WellFormed)
include h

theorem lease_of_leased (hs : record.state = .leased) : ∃ lease, record.activeLease = some lease :=
  Option.isSome_iff_exists.mp (h.leased_iff.mp hs)

theorem terminal_of_terminal (hs : record.state.isTerminal = true) :
    ∃ terminal, record.terminal = some terminal :=
  Option.isSome_iff_exists.mp (h.terminal_iff.mp hs)

theorem activeLease_eq_none (hs : record.state ≠ .leased) : record.activeLease = none := by
  cases hl : record.activeLease with
  | none => rfl
  | some lease => exact absurd (h.leased_iff.mpr (by simp [hl])) hs

theorem terminal_eq_none (hs : record.state.isTerminal = false) : record.terminal = none := by
  cases ht : record.terminal with
  | none => rfl
  | some terminal =>
    have := h.terminal_iff.mpr (by simp [ht])
    simp [hs] at this

/-! The four transitions that use `expect` do not panic on a well-formed record. -/

theorem renew_ok (input : RenewInput) (now : DurableUtcTimestamp) :
    ∃ result, renew record input now = .ok result := by
  unfold renew
  split
  case h_1 hstate =>
    refine exists_expect_bind (h.lease_of_leased hstate) fun lease => ?_
    split
    · exact ⟨_, rfl⟩
    split
    · exact ⟨_, rfl⟩
    split <;> exact ⟨_, rfl⟩
  all_goals exact ⟨_, rfl⟩

theorem settle_ok (input : SettleInput) (now : DurableUtcTimestamp) :
    ∃ result, settle record input now = .ok result := by
  unfold settle
  split
  case h_1 hstate =>
    refine exists_expect_bind (h.lease_of_leased hstate) fun lease => ?_
    rw [h.terminal_eq_none (by rw [hstate]; rfl)]
    split
    · exact ⟨_, rfl⟩
    split <;> exact ⟨_, rfl⟩
  case h_2 | h_3 => exact ⟨_, rfl⟩
  all_goals
    rename_i hstate
    refine exists_expect_bind (h.terminal_of_terminal (by rw [hstate]; rfl)) fun existing => ?_
    split <;> exact ⟨_, rfl⟩

theorem recoverExpiredLease_ok (now retryNotBefore : DurableUtcTimestamp) :
    ∃ result, recoverExpiredLease record now retryNotBefore = .ok result := by
  unfold recoverExpiredLease
  split
  case h_1 hstate =>
    refine exists_expect_bind (h.lease_of_leased hstate) fun lease => ?_
    split <;> exact ⟨_, rfl⟩
  all_goals exact ⟨_, rfl⟩

theorem release_ok (input : ReleaseInput) (now : DurableUtcTimestamp) :
    ∃ result, release record input now = .ok result := by
  unfold release
  split
  case h_1 hstate =>
    refine exists_expect_bind (h.lease_of_leased hstate) fun lease => ?_
    split
    · exact ⟨_, rfl⟩
    split <;> exact ⟨_, rfl⟩
  all_goals exact ⟨_, rfl⟩

end

/-- A freshly validated record carries neither lease nor terminal. -/
theorem of_validateCreate (h : record.validateCreate = .ok ()) : record.WellFormed := by
  obtain ⟨hstate, -, hlease, hterminal, -⟩ := TaskRecord.validateCreate_ok h
  constructor <;> simp [hstate, hlease, hterminal, TaskState.isTerminal]

end TaskRecord.WellFormed

end Skiff.Task
