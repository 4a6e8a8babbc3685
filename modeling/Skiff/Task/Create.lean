import Skiff.Task.Memory

/-!
# Repeated creation

`create` answers a repetition by comparing the submitted record with the one that
is stored now, not with the one that was submitted then. Only a scan that finds
the task due or a cancellation can move a scheduled record, so a repeated `create`
is acknowledged exactly while neither has happened; afterwards the very same
submission is refused as a duplicate.

`TaskRetryPolicy::run` is what issues the repetition: it calls the operation again
after a transient error, whether or not the failed attempt had been committed.
-/

namespace Skiff.Task

open StoreEvent MemoryState

/-! ## The retry loop -/

/-- Durations are in nanoseconds. -/
structure TaskRetryPolicy where
  maxAttempts : Nat
  baseDelay : Nat
  maxDelay : Nat
  totalDeadline : Nat

def TaskRetryPolicy.default : TaskRetryPolicy := ⟨4, 25000000, 500000000, 5000000000⟩

/-- The deadline in milliseconds, at most `i64::MAX`. -/
def TaskRetryPolicy.deadlineMillis (policy : TaskRetryPolicy) : Int :=
  min (policy.totalDeadline / 1000000 : Nat) i64Max

/-- The clock reading at which a run gives up. The sum is one of `i64`: it wraps, or panics where
overflows are checked. -/
def TaskRetryPolicy.deadline (policy : TaskRetryPolicy) (started : Int) : Int :=
  (started + policy.deadlineMillis).bmod (2 ^ 64)

theorem TaskRetryPolicy.deadline_eq {policy : TaskRetryPolicy} {started : Int}
    (hfits : i64Min ≤ started + policy.deadlineMillis ∧
      started + policy.deadlineMillis ≤ i64Max) :
    policy.deadline started = started + policy.deadlineMillis := by
  obtain ⟨hmin, hmax⟩ := hfits
  unfold i64Min at hmin
  unfold i64Max at hmax
  exact Int.bmod_eq_of_le (by omega) (by omega)

structure TaskRetryOutcome where
  attempts : Nat
  retried : Nat

section Retry

variable {σ α : Type}

/-- The loop of `TaskRetryPolicy::run`. `remaining` attempts are left, `clock k` is
the reading after attempt `k`, and `operation k` is attempt `k` together with what
other callers do before the next one. The last component lists the sleeps. -/
def TaskRetryPolicy.loop (policy : TaskRetryPolicy) (deadline : Int) (clock : Nat → Int)
    (operation : Nat → σ → Except TaskStoreError α × σ) :
    (remaining attempts backoff : Nat) → σ →
    Except TaskStoreError α × TaskRetryOutcome × List Nat × σ
  | remaining, attempts, backoff, s =>
    match operation attempts s with
    | (.ok value, t) => (.ok value, ⟨attempts + 1, attempts⟩, [], t)
    | (.error error, t) =>
      if error.isRetryable then
        match remaining with
        | 0 | 1 => (.error error, ⟨attempts + 1, attempts⟩, [], t)
        | remaining + 2 =>
          if deadline ≤ clock attempts then (.error error, ⟨attempts + 1, attempts⟩, [], t)
          else
            let (result, outcome, sleeps, u) := policy.loop deadline clock operation
              (remaining + 1) (attempts + 1) (min (backoff * 2) policy.maxDelay) t
            (result, outcome, backoff :: sleeps, u)
      else (.error error, ⟨attempts + 1, attempts⟩, [], t)

def TaskRetryPolicy.run (policy : TaskRetryPolicy) (started : Int) (clock : Nat → Int)
    (operation : Nat → σ → Except TaskStoreError α × σ) (s : σ) :
    Except TaskStoreError α × TaskRetryOutcome × List Nat × σ :=
  policy.loop (policy.deadline started) clock operation policy.maxAttempts 0 policy.baseDelay s

/-- The state that attempt `k` finds. -/
def attemptState (operation : Nat → σ → Except TaskStoreError α × σ) (s : σ) : Nat → σ
  | 0 => s
  | k + 1 => (operation k (attemptState operation s k)).2

namespace TaskRetryPolicy

variable (policy : TaskRetryPolicy) (deadline : Int) (clock : Nat → Int)
  (operation : Nat → σ → Except TaskStoreError α × σ) (s : σ)

/-- The sleep before attempt `k + 1`; the first one is not held to the maximum. -/
def delay : Nat → Nat
  | 0 => policy.baseDelay
  | k + 1 => min (policy.baseDelay * 2 ^ (k + 1)) policy.maxDelay

theorem next_delay (k : Nat) : min (policy.delay k * 2) policy.maxDelay = policy.delay (k + 1) := by
  cases k with
  | zero => simp [delay]
  | succ k =>
    have hdouble : policy.baseDelay * 2 ^ (k + 1 + 1) = policy.baseDelay * 2 ^ (k + 1) * 2 := by
      rw [pow_succ, mul_assoc]
    simp only [delay, hdouble]
    omega

/-- Attempt `k` failed in a way that is tried again, with time left. -/
def Retried (k : Nat) : Prop :=
  clock k < deadline ∧ ∃ error, (operation k (attemptState operation s k)).1 = .error error ∧
    error.isRetryable = true

/-- The run from attempt `first` on, with `remaining` attempts left: it ends with the first attempt
that is not tried again, or with the last one. -/
def Ends (remaining first : Nat)
    (run : Except TaskStoreError α × TaskRetryOutcome × List Nat × σ) : Prop :=
  ∃ n < max 1 remaining, (∀ k < n, Retried deadline clock operation s (first + k)) ∧
    (Retried deadline clock operation s (first + n) → remaining ≤ n + 1) ∧
    run = ((operation (first + n) (attemptState operation s (first + n))).1,
      ⟨first + n + 1, first + n⟩, (List.range' first n).map policy.delay,
      attemptState operation s (first + n + 1))

theorem loop_ends (remaining first : Nat) :
    policy.Ends deadline clock operation s remaining first
      (policy.loop deadline clock operation remaining first (policy.delay first)
        (attemptState operation s first)) := by
  induction remaining using Nat.strong_induction_on generalizing first with
  | _ remaining ih =>
    have hstop (hleft : Retried deadline clock operation s first → remaining ≤ 1) :
        policy.Ends deadline clock operation s remaining first
          ((operation first (attemptState operation s first)).1, ⟨first + 1, first⟩, [],
            (operation first (attemptState operation s first)).2) :=
      ⟨0, by omega, fun _ hk => absurd hk (Nat.not_lt_zero _), hleft, rfl⟩
    have hretried : Retried deadline clock operation s first ↔ clock first < deadline ∧ _ := Iff.rfl
    rw [loop.eq_def]
    dsimp only
    cases hop : operation first (attemptState operation s first) with
    | mk result t =>
      rw [hop] at hstop hretried
      cases result with
      | ok value => exact hstop fun h => by simpa using hretried.mp h
      | error error =>
        dsimp only at hstop ⊢
        split
        case isTrue hretryable =>
          obtain _ | _ | remaining := remaining
          · exact hstop fun _ => Nat.zero_le 1
          · exact hstop fun _ => le_rfl
          dsimp only
          split
          case isTrue hlate => exact hstop fun h => absurd h.1 (not_lt.mpr hlate)
          case isFalse hlate =>
            obtain ⟨n, hn, hearlier, hend, hrun⟩ := ih (remaining + 1) (by omega) (first + 1)
            rw [attemptState, hop] at hrun
            rw [next_delay, hrun]
            have hshift (k : Nat) : first + (k + 1) = first + 1 + k := by omega
            refine ⟨n + 1, by omega, fun k hk => ?_, fun h => ?_, by
              rw [hshift n, List.range'_succ, List.map_cons]⟩
            · obtain _ | k := k
              · exact hretried.mpr ⟨not_le.mp hlate, error, rfl, hretryable⟩
              · exact hshift k ▸ hearlier k (Nat.lt_of_succ_lt_succ hk)
            · exact Nat.succ_le_succ (hend (hshift n ▸ h))
        case isFalse hfinal =>
          refine hstop fun h => ?_
          obtain ⟨_, _, heq, htrue⟩ := hretried.mp h
          cases heq
          exact absurd htrue hfinal

/-- A run makes at least one attempt and at most as many as the policy says. Only transient
failures before the deadline are tried again, each after its delay, and the last attempt is the
answer. The deadline has to be a clock reading. -/
theorem run_ends (started : Int)
    (hfits : i64Min ≤ started + policy.deadlineMillis ∧
      started + policy.deadlineMillis ≤ i64Max) :
    ∃ last < max 1 policy.maxAttempts,
      (∀ k < last, Retried (started + policy.deadlineMillis) clock operation s k) ∧
      (Retried (started + policy.deadlineMillis) clock operation s last →
        policy.maxAttempts ≤ last + 1) ∧
      policy.run started clock operation s =
        ((operation last (attemptState operation s last)).1, ⟨last + 1, last⟩,
          (List.range last).map policy.delay, attemptState operation s (last + 1)) := by
  have h := policy.loop_ends (policy.deadline started) clock operation s policy.maxAttempts 0
  rw [deadline_eq hfits] at h
  simp only [Ends, Nat.zero_add, ← List.range_eq_range'] at h
  rw [run, deadline_eq hfits]
  exact h

/-- Counts the attempts; the first two fail on the way to the store. -/
def failsTwice (attempt : Nat) (done : Nat) : Except TaskStoreError Nat × Nat :=
  (if attempt < 2 then .error (.transient "connection reset") else .ok done, done + 1)

theorem run_ends_failsTwice :
    (default.run 1000 (fun k => 1000 + 40 * k) failsTwice 0).2 =
        (⟨3, 2⟩, [25000000, 50000000], 3) ∧
      ∃ last < 4, (∀ k < last, Retried 6000 (fun k => 1000 + 40 * k) failsTwice 0 k) ∧
        (Retried 6000 (fun k => 1000 + 40 * k) failsTwice 0 last → 4 ≤ last + 1) ∧
        default.run 1000 (fun k => 1000 + 40 * k) failsTwice 0 =
          ((failsTwice last (attemptState failsTwice 0 last)).1, ⟨last + 1, last⟩,
            (List.range last).map default.delay, attemptState failsTwice 0 (last + 1)) :=
  ⟨rfl, default.run_ends (fun k => 1000 + 40 * k) failsTwice 0 1000 (by decide)⟩

end TaskRetryPolicy

end Retry

variable {Target : Type}

/-! ## Steps that move a scheduled record -/

/-- The calls that move a task out of `scheduled`: its cancellation, and a scan at
a store time at which it is due. -/
def StoreEvent.unschedules (record : TaskRecord Target) : StoreEvent Target → Bool
  | .body _ (.cancel input) _ => input.taskId = record.taskId
  | .body now (.scanDue _) _ => record.dueAt ≤ now
  | _ => false

section Steps

variable {record : TaskRecord Target} {event : StoreEvent Target}

theorem StoreStep.of_unschedules [DecidableEq Target] {ids : IdSupply} {s t : MemoryState Target}
    (h : StoreStep ids s event t)
    (hstored : s.records.get? record.taskId = some record) (hstate : record.state = .scheduled)
    (hmoves : event.unschedules record = true) :
    ∃ next, t.records.get? record.taskId = some next ∧ next.state ≠ .scheduled := by
  cases h with
  | @body now call reply _ hexec =>
    cases call with
    | cancel input =>
      have hid : input.taskId = record.taskId := by simpa [unschedules] using hmoves
      simp only [MemoryState.exec, MemoryState.cancel, hid, hstored, cancel, hstate] at hexec
      cases hexec
      refine ⟨_, OrdMap.get?_insert_self .., ?_⟩
      exact TaskState.noConfusion
    | scanDue input =>
      have hdue : record.dueAt ≤ now := by simpa [unschedules] using hmoves
      cases hexec
      have hadvance : advanceDue record now = some { record with state := .ready } :=
        advanceDue_eq_some.mpr ⟨hstate, hdue, rfl⟩
      refine ⟨{ record with state := .ready }, ?_, by simp⟩
      change (s.scanDue now input).2.records.get? record.taskId = _
      rw [get?_scanDue, hstored, Option.map_some, scanRecord, hadvance]
      rfl
    | _ => cases hmoves
  | _ => cases hmoves

variable {stored' : Option (TaskRecord Target)} {history : List (StoreEvent Target)}

/-- Claims, heartbeats, settlements, recoveries and releases are all refused while
the task is scheduled. -/
theorem RecordStep.of_scheduled
    (h : RecordStep record.taskId event (some record) stored') (hstate : record.state = .scheduled)
    (hstays : event.unschedules record = false) : stored' = some record := by
  cases h with
  | recreated => rfl
  | advanced hadvance =>
    have hdue := (advanceDue_eq_some.mp hadvance).2.1
    simp [unschedules, hdue] at hstays
  | claimed hid hclaim =>
    have hready := (claim_eq_ok.mp hclaim).1
    simp [hstate] at hready
  | renewed hid hrenew =>
    obtain ⟨lease, hleased, -⟩ := renew_eq_ok.mp hrenew
    simp [hstate] at hleased
  | settled hid hsettle =>
    obtain ⟨lease, hleased, -⟩ := settle_eq_settled.mp hsettle
    simp [hstate] at hleased
  | canceled hid hcancel => simp [unschedules, hid] at hstays
  | recovered hid hrecover =>
    obtain ⟨lease, hleased, -⟩ := recoverExpiredLease_eq_ok.mp hrecover
    simp [hstate] at hleased
  | released hid hrelease =>
    obtain ⟨lease, hleased, -⟩ := release_eq_ok.mp hrelease
    simp [hstate] at hleased
  | kept => rfl

theorem RecordStep.not_scheduled {id : TaskId}
    (h : RecordStep id event (some record) stored') (hstate : record.state ≠ .scheduled) :
    ∃ next, stored' = some next ∧ next.state ≠ .scheduled := by
  cases h with
  | recreated | kept => exact ⟨_, rfl, hstate⟩
  | advanced hadvance => exact absurd (advanceDue_eq_some.mp hadvance).1 hstate
  | claimed hid hclaim =>
    obtain ⟨-, -, -, -, rfl⟩ := claim_eq_ok.mp hclaim
    exact ⟨_, rfl, by simp⟩
  | renewed hid hrenew =>
    obtain ⟨lease, -, -, -, -, -, rfl⟩ := renew_eq_ok.mp hrenew
    exact ⟨_, rfl, hstate⟩
  | @settled now input _ _ hid hsettle =>
    obtain ⟨lease, -, -, -, -, -, rfl⟩ := settle_eq_settled.mp hsettle
    refine ⟨_, rfl, ?_⟩
    cases hout : input.terminal.outcome <;>
      simp [TaskTerminal.state, TaskOutcome.terminalState, hout]
  | canceled hid hcancel =>
    obtain ⟨-, rfl⟩ := cancel_eq_ok.mp hcancel
    exact ⟨_, rfl, by simp⟩
  | recovered hid hrecover =>
    obtain ⟨lease, -, -, -, rfl⟩ := recoverExpiredLease_eq_ok.mp hrecover
    exact ⟨_, rfl, by simp⟩
  | released hid hrelease =>
    obtain ⟨lease, -, -, -, -, rfl⟩ := release_eq_ok.mp hrelease
    exact ⟨_, rfl, by simp⟩

/-! ## Runs between two creations -/

variable [DecidableEq Target] {ids : IdSupply} {s t : MemoryState Target}

/-- After any run the record is as submitted exactly when no step moved it. -/
theorem stored_after_run
    (h : Run (StoreStep ids) s history t) (hstored : s.records.get? record.taskId = some record)
    (hstate : record.state = .scheduled) :
    (t.records.get? record.taskId = some record ∧
      ∀ event ∈ history, event.unschedules record = false) ∨
    ((∃ next, t.records.get? record.taskId = some next ∧ next.state ≠ .scheduled) ∧
      ∃ event ∈ history, event.unschedules record = true) := by
  induction h with
  | nil => exact .inl ⟨hstored, by simp⟩
  | @cons s u t event history hstep hrun ih =>
    cases hmoves : event.unschedules record with
    | false =>
      have hrecord := hstep.recordStep record.taskId
      rw [hstored] at hrecord
      rcases ih (hrecord.of_scheduled hstate hmoves) with ⟨hsame, hquiet⟩ | ⟨hmoved, e, hmem, he⟩
      · exact .inl ⟨hsame, by simpa [hmoves] using hquiet⟩
      · exact .inr ⟨hmoved, e, by simp [hmem], he⟩
    | true =>
      have hmoved := hstep.of_unschedules hstored hstate hmoves
      refine .inr ⟨?_, event, by simp, hmoves⟩
      refine Run.invariant (P := fun s => ∃ next, s.records.get? record.taskId = some next ∧
        next.state ≠ .scheduled) ?_ hrun hmoved
      rintro s e t ⟨next, hnext, hne⟩ hstep
      have hrecord := hstep.recordStep record.taskId
      rw [hnext] at hrecord
      exact hrecord.not_scheduled hne

/-- The answer a repeated `create` is documented to give: the existing record. -/
def MemoryState.AcknowledgesRepeat (s : MemoryState Target) (record : TaskRecord Target) : Prop :=
  ∃ existing, s.records.get? record.taskId = some existing ∧ (s.create record).1 = .ok existing

/-- A creation that was once acknowledged is acknowledged again exactly when, in
between, the task was not canceled and no scan ran at a time at which it is due.
Otherwise the repetition is refused as a duplicate. -/
theorem repeated_create_acknowledged_iff {history : List (StoreEvent Target)}
    {first : MemoryState Target} (hfirst : first.create record = (.ok record, s))
    (h : Run (StoreStep ids) s history t) :
    t.AcknowledgesRepeat record ↔ ∀ event ∈ history, event.unschedules record = false := by
  have hcreated : record.validateCreate = .ok () ∧ s.records.get? record.taskId = some record := by
    rcases create_cases hfirst with
      ⟨hvalid, -, -, rfl⟩ | ⟨hvalid, hsame, -, rfl⟩ | ⟨⟨error, herror⟩, -⟩
    · exact ⟨hvalid, by simp⟩
    · exact ⟨hvalid, hsame⟩
    · cases herror
  obtain ⟨hvalid, hstored⟩ := hcreated
  have hstate := (TaskRecord.validateCreate_ok hvalid).1
  rcases stored_after_run h hstored hstate with ⟨hsame, hquiet⟩ | ⟨⟨next, hnext, hne⟩, e, hmem, he⟩
  · refine iff_of_true ⟨record, hsame, ?_⟩ hquiet
    simp [create, hvalid, hsame]
  have hdiffers : next ≠ record := by
    rintro rfl
    exact hne hstate
  refine iff_of_false ?_ (fun hquiet => by simp [hquiet e hmem] at he)
  rintro ⟨existing, -, hreply⟩
  simp [create, hvalid, hnext, hdiffers] at hreply

end Steps

/-! ## A lost acknowledgement -/

/-- One attempt as the client sees it. An acknowledgement lost on the way back
leaves the write in place and shows as a transient failure. -/
def MemoryState.createAttempt [DecidableEq Target] (record : TaskRecord Target) (ackLost : Bool)
    (s : MemoryState Target) :
    Except TaskStoreError (TaskRecord Target) × MemoryState Target :=
  match s.create record with
  | (.ok existing, t) =>
    (if ackLost then .error (.transient "acknowledgement lost") else .ok existing, t)
  | (.error error, t) => (.error error, t)

/-- The first attempt commits and its acknowledgement is lost; a scheduler scans at
20, when the task is due, before the retry. -/
def scannedBeforeRetry (attempt : Nat) (s : MemoryState Unit) :
    Except TaskStoreError (TaskRecord Unit) × MemoryState Unit :=
  if attempt = 0 then
    let (result, t) := s.createAttempt sampleRecord true
    (result, (t.scanDue 20 ⟨8⟩).2)
  else s.createAttempt sampleRecord false

/-- The retried creation of one and the same record is refused as a duplicate. -/
theorem repeated_create_refused :
    (TaskRetryPolicy.default.run 0 (fun _ => 0) scannedBeforeRetry .empty).1 =
      .error (.duplicateTaskId ⟨"task-1"⟩ "same TaskId with a different canonical record") ∧
    ¬ ∀ (first s t : MemoryState Unit) (history : List (StoreEvent Unit)),
      first.create sampleRecord = (.ok sampleRecord, s) →
      Run (StoreStep memoryIds) s history t → t.AcknowledgesRepeat sampleRecord := by
  refine ⟨by decide, ?_⟩
  intro hclaimed
  obtain ⟨history, t, hrun, hcheck⟩ := exists_run memoryIds
    (empty.create sampleRecord).2 [(20, .scanDue ⟨8⟩)]
    (fun _ t => (t.create sampleRecord).1.toOption.isNone) (by decide)
  obtain ⟨existing, -, hreply⟩ := hclaimed .empty _ t history rfl hrun
  simp [hreply, Except.toOption] at hcheck

/-- A scan and a claim that come too early do not disturb the repetition. -/
theorem repeated_create_acknowledged_early :
    ∃ (s t : MemoryState Unit) (history : List (StoreEvent Unit)),
      empty.create sampleRecord = (.ok sampleRecord, s) ∧
      Run (StoreStep memoryIds) s history t ∧ history.length = 2 ∧
      t.AcknowledgesRepeat sampleRecord := by
  obtain ⟨history, t, hrun, hcheck⟩ := exists_run memoryIds
    (empty.create sampleRecord).2
    [(9, .scanDue ⟨8⟩), (9, .claim ⟨⟨"task-1"⟩, "a", 30, true⟩)]
    (fun history _ => history.length = 2 ∧ history.all fun event =>
      event.unschedules sampleRecord = false) (by decide)
  obtain ⟨hlength, hquiet⟩ := of_decide_eq_true hcheck
  have hfirst : empty.create sampleRecord =
      (.ok sampleRecord, (empty.create sampleRecord).2) := rfl
  refine ⟨_, t, history, hfirst, hrun, hlength, ?_⟩
  exact (repeated_create_acknowledged_iff hfirst hrun).mpr (by simpa using hquiet)

end Skiff.Task
