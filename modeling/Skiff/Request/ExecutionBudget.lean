import Skiff.Request.MemoryLedger

/-!
# The execution budget

`ExecutionBudget` (`runtime/request/src/execution_budget.rs`) decides how a request ends.
Completion, cancellation, the deadline, the instruction limit and accounting failures all
go through one locked state, which is frozen at most once.

A method is a section under the lock with the reading of the clock that it takes there.
Whoever freezes the state through `settle`, `request_cancel`, `request_internal_stop`,
`register_pending_sink` or `pending_terminal_winner` then takes the registered sinks in a
second section and notifies them one by one without the lock; the calls in between are in
`BudgetSystem`. The sections of the VM adapter freeze and return.
-/

namespace Skiff.Request

open Mut Option

abbrev Instant := Nat
abbrev PendingSink := Nat

structure ExecutionBudgetPolicy where
  hardRawLimit : Nat
  rawPollInterval : Nat
  hardRawLimit_le : hardRawLimit ≤ u64Max
  rawPollInterval_pos : 0 < rawPollInterval

inductive ExecutionWinner where
  | succeeded
  | failed
  | cancelled
  | deadlineExceeded
  | instructionLimitExceeded
  | internalStop
  | accountingFailure
deriving DecidableEq

inductive CompletionCandidate where
  | success
  | failure

def CompletionCandidate.winner : CompletionCandidate → ExecutionWinner
  | success => .succeeded
  | failure => .failed

structure ExecutionSettlement where
  winner : ExecutionWinner
  rawExecutedCount : Nat
  semanticChargeCount : Nat
  hardRawLimit : Nat
  pollCount : Nat
  startedAt : Instant
  finishedAt : Instant

/-- A closed budget, by this call or by an earlier one. `VmBudgetTerminal` has the names of
the winners. -/
inductive VmBudgetClosed where
  | deadlineExceeded
  | instructionLimitExceeded
  | accountingFailure
  | alreadySettled (terminal : ExecutionWinner)

inductive VmAdapterAttachError where
  | alreadyAttached
  | alreadySettled

structure ExecutionBudgetState where
  rawExecutedCount : Nat := 0
  semanticChargeCount : Nat := 0
  pollCount : Nat := 0
  lastPolledRawCount : Option Nat := none
  vmAdapterAttached : Bool := false
  settlement : Option ExecutionSettlement := none
  pendingSinks : List PendingSink := []

structure ExecutionBudget where
  policy : ExecutionBudgetPolicy
  deadline : Option Instant
  startedAt : Instant

namespace ExecutionBudget

variable (budget : ExecutionBudget)

def deadlineIsDue (now : Instant) : Bool := budget.deadline.any fun deadline => deadline ≤ now

def freeze (state : ExecutionBudgetState) (winner : ExecutionWinner) (finishedAt : Instant) :
    ExecutionBudgetState :=
  { state with settlement := some {
      winner := winner
      rawExecutedCount := state.rawExecutedCount
      semanticChargeCount := state.semanticChargeCount
      hardRawLimit := budget.policy.hardRawLimit
      pollCount := state.pollCount
      startedAt := budget.startedAt
      finishedAt := finishedAt } }

def alreadyClosed (settlement : ExecutionSettlement) : VmBudgetClosed :=
  .alreadySettled settlement.winner

/-! ## Sections of the VM adapter -/

abbrev VmBudgetM (α : Type) : Type := Mut ExecutionBudgetState VmBudgetClosed α

/-- Fail when the state is frozen. -/
def ensureOpen : VmBudgetM Unit := read fun state =>
  match state.settlement with
  | some settlement => .error (alreadyClosed settlement)
  | none => .ok ()

/-- Freeze and report it. -/
def close {α : Type} (winner : ExecutionWinner) (closed : VmBudgetClosed) (now : Instant) :
    VmBudgetM α := do
  modify fun state => budget.freeze state winner now
  fail closed

def recordPoll (state : ExecutionBudgetState) (pollCount : Nat) : ExecutionBudgetState :=
  { state with pollCount := pollCount, lastPolledRawCount := some state.rawExecutedCount }

def pollLocked (now : Instant) : VmBudgetM Unit := do
  ensureOpen
  let nextPoll ← read fun state => .ok (checkedAdd state.pollCount 1)
  if budget.deadlineIsDue now then do
    modify fun state => nextPoll.elim state (recordPoll state)
    budget.close .deadlineExceeded .deadlineExceeded now
  else
    match nextPoll with
    | some nextPoll => modify fun state => recordPoll state nextPoll
    | none => budget.close .accountingFailure .accountingFailure now

def freezeAccountingAfterDeadlineCheck (now : Instant) : VmBudgetM Unit :=
  if budget.deadlineIsDue now then budget.close .deadlineExceeded .deadlineExceeded now
  else budget.close .accountingFailure .accountingFailure now

/-- A poll is due once in every interval, unless one was made at this very count. -/
def pollIsDue (state : ExecutionBudgetState) : Bool :=
  state.rawExecutedCount % budget.policy.rawPollInterval = 0 ∧
    state.lastPolledRawCount ≠ some state.rawExecutedCount

def pollIfDue (now : Instant) : VmBudgetM Unit := do
  let due ← read fun state => .ok (budget.pollIsDue state)
  if due then budget.pollLocked now else pure ()

/-- The clock is read by the poll, and again if the count overflows. -/
def beforeDispatch (now later : Instant) : VmBudgetM Unit := do
  ensureOpen
  let limited ← read fun state => .ok (decide (budget.policy.hardRawLimit ≤ state.rawExecutedCount))
  if limited then do
    budget.pollLocked now
    budget.close .instructionLimitExceeded .instructionLimitExceeded now
  else do
    budget.pollIfDue now
    let nextRaw ← read fun state => .ok (checkedAdd state.rawExecutedCount 1)
    match nextRaw with
    | none => budget.freezeAccountingAfterDeadlineCheck later
    | some nextRaw => modify fun state => { state with rawExecutedCount := nextRaw }

def pollInterrupt (now : Instant) : VmBudgetM Unit := budget.pollLocked now

def chargeSemantic (now : Instant) : VmBudgetM Unit := do
  ensureOpen
  let nextSemantic ← read fun state => .ok (checkedAdd state.semanticChargeCount 1)
  match nextSemantic with
  | none => budget.freezeAccountingAfterDeadlineCheck now
  | some nextSemantic => modify fun state => { state with semanticChargeCount := nextSemantic }

/-! ### What they can do -/

section Outcomes

variable {budget} {state next : ExecutionBudgetState} {r : Except VmBudgetClosed Unit}
    {now : Instant}

/-- The state at a poll, or without one. -/
def Polled (state polled : ExecutionBudgetState) : Prop :=
  polled = state ∨ polled = recordPoll state (state.pollCount + 1)

/-- An open state is frozen at a reading of the clock. A due deadline wins. -/
def Freezes (budget : ExecutionBudget) (state next : ExecutionBudgetState)
    (readings : List Instant) :
    Prop :=
  state.settlement = none ∧ ∃ polled winner now, Polled state polled ∧ now ∈ readings ∧
    (budget.deadlineIsDue now = true → winner = .deadlineExceeded) ∧
    next = budget.freeze polled winner now

/-- The section found a settlement, or froze the state for a cause. -/
def Stopped (budget : ExecutionBudget) (state next : ExecutionBudgetState) (readings : List Instant)
    (cause : Prop) (r : Except VmBudgetClosed Unit) : Prop :=
  (∃ settlement, state.settlement = some settlement ∧ r = .error (alreadyClosed settlement) ∧
    next = state) ∨
  (∃ closed, r = .error closed) ∧ cause ∧ Freezes budget state next readings

/-- What makes a poll close the budget. -/
def PollCloses (budget : ExecutionBudget) (state : ExecutionBudgetState) (now : Instant) : Prop :=
  budget.deadlineIsDue now = true ∨ u64Max ≤ state.pollCount

variable {readings : List Instant} {cause : Prop}

theorem Stopped.mono {cause' : Prop} {readings' : List Instant}
    (h : Stopped budget state next readings cause r) (hcause : cause → cause')
    (hreadings : ∀ now ∈ readings, now ∈ readings') :
    Stopped budget state next readings' cause' r := by
  obtain hsettled | ⟨hr, hc, hopen, polled, winner, now, hpolled, hmem, hrest⟩ := h
  · exact .inl hsettled
  · exact .inr ⟨hr, hcause hc, hopen, polled, winner, now, hpolled, hreadings now hmem, hrest⟩

theorem ensureOpen_cases {m : VmBudgetM Unit} (budget : ExecutionBudget) (readings : List Instant)
    (cause : Prop) (h : (ensureOpen >>= fun _ => m) state = (r, next)) :
    Stopped budget state next readings cause r ∨ state.settlement = none ∧ m state = (r, next) := by
  obtain ⟨closed, hr, hread, rfl⟩ | ⟨_, hread, h⟩ := read_cases h
  · split at hread
    case h_1 settlement hsettled =>
      cases hread
      exact .inl (.inl ⟨settlement, hsettled, hr, rfl⟩)
    case h_2 => cases hread
  split at hread
  case h_1 => cases hread
  case h_2 hopen => exact .inr ⟨hopen, h⟩

variable {polled : ExecutionBudgetState}

theorem close_stopped {winner : ExecutionWinner} {closed : VmBudgetClosed}
    (hopen : state.settlement = none) (hpolled : Polled state polled) (hcause : cause)
    (hwinner : budget.deadlineIsDue now = true → winner = .deadlineExceeded)
    (h : budget.close winner closed now polled = (r, next)) :
    Stopped budget state next [now] cause r := by
  cases h
  exact .inr
    ⟨⟨closed, rfl⟩, hcause, hopen, polled, winner, now, hpolled, List.mem_singleton_self now,
    hwinner, rfl⟩

theorem pollLocked_cases (h : budget.pollLocked now state = (r, next)) :
    Stopped budget state next [now] (PollCloses budget state now) r ∨
      state.settlement = none ∧ r = .ok () ∧ budget.deadlineIsDue now = false ∧
      next = recordPoll state (state.pollCount + 1) := by
  obtain hstopped | ⟨hopen, h⟩ := ensureOpen_cases budget [now] (PollCloses budget state now) h
  · exact .inl hstopped
  obtain ⟨_, -, hread, -⟩ | ⟨nextPoll, hread, h⟩ := read_cases h
  · cases hread
  have hnext : checkedAdd state.pollCount 1 = nextPoll := Except.ok.inj hread
  split at h
  case isTrue hdue =>
    refine .inl (close_stopped hopen ?_ (.inl hdue) (fun _ => rfl) h)
    cases nextPoll with
    | none => exact .inl rfl
    | some nextPoll =>
      obtain ⟨rfl, -⟩ := checkedAdd_eq_some.mp hnext
      exact .inr rfl
  case isFalse hdue =>
    cases nextPoll with
    | none =>
      have hmax : u64Max ≤ state.pollCount := Nat.le_of_lt_succ (checkedAdd_eq_none.mp hnext)
      exact .inl (close_stopped hopen (.inl rfl) (.inr hmax) (fun htrue => absurd htrue hdue) h)
    | some nextPoll =>
      obtain ⟨rfl, -⟩ := checkedAdd_eq_some.mp hnext
      cases h
      exact .inr ⟨hopen, rfl, by simpa using hdue, rfl⟩

theorem freezeAccounting_cases (hopen : state.settlement = none)
    (hpolled : Polled state polled) (hcause : cause)
    (h : budget.freezeAccountingAfterDeadlineCheck now polled = (r, next)) :
    Stopped budget state next [now] cause r := by
  unfold freezeAccountingAfterDeadlineCheck at h
  split at h
  case isTrue => exact close_stopped hopen hpolled hcause (fun _ => rfl) h
  case isFalse hdue => exact close_stopped hopen hpolled hcause (fun htrue => absurd htrue hdue) h

theorem pollInterrupt_cases (h : budget.pollInterrupt now state = (r, next)) :
    Stopped budget state next [now] (PollCloses budget state now) r ∨
      state.settlement = none ∧ r = .ok () ∧ next = recordPoll state (state.pollCount + 1) := by
  obtain hstopped | ⟨hopen, hr, -, hnext⟩ := pollLocked_cases h
  · exact .inl hstopped
  · exact .inr ⟨hopen, hr, hnext⟩

theorem chargeSemantic_cases (h : budget.chargeSemantic now state = (r, next)) :
    Stopped budget state next [now] (u64Max ≤ state.semanticChargeCount) r ∨
      state.settlement = none ∧ r = .ok () ∧
      next = { state with semanticChargeCount := state.semanticChargeCount + 1 } := by
  obtain hstopped | ⟨hopen, h⟩ :=
    ensureOpen_cases budget [now] (u64Max ≤ state.semanticChargeCount) h
  · exact .inl hstopped
  obtain ⟨_, -, hread, -⟩ | ⟨nextSemantic, hread, h⟩ := read_cases h
  · cases hread
  have hnext : checkedAdd state.semanticChargeCount 1 = nextSemantic := Except.ok.inj hread
  cases nextSemantic with
  | none =>
    have hmax : u64Max ≤ state.semanticChargeCount :=
      Nat.le_of_lt_succ (checkedAdd_eq_none.mp hnext)
    exact .inl (freezeAccounting_cases hopen (.inl rfl) hmax h)
  | some nextSemantic =>
    obtain ⟨rfl, -⟩ := checkedAdd_eq_some.mp hnext
    cases h
    exact .inr ⟨hopen, rfl, rfl⟩

/-- What makes a dispatch close the budget. -/
def DispatchCloses (budget : ExecutionBudget) (state : ExecutionBudgetState) (now : Instant) :
    Prop :=
  budget.policy.hardRawLimit ≤ state.rawExecutedCount ∨
    budget.pollIsDue state = true ∧ PollCloses budget state now

theorem recordPoll_ne (state : ExecutionBudgetState) :
    recordPoll state (state.pollCount + 1) ≠ state := by
  intro heq
  have hcount := congrArg ExecutionBudgetState.pollCount heq
  exact Nat.succ_ne_self _ hcount

theorem pollIfDue_cases (h : budget.pollIfDue now state = (r, next)) :
    Stopped budget state next [now]
    (budget.pollIsDue state = true ∧ PollCloses budget state now) r ∨
      r = .ok () ∧ Polled state next ∧ (next = state → budget.pollIsDue state = false) := by
  obtain ⟨_, -, hread, -⟩ | ⟨due, hread, h⟩ := read_cases h
  · cases hread
  have hdue : budget.pollIsDue state = due := Except.ok.inj hread
  split at h
  case isTrue htrue =>
    obtain hstopped | ⟨-, hr, -, rfl⟩ := pollLocked_cases h
    · exact .inl (hstopped.mono (fun hcloses => ⟨hdue.trans htrue, hcloses⟩) fun _ hmem => hmem)
    · exact .inr ⟨hr, .inr rfl, fun heq => absurd heq (recordPoll_ne state)⟩
  case isFalse hnot =>
    cases h
    rw [Bool.not_eq_true] at hnot
    exact .inr ⟨rfl, .inl rfl, fun _ => hdue.trans hnot⟩

/-- A section that stopped did not succeed. -/
theorem Stopped.not_ok (h : Stopped budget state next readings cause (.ok ())) : False := by
  obtain ⟨_, -, hr, -⟩ | ⟨⟨_, hr⟩, -⟩ := h
  · cases hr
  · cases hr

theorem beforeDispatch_cases {later : Instant}
    (h : budget.beforeDispatch now later state = (r, next)) :
    Stopped budget state next [now, later] (DispatchCloses budget state now) r ∨
      state.settlement = none ∧ r = .ok () ∧
      state.rawExecutedCount < budget.policy.hardRawLimit ∧
      ∃ polled, Polled state polled ∧ (polled = state → budget.pollIsDue state = false) ∧
        next = { polled with rawExecutedCount := state.rawExecutedCount + 1 } := by
  have hnow : ∀ reading ∈ [now], reading ∈ [now, later] := by simp
  obtain hstopped | ⟨hopen, h⟩ :=
    ensureOpen_cases budget [now, later] (DispatchCloses budget state now) h
  · exact .inl hstopped
  obtain ⟨_, -, hread, -⟩ | ⟨limited, hread, h⟩ := read_cases h
  · cases hread
  have hlimited : decide (budget.policy.hardRawLimit ≤ state.rawExecutedCount) = limited :=
    Except.ok.inj hread
  split at h
  case isTrue htrue =>
    have hlimit : budget.policy.hardRawLimit ≤ state.rawExecutedCount := by
      rw [htrue] at hlimited
      exact of_decide_eq_true hlimited
    refine .inl
      (Stopped.mono (?_ : Stopped budget state next [now] (DispatchCloses budget state now) r)
      id hnow)
    obtain ⟨closed, hr, hpoll⟩ | ⟨_, polled, hpoll, h⟩ := bind_cases h
    · obtain hstopped | ⟨-, hok, -⟩ := pollLocked_cases hpoll
      · rw [hr]
        exact hstopped.mono (fun _ => .inl hlimit) fun _ hmem => hmem
      · cases hok
    obtain hstopped | ⟨-, -, hdue, rfl⟩ := pollLocked_cases hpoll
    · exact hstopped.not_ok.elim
    refine close_stopped hopen (.inr rfl) (.inl hlimit) (fun htrue => ?_) h
    rw [hdue] at htrue
    cases htrue
  case isFalse hfalse =>
    have hlimit : state.rawExecutedCount < budget.policy.hardRawLimit := by
      rw [Bool.not_eq_true] at hfalse
      rw [hfalse] at hlimited
      exact Nat.lt_of_not_le (of_decide_eq_false hlimited)
    obtain ⟨closed, hr, hpoll⟩ | ⟨_, polled, hpoll, h⟩ := bind_cases h
    · obtain hstopped | ⟨hok, -⟩ := pollIfDue_cases hpoll
      · rw [hr]
        exact .inl (hstopped.mono .inr hnow)
      · cases hok
    obtain hstopped | ⟨-, hpolled⟩ := pollIfDue_cases hpoll
    · exact hstopped.not_ok.elim
    have hraw : polled.rawExecutedCount = state.rawExecutedCount := by
      obtain rfl | rfl := hpolled.1
      · rfl
      · rfl
    have hadd : checkedAdd polled.rawExecutedCount 1 = some (state.rawExecutedCount + 1) := by
      have hmax := budget.policy.hardRawLimit_le
      exact checkedAdd_eq_some.mpr ⟨by rw [hraw], by omega⟩
    obtain ⟨_, -, hread, -⟩ | ⟨nextRaw, hread, h⟩ := read_cases h
    · cases hread
    obtain rfl : some (state.rawExecutedCount + 1) = nextRaw :=
      hadd.symm.trans (Except.ok.inj hread)
    cases h
    exact .inr ⟨hopen, rfl, hlimit, polled, hpolled.1, hpolled.2, rfl⟩

end Outcomes

/-! ## Sections of the request -/

def attachVm (state : ExecutionBudgetState) :
    Except VmAdapterAttachError Unit × ExecutionBudgetState :=
  match state.settlement with
  | some _ => (.error .alreadySettled, state)
  | none =>
    if state.vmAdapterAttached then (.error .alreadyAttached, state)
    else (.ok (), { state with vmAdapterAttached := true })

/-- What a frozen state says, or the winner that a section selects now. -/
inductive Arbitration where
  | alreadySettled (settlement : ExecutionSettlement)
  | won (winner : ExecutionWinner)
  | still

/-- `settle_requested` up to the end of its section. -/
def settleRequested (requested : ExecutionWinner) (now : Instant) (state : ExecutionBudgetState) :
    Arbitration × ExecutionBudgetState :=
  match state.settlement with
  | some settlement => (.alreadySettled settlement, state)
  | none =>
    let winner := if budget.deadlineIsDue now then .deadlineExceeded else requested
    (.won winner, budget.freeze state winner now)

/-- `pending_terminal_winner` up to the end of its section. -/
def pendingTerminalWinner (now : Instant) (state : ExecutionBudgetState) :
    Arbitration × ExecutionBudgetState :=
  match state.settlement with
  | some settlement => (.alreadySettled settlement, state)
  | none =>
    if budget.deadlineIsDue now then
      (.won .deadlineExceeded, budget.freeze state .deadlineExceeded now)
    else (.still, state)

/-- `register_pending_sink` differs in that it keeps the sink of an open budget. -/
def registerPendingSink (sink : PendingSink) (now : Instant) (state : ExecutionBudgetState) :
    Arbitration × ExecutionBudgetState :=
  match budget.pendingTerminalWinner now state with
  | (.still, state) => (.still, { state with pendingSinks := state.pendingSinks ++ [sink] })
  | settled => settled

section Arbitration

variable {budget} {state next : ExecutionBudgetState} {now : Instant} {arbitration : Arbitration}

/-- The section found a settlement or selected a winner. -/
def Decided (budget : ExecutionBudget) (state next : ExecutionBudgetState) (now : Instant)
    (arbitration : Arbitration) : Prop :=
  (∃ settlement, state.settlement = some settlement ∧ arbitration = .alreadySettled settlement ∧
    next = state) ∨
  ∃ winner, state.settlement = none ∧ arbitration = .won winner ∧
    (budget.deadlineIsDue now = true → winner = .deadlineExceeded) ∧
    next = budget.freeze state winner now

theorem settleRequested_cases {requested : ExecutionWinner}
    (h : budget.settleRequested requested now state = (arbitration, next)) :
    Decided budget state next now arbitration := by
  unfold settleRequested at h
  split at h
  case h_1 settlement hsettled =>
    cases h
    exact .inl ⟨settlement, hsettled, rfl, rfl⟩
  case h_2 hopen =>
    cases h
    exact .inr ⟨_, hopen, rfl, fun hdue => if_pos hdue, rfl⟩

theorem pendingTerminalWinner_cases
    (h : budget.pendingTerminalWinner now state = (arbitration, next)) :
    Decided budget state next now arbitration ∨
      state.settlement = none ∧ arbitration = .still ∧ next = state := by
  unfold pendingTerminalWinner at h
  split at h
  case h_1 settlement hsettled =>
    cases h
    exact .inl (.inl ⟨settlement, hsettled, rfl, rfl⟩)
  case h_2 hopen =>
    split at h
    case isTrue =>
      cases h
      exact .inl (.inr ⟨_, hopen, rfl, fun _ => rfl, rfl⟩)
    case isFalse =>
      cases h
      exact .inr ⟨hopen, rfl, rfl⟩

theorem registerPendingSink_cases {sink : PendingSink}
    (h : budget.registerPendingSink sink now state = (arbitration, next)) :
    Decided budget state next now arbitration ∨
      state.settlement = none ∧ arbitration = .still ∧
      next = { state with pendingSinks := state.pendingSinks ++ [sink] } := by
  unfold registerPendingSink at h
  split at h
  case h_1 state' hstill =>
    obtain ⟨settlement, -, hne, -⟩ | ⟨winner, -, hne, -⟩ | ⟨hopen, -, rfl⟩ :=
      or_assoc.mp (pendingTerminalWinner_cases hstill)
    · cases hne
    · cases hne
    cases h
    exact .inr ⟨hopen, rfl, rfl⟩
  case h_2 hsettled =>
    obtain hdecided | ⟨-, rfl, -⟩ := pendingTerminalWinner_cases h
    · exact .inl hdecided
    · exact absurd h (hsettled next)

end Arbitration

end ExecutionBudget

/-! ## Interleavings -/

/-- What is left of a call that selected the winner. -/
inductive BudgetCall where
  | completing (winner : ExecutionWinner)
  | notifying (winner : ExecutionWinner) (sinks : List PendingSink)

namespace BudgetCall

def winner : BudgetCall → ExecutionWinner
  | completing winner => winner
  | notifying winner _ => winner

/-- The sinks that are taken and not notified. -/
def sinks : BudgetCall → List PendingSink
  | completing _ => []
  | notifying _ sinks => sinks

end BudgetCall

/-- The state, the calls that are still notifying, the notifications so far and the clock. -/
structure BudgetSystem where
  state : ExecutionBudgetState := {}
  calls : OrdMap Nat BudgetCall := ∅
  notified : List (PendingSink × ExecutionWinner) := []
  clock : Instant := 0

inductive BudgetEvent where
  | attachVm
  | beforeDispatch (now later : Instant)
  | pollInterrupt (now : Instant)
  | chargeSemantic (now : Instant)
  | settle (call : Nat) (candidate : CompletionCandidate) (now : Instant)
  | requestCancel (call : Nat) (now : Instant)
  | requestInternalStop (call : Nat) (now : Instant)
  | registerPendingSink (call : Nat) (sink : PendingSink) (now : Instant)
  | pendingTerminalWinner (call : Nat) (now : Instant)
  /-- The next step of a call after its first section. -/
  | resume (call : Nat)

/-- What a call returns, known after its first section. -/
inductive BudgetResponse where
  | attach (result : Except VmAdapterAttachError Unit)
  | vm (result : Except VmBudgetClosed Unit)
  | arbitration (arbitration : ExecutionBudget.Arbitration)
  | resumed

structure BudgetLabel where
  event : BudgetEvent
  response : BudgetResponse
  /-- Whether the deadline was polled. -/
  polled : Bool

namespace BudgetSystem

variable (budget : ExecutionBudget) (s : BudgetSystem)

/-- A section of the adapter. -/
def vm (m : ExecutionBudget.VmBudgetM Unit) : BudgetResponse × BudgetSystem :=
  let (result, state) := m s.state
  (.vm result, { s with state := state })

/-- The first section of a call; the call goes on if it selected the winner. -/
def arbitrate (call : Nat)
    (m : ExecutionBudgetState → ExecutionBudget.Arbitration × ExecutionBudgetState) :
    Option (BudgetResponse × BudgetSystem) :=
  if s.calls.contains call then none
  else
    match m s.state with
    | (.won winner, state) => some (.arbitration (.won winner),
        { s with state := state, calls := s.calls.insert call (.completing winner) })
    | (arbitration, state) => some (.arbitration arbitration, { s with state := state })

/-- `complete_pending_sinks`: take the sinks, then notify each of them. -/
def resume (call : Nat) : Option BudgetSystem :=
  match s.calls.get? call with
  | none => none
  | some (.completing winner) => some { s with
      state := { s.state with pendingSinks := [] }
      calls := s.calls.insert call (.notifying winner s.state.pendingSinks) }
  | some (.notifying _ []) => some { s with calls := s.calls.erase call }
  | some (.notifying winner (sink :: rest)) => some { s with
      calls := s.calls.insert call (.notifying winner rest)
      notified := s.notified ++ [(sink, winner)] }

/-- The readings of the clock, in order. -/
def readings : BudgetEvent → List Instant
  | .attachVm | .resume _ => []
  | .beforeDispatch now later => [now, later]
  | .pollInterrupt now | .chargeSemantic now => [now]
  | .settle _ _ now | .requestCancel _ now | .requestInternalStop _ now => [now]
  | .registerPendingSink _ _ now | .pendingTerminalWinner _ now => [now]

def perform : BudgetEvent → Option (BudgetResponse × BudgetSystem)
  | .attachVm =>
    let (result, state) := ExecutionBudget.attachVm s.state
    some (.attach result, { s with state := state })
  | .beforeDispatch now later => some (s.vm (budget.beforeDispatch now later))
  | .pollInterrupt now => some (s.vm (budget.pollInterrupt now))
  | .chargeSemantic now => some (s.vm (budget.chargeSemantic now))
  | .settle call candidate now => s.arbitrate call (budget.settleRequested candidate.winner now)
  | .requestCancel call now => s.arbitrate call (budget.settleRequested .cancelled now)
  | .requestInternalStop call now => s.arbitrate call (budget.settleRequested .internalStop now)
  | .registerPendingSink call sink now => s.arbitrate call (budget.registerPendingSink sink now)
  | .pendingTerminalWinner call now => s.arbitrate call (budget.pendingTerminalWinner now)
  | .resume call => (s.resume call).map (.resumed, ·)

/-- One section under a clock that never goes back. -/
def Step (s : BudgetSystem) (label : BudgetLabel) (t : BudgetSystem) : Prop :=
  (s.clock :: readings label.event).Pairwise (· ≤ ·) ∧
    ∃ next, s.perform budget label.event = some (label.response, next) ∧
      t = { next with clock := (readings label.event).getLast?.getD s.clock } ∧
      label.polled = decide (s.state.pollCount < t.state.pollCount)

/-! ## What a step can do -/

end BudgetSystem

/-- What a call says about a settlement that it found. -/
def BudgetResponse.Observes (settlement : ExecutionSettlement) : BudgetResponse → Prop
  | attach result => result = .error .alreadySettled
  | vm result => result = .error (.alreadySettled settlement.winner)
  | arbitration found => found = .alreadySettled settlement
  | resumed => True

/-- A successful dispatch. -/
def BudgetLabel.dispatched (label : BudgetLabel) : Bool :=
  match label.event, label.response with
  | .beforeDispatch _ _, .vm (.ok ()) => true
  | _, _ => false

/-- A registration that returned `None`. -/
def BudgetLabel.registered (label : BudgetLabel) : Option PendingSink :=
  match label.event, label.response with
  | .registerPendingSink _ sink _, .arbitration .still => some sink
  | _, _ => none

theorem BudgetLabel.dispatched_eq_false {label : BudgetLabel} (h : label.response ≠ .vm (.ok ())) :
    label.dispatched = false := by
  unfold BudgetLabel.dispatched
  split
  case h_1 hresponse => exact absurd hresponse h
  case h_2 => rfl

theorem BudgetLabel.registered_eq_none {label : BudgetLabel}
    (h : label.response ≠ .arbitration .still) : label.registered = none := by
  unfold BudgetLabel.registered
  split
  case h_1 hresponse => exact absurd hresponse h
  case h_2 => rfl

namespace BudgetSystem

open ExecutionBudget

/-- The adapter's sections that close an open budget: a poll that finds the deadline due or
the poll count used up, a dispatch at the limit, or a charge with its count used up. -/
def AdapterCloses (budget : ExecutionBudget) (state : ExecutionBudgetState) : BudgetEvent → Prop
  | .beforeDispatch now _ => DispatchCloses budget state now
  | .pollInterrupt now => PollCloses budget state now
  | .chargeSemantic _ => u64Max ≤ state.semanticChargeCount
  | _ => False

/-- The states that a step can lead to, the clock left out. -/
inductive Effect (budget : ExecutionBudget) (s : BudgetSystem) (label : BudgetLabel) :
    ExecutionBudgetState → OrdMap Nat BudgetCall → List (PendingSink × ExecutionWinner) → Prop where
  | observed (settlement) : s.state.settlement = some settlement →
      label.response.Observes settlement → Effect budget s label s.state s.calls s.notified
  | stopped {next} : Freezes budget s.state next (readings label.event) →
      AdapterCloses budget s.state label.event → (∃ closed, label.response = .vm (.error closed)) →
      Effect budget s label next s.calls s.notified
  | won (call winner now) : s.state.settlement = none → now ∈ readings label.event →
      (budget.deadlineIsDue now = true → winner = .deadlineExceeded) →
      label.response = .arbitration (.won winner) → s.calls.get? call = none →
      Effect budget s label (budget.freeze s.state winner now)
        (s.calls.insert call (.completing winner)) s.notified
  | dispatched (polled) : s.state.settlement = none → label.dispatched = true →
      s.state.rawExecutedCount < budget.policy.hardRawLimit → Polled s.state polled →
      (polled = s.state → budget.pollIsDue s.state = false) →
      Effect budget s label { polled with rawExecutedCount := s.state.rawExecutedCount + 1 }
        s.calls s.notified
  | polled : s.state.settlement = none → label.dispatched = false → label.registered = none →
      Effect budget s label (recordPoll s.state (s.state.pollCount + 1)) s.calls s.notified
  | charged : s.state.settlement = none → label.dispatched = false → label.registered = none →
      Effect budget s label
        { s.state with semanticChargeCount := s.state.semanticChargeCount + 1 } s.calls s.notified
  | registered (sink) : s.state.settlement = none → label.dispatched = false →
      label.registered = some sink →
      Effect budget s label { s.state with pendingSinks := s.state.pendingSinks ++ [sink] }
        s.calls s.notified
  | attached (attached) : s.state.settlement = none → label.dispatched = false →
      label.registered = none →
      Effect budget s label { s.state with vmAdapterAttached := attached } s.calls s.notified
  | took (call winner) : label.response = .resumed → s.calls.get? call = some (.completing winner) →
      Effect budget s label { s.state with pendingSinks := [] }
        (s.calls.insert call (.notifying winner s.state.pendingSinks)) s.notified
  | told (call winner sink rest) : label.response = .resumed →
      s.calls.get? call = some (.notifying winner (sink :: rest)) →
      Effect budget s label s.state (s.calls.insert call (.notifying winner rest))
        (s.notified ++ [(sink, winner)])
  | returned (call winner) : label.response = .resumed →
      s.calls.get? call = some (.notifying winner []) →
      Effect budget s label s.state (s.calls.erase call) s.notified

section Steps

variable {budget : ExecutionBudget} {s t next : BudgetSystem} {label : BudgetLabel}

theorem arbitrate_effect {call : Nat} {now : Instant}
    {m : ExecutionBudgetState → Arbitration × ExecutionBudgetState}
    (hreading : now ∈ readings label.event)
    (hm : ∀ arbitration state, m s.state = (arbitration, state) →
      Decided budget s.state state now arbitration ∨ s.state.settlement = none ∧
        arbitration = .still ∧
        (label.response = .arbitration .still → Effect budget s label state s.calls s.notified))
    (h : s.arbitrate call m = some (label.response, next)) :
    Effect budget s label next.state next.calls next.notified := by
  unfold arbitrate at h
  split at h
  · cases h
  case isFalse hcall =>
    have hnone : s.calls.get? call = none := by
      simpa [OrdMap.contains] using hcall
    split at h
    case h_1 winner state hwon =>
      obtain ⟨hresponse, rfl⟩ := Prod.mk.inj (some.inj h)
      obtain (⟨_, -, hne, -⟩ | ⟨winner', hopen, heq, hdue, rfl⟩) | ⟨-, hne, -⟩ := hm _ _ hwon
      · cases hne
      · cases heq
        exact .won call winner now hopen hreading hdue hresponse.symm hnone
      · cases hne
    case h_2 arbitration state hother hm' =>
      obtain ⟨hresponse, rfl⟩ := Prod.mk.inj (some.inj h)
      obtain (⟨settlement, hsettled, heq, rfl⟩ | ⟨winner', -, heq, -⟩) | ⟨-, heq, heffect⟩ :=
        hm _ _ hm'
      · refine .observed settlement hsettled ?_
        rw [← hresponse]
        exact heq
      · exact absurd heq (hother winner')
      rw [heq] at hresponse
      exact heffect hresponse.symm

theorem vm_eq {m : VmBudgetM Unit} {response : BudgetResponse} (h : s.vm m = (response, next)) :
    ∃ r state, m s.state = (r, state) ∧ response = .vm r ∧ next = { s with state := state } := by
  cases h
  exact ⟨_, _, rfl, rfl, rfl⟩

/-- A section of the adapter that stopped. -/
theorem stopped_effect {state : ExecutionBudgetState} {r : Except VmBudgetClosed Unit}
    (hresponse : label.response = .vm r) (h : Stopped budget s.state state (readings label.event)
      (AdapterCloses budget s.state label.event) r) :
    Effect budget s label state s.calls s.notified := by
  obtain ⟨settlement, hsettled, rfl, rfl⟩ | ⟨⟨closed, rfl⟩, hcloses, hfreezes⟩ := h
  · refine .observed settlement hsettled ?_
    rw [hresponse]
    rfl
  · exact .stopped hfreezes hcloses ⟨closed, hresponse⟩

theorem resume_effect {call : Nat} (hresponse : label.response = .resumed)
    (h : s.resume call = some next) :
    Effect budget s label next.state next.calls next.notified := by
  unfold resume at h
  split at h
  · cases h
  case h_2 winner hcall =>
    cases h
    exact .took call winner hresponse hcall
  case h_3 winner hcall =>
    cases h
    exact .returned call winner hresponse hcall
  case h_4 winner sink rest hcall =>
    cases h
    exact .told call winner sink rest hresponse hcall

theorem perform_effect (h : s.perform budget label.event = some (label.response, next)) :
    Effect budget s label next.state next.calls next.notified := by
  obtain ⟨event, response, wasPolled⟩ := label
  simp only at h
  cases event with
  | attachVm =>
    cases h
    dsimp only
    split
    case h_1 settlement hsettled => exact .observed settlement hsettled rfl
    case h_2 hopen =>
      split
      · exact .attached s.state.vmAdapterAttached hopen rfl rfl
      · exact .attached true hopen rfl rfl
  | beforeDispatch now later =>
    obtain ⟨r, state, hm, rfl, rfl⟩ := vm_eq (some.inj h)
    obtain hstopped | ⟨hopen, rfl, hlimit, polled, hpolled, hdue, rfl⟩ := beforeDispatch_cases hm
    · exact stopped_effect rfl hstopped
    · exact .dispatched polled hopen rfl hlimit hpolled hdue
  | pollInterrupt now =>
    obtain ⟨r, state, hm, rfl, rfl⟩ := vm_eq (some.inj h)
    obtain hstopped | ⟨hopen, rfl, rfl⟩ := pollInterrupt_cases hm
    · exact stopped_effect rfl hstopped
    · exact .polled hopen rfl rfl
  | chargeSemantic now =>
    obtain ⟨r, state, hm, rfl, rfl⟩ := vm_eq (some.inj h)
    obtain hstopped | ⟨hopen, rfl, rfl⟩ := chargeSemantic_cases hm
    · exact stopped_effect rfl hstopped
    · exact .charged hopen rfl rfl
  | settle call candidate now | requestCancel call now | requestInternalStop call now =>
    refine arbitrate_effect (List.mem_singleton_self now) (fun arbitration state hm => ?_) h
    exact .inl (settleRequested_cases hm)
  | registerPendingSink call sink now =>
    refine arbitrate_effect (List.mem_singleton_self now) (fun arbitration state hm => ?_) h
    obtain hdecided | ⟨hopen, hstill, rfl⟩ := registerPendingSink_cases hm
    · exact .inl hdecided
    refine .inr ⟨hopen, hstill, fun hresponse => .registered sink hopen ?_ ?_⟩
    · rfl
    simp only at hresponse
    rw [hresponse]
    rfl
  | pendingTerminalWinner call now =>
    refine arbitrate_effect (List.mem_singleton_self now) (fun arbitration state hm => ?_) h
    obtain hdecided | ⟨hopen, hstill, rfl⟩ := pendingTerminalWinner_cases hm
    · exact .inl hdecided
    · exact .inr ⟨hopen, hstill, fun _ => .attached s.state.vmAdapterAttached hopen rfl rfl⟩
  | resume call =>
    obtain ⟨resumed, hresume, heq⟩ := map_eq_some_iff.mp h
    cases heq
    exact resume_effect rfl hresume

theorem step_effect (h : Step budget s label t) :
    Effect budget s label t.state t.calls t.notified := by
  obtain ⟨-, next, hnext, rfl, -⟩ := h
  have heffect := perform_effect hnext
  exact heffect

end Steps

end BudgetSystem

end Skiff.Request
