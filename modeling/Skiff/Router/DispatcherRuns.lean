import Skiff.Router.Lives

/-!
# Runs of the dispatcher

No operation panics in a state that a run can reach, the permits that are out are those of
the pendings, nothing is pending on a closed session or after the shutdown, and every
request id has the lives of `Lives`. All of it comes from one specification of each
operation, `apply_spec`: from a state in good order the operation returns, leaves a state
in good order and moves every request as `Moves` allows.
-/

namespace Skiff.Router

open Session (RuntimeSessionEpoch)
open OrdMap DispatchLabel Pending List Option

variable {ε : Type}

namespace DispatcherInner

/-- The permits that are out are those of the pendings, and nothing is pending on a
closed session or after the shutdown. -/
structure InOrder (inner : DispatcherInner) (limit : Nat) : Prop where
  counts : inner.pool.Counts limit (inner.pending.tallyOf sessionEpoch)
  opened : ∀ requestId pending, inner.pending.get? requestId = some pending →
    pending.sessionEpoch ∉ inner.closedSessions
  running : inner.stopped = true → ∀ requestId, inner.pending.get? requestId = none

variable {inner : DispatcherInner} {limit : Nat} (answers : Answers) {requestId : String}

theorem InOrder.initial (maxConcurrency : Nat) : (new maxConcurrency).InOrder maxConcurrency := by
  refine ⟨AdmissionPool.counts_new maxConcurrency, ?_, ?_⟩
  · intro requestId pending hpending
    rw [new, get?_empty] at hpending
    cases hpending
  intro _ requestId
  exact get?_empty requestId

/-- Another pool with the same counts. -/
theorem InOrder.withPool {pool : AdmissionPool} (h : inner.InOrder limit)
    (hcounts : pool.Counts limit (inner.pending.tallyOf sessionEpoch)) :
    { inner with pool := pool }.InOrder limit :=
  ⟨hcounts, h.opened, h.running⟩

/-- A pending that changes but keeps its session. -/
theorem InOrder.change {pending changed : Pending} (h : inner.InOrder limit)
    (hpending : inner.pending.get? requestId = some pending)
    (hsession : changed.sessionEpoch = pending.sessionEpoch) :
    { inner with pending := inner.pending.insert requestId changed }.InOrder limit := by
  refine ⟨?_, ?_, ?_⟩
  · rw [tallyOf_insert_of_eq hpending hsession]
    exact h.counts
  · intro other found hfound
    obtain ⟨-, rfl⟩ | ⟨-, hfound⟩ := get?_insert_eq_some.mp hfound
    · rw [hsession]
      exact h.opened requestId pending hpending
    · exact h.opened other found hfound
  intro hstopped
  have hnone := h.running hstopped requestId
  rw [hpending] at hnone
  cases hnone

/-! ## Terminals -/

/-- What `terminal_locked` did to a pending. -/
structure Terminated (limit : Nat) (inner : DispatcherInner) (requestId : String)
    (outcome : RequestOutcome) (pending : Pending) (after : DispatcherInner) (effects : List Effect)
    (terminal : PendingTerminal) : Prop where
  found : inner.pending.get? requestId = some pending
  removed : after.pending = inner.pending.erase requestId
  closedSessions : after.closedSessions = inner.closedSessions
  stopped : after.stopped = inner.stopped
  counts : after.pool.Counts limit (after.pending.tallyOf sessionEpoch)
  named : terminal.requestId = requestId
  outcome : terminal.outcome = outcome
  settled : ∀ (ε : Type) (other : String), (settledMarks other effects : List (Mark ε)) =
    if requestId = other then pending.taskAttempt.toList.map .settled else []

theorem terminalLocked_none (h : inner.pending.get? requestId = none) (outcome : RequestOutcome)
    (source : TerminalSource) (cancelReason errorMessage : Option String) :
    inner.terminalLocked answers requestId outcome source cancelReason errorMessage =
      .ok (inner, [], none) := by
  rw [terminalLocked, h]

/-- The permit of a pending is out, so `terminal_locked` returns. -/
theorem terminalLocked_some {pending : Pending}
    (h : inner.pool.Counts limit (inner.pending.tallyOf sessionEpoch))
    (hpending : inner.pending.get? requestId = some pending) (outcome : RequestOutcome)
    (source : TerminalSource) (cancelReason errorMessage : Option String) :
    ∃ after effects terminal,
      inner.terminalLocked answers requestId outcome source cancelReason errorMessage =
        .ok (after, effects, some terminal) ∧
      Terminated limit inner requestId outcome pending after effects terminal := by
  have hout := tallyOf_pos (f := sessionEpoch) hpending
  obtain ⟨pool, hrelease, hcounts⟩ := h.release hout
  rw [← pending.permit_session] at hrelease
  refine ⟨?after, ?effects, ?terminal, ?returns, ?spec⟩
  case returns =>
    rw [terminalLocked, hpending]
    dsimp only
    rw [hrelease]
    rfl
  refine ⟨hpending, rfl, rfl, rfl, ?_, rfl, rfl, ?_⟩
  · rw [tallyOf_erase hpending]
    exact hcounts
  intro ε other
  exact settledMarks_terminal other

namespace Terminated

variable {outcome : RequestOutcome} {pending : Pending} {after : DispatcherInner}
  {effects : List Effect} {terminal : PendingTerminal}

section

variable (h : Terminated limit inner requestId outcome pending after effects terminal)
include h

theorem get?_self : after.pending.get? requestId = none := by
  rw [h.removed, get?_erase_self]

theorem get?_of_ne {other : String} (hne : other ≠ requestId) :
    after.pending.get? other = inner.pending.get? other := by
  rw [h.removed, get?_erase_of_ne _ hne]

theorem inOrder (hinner : inner.InOrder limit) : after.InOrder limit := by
  have hsub : ∀ other found, after.pending.get? other = some found →
      inner.pending.get? other = some found := by
    intro other found hfound
    rw [h.removed] at hfound
    exact (get?_erase_eq_some.mp hfound).2
  refine ⟨h.counts, ?_, ?_⟩
  · intro other found hfound
    rw [h.closedSessions]
    exact hinner.opened other found (hsub other found hfound)
  intro hstopped
  rw [h.stopped] at hstopped
  have hnone := hinner.running hstopped requestId
  rw [h.found] at hnone
  cases hnone

end

end Terminated

/-! ## Admission -/

/-- A candidate with a permit of its own, for a request that can become pending. -/
structure Reserved (limit : Nat) (inner : DispatcherInner) (requestId : String)
    (lease : RegisteredSessionLease) (after : DispatcherInner) : Prop where
  pending : after.pending = inner.pending
  closedSessions : after.closedSessions = inner.closedSessions
  stopped : after.stopped = inner.stopped
  running : inner.stopped = false
  absent : inner.pending.get? requestId = none
  opened : lease.sessionEpoch ∉ inner.closedSessions
  counts : after.pool.Counts limit (Function.update (inner.pending.tallyOf sessionEpoch)
    lease.sessionEpoch (inner.pending.tallyOf sessionEpoch lease.sessionEpoch + 1))

/-- What `choose` returns: the state with another pool, and a candidate or a reason. -/
def Chosen (limit : Nat) (inner : DispatcherInner) (requestId : String)
    (chosen : DispatcherInner × Except SubmitRejectReason RegisteredSessionLease) : Prop :=
  match chosen.2 with
  | .error _ => ∃ pool, chosen.1 = { inner with pool := pool } ∧
      pool.Counts limit (inner.pending.tallyOf sessionEpoch)
  | .ok lease => Reserved limit inner requestId lease chosen.1

theorem Chosen.rejected {reason : SubmitRejectReason} (h : inner.InOrder limit) :
    Chosen limit inner requestId (inner, .error reason) :=
  ⟨inner.pool, rfl, h.counts⟩

variable {lease : RegisteredSessionLease}

theorem confirm_spec {deadline : Option RequestDeadline} {leases : List RegisteredSessionLease}
    {reselects : Bool} {pool : AdmissionPool} (h : inner.InOrder limit)
    (hrunning : inner.stopped = false) (habsent : inner.pending.get? requestId = none)
    (hopened : ∀ lease ∈ leases, lease.sessionEpoch ∉ inner.closedSessions)
    (hselected : inner.pool.Selected leases lease pool) :
    ∃ chosen, inner.confirm answers deadline leases reselects lease pool = .ok chosen ∧
      Chosen limit inner requestId chosen := by
  obtain ⟨back, hback, hcounts⟩ := hselected.release h.counts
  unfold confirm
  split
  · rw [hback]
    exact ⟨_, rfl, back, rfl, hcounts⟩
  split
  · rw [hback]
    dsimp only [bind, Except.bind]
    split
    · split
      · exact ⟨_, rfl, back, rfl, hcounts⟩
      case h_2 other pool' hother =>
        have hselected' := AdmissionPool.selectAfterRevalidateFailure_eq_some hother
        refine ⟨_, rfl, rfl, rfl, rfl, hrunning, habsent, ?_, ?_⟩
        · exact hopened other hselected'.candidate
        · exact hselected'.counts hcounts
    · exact ⟨_, rfl, back, rfl, hcounts⟩
  refine ⟨_, rfl, rfl, rfl, rfl, hrunning, habsent, ?_, ?_⟩
  · exact hopened lease hselected.candidate
  · exact hselected.counts h.counts

theorem choose_spec (h : inner.InOrder limit) (header : RequestStartHeader)
    (query : Except Panic (Option CandidateQuery)) (retained : RegisteredSessionLease → Bool)
    (preferred : Option RuntimeSessionEpoch) (reselects : Bool)
    (hquery : (dispatchModeFromWire header.mode).isSome = true → ∃ found, query = .ok found) :
    ∃ chosen, inner.choose answers header query retained preferred reselects = .ok chosen ∧
      Chosen limit inner header.requestId chosen ∧
      ∀ lease, chosen.2 = .ok lease → (dispatchModeFromWire header.mode).isSome = true := by
  unfold choose
  split
  · exact ⟨_, rfl, .rejected h, nofun⟩
  case isFalse hrunning =>
  split
  · exact ⟨_, rfl, .rejected h, nofun⟩
  case isFalse habsent =>
  split
  · exact ⟨_, rfl, .rejected h, nofun⟩
  split
  · exact ⟨_, rfl, .rejected h, nofun⟩
  case isFalse hmode =>
  have hmode : (dispatchModeFromWire header.mode).isSome = true := by
    simpa [isNone_iff_eq_none, isSome_iff_ne_none] using hmode
  obtain ⟨found, rfl⟩ := hquery hmode
  cases found with
  | none => exact ⟨_, rfl, .rejected h, nofun⟩
  | some query =>
    dsimp only
    split
    · exact ⟨_, rfl, .rejected h, nofun⟩
    split
    · exact ⟨_, rfl, .rejected h, nofun⟩
    case h_2 lease pool hselect =>
      have hopened : ∀ lease ∈ ((answers.view.candidates query).filter fun lease =>
          !lease.cancelled && decide (lease.sessionEpoch ∉ inner.closedSessions)).filter retained,
          lease.sessionEpoch ∉ inner.closedSessions := by
        intro lease hmem
        have hopen := (mem_filter.mp (mem_filter.mp hmem).1).2
        exact of_decide_eq_true (Bool.and_eq_true_iff.mp hopen).2
      have habsent : inner.pending.get? header.requestId = none := by
        simpa using habsent
      obtain ⟨chosen, hchosen, hspec⟩ :=
        confirm_spec answers h (Bool.eq_false_iff.mpr hrunning) habsent
        hopened (AdmissionPool.select_eq_some hselect)
      exact ⟨chosen, hchosen, hspec, fun _ _ => hmode⟩

/-- What an admission came to: the request is pending, or nothing is. -/
inductive Submitted (inner : DispatcherInner) (header : RequestStartHeader) (kind : PendingKind)
    (facts : Option TaskAttemptFacts) : DispatcherInner → SubmitResult → Prop where
  | accepted {after : DispatcherInner} {session : RuntimeSessionEpoch} (pending : Pending)
      (absent : inner.pending.get? header.requestId = none)
      (added : after.pending = inner.pending.insert header.requestId pending)
      (of_kind : pending.kind = kind) (of_facts : pending.taskAttempt = facts)
      (fresh : pending.nextSeq = 0 ∧ pending.streamPhase ≠ some .streaming) :
      Submitted inner header kind facts after (.accepted header.requestId session)
  | rejected {after : DispatcherInner} (same : after.pending = inner.pending)
      (reason : SubmitRejectReason) :
      Submitted inner header kind facts after (.rejected header.requestId reason)

/-- The state after an admission, and the effects, which settle nothing. -/
structure Admitted (limit : Nat) (inner : DispatcherInner) (header : RequestStartHeader)
    (kind : PendingKind) (facts : Option TaskAttemptFacts) (after : DispatcherInner)
    (effects : List Effect) (result : SubmitResult) : Prop where
  in_order : after.InOrder limit
  closedSessions : after.closedSessions = inner.closedSessions
  stopped : after.stopped = inner.stopped
  submitted : Submitted inner header kind facts after result
  settled : ∀ (ε : Type) (other : String), (settledMarks other effects : List (Mark ε)) = []

/-- The effect of sending a request leaves no mark. -/
def Unmarked (start : RuntimeSessionEpoch → String → Effect) : Prop :=
  ∀ (ε : Type) (session : RuntimeSessionEpoch) (requestId other : String) (rest : List Effect),
    (settledMarks other (start session requestId :: rest) : List (Mark ε)) = settledMarks other rest

variable {header : RequestStartHeader} {after : DispatcherInner}

variable {facts : Option TaskAttemptFacts}

theorem enqueue_spec {start : RuntimeSessionEpoch → String → Effect} {kind : PendingKind}
    (h : inner.InOrder limit) (hreserved : Reserved limit inner header.requestId lease after)
    (hstart : Unmarked start) :
    ∃ out, after.enqueue answers header start (.ok kind) facts lease = .ok out ∧
      Admitted limit inner header kind facts out.1 out.2.1 out.2.2 := by
  obtain ⟨pool, pending, closedSessions, stopped⟩ := after
  obtain ⟨hpending, hclosed, hstopped, hrunning, habsent, hopened, hcounts⟩ := hreserved
  dsimp only at hpending hclosed hstopped hcounts
  subst hpending hclosed hstopped
  unfold enqueue
  dsimp only
  split
  · refine ⟨_, rfl, ⟨?_, ?_, ?_⟩, rfl, rfl, ?_, ?_⟩
    · rw [tallyOf_insert habsent]
      exact hcounts
    · intro other found hfound
      obtain ⟨-, rfl⟩ | ⟨-, hfound⟩ := get?_insert_eq_some.mp hfound
      · exact hopened
      · exact h.opened other found hfound
    · intro hstop
      rw [hrunning] at hstop
      cases hstop
    · refine .accepted _ habsent rfl rfl rfl ⟨rfl, ?_⟩
      dsimp only
      split <;> simp
    intro ε other
    exact hstart ε _ _ other []
  -- the permit that the reservation took is given back
  have hout : 0 < Function.update (inner.pending.tallyOf sessionEpoch) lease.sessionEpoch
      (inner.pending.tallyOf sessionEpoch lease.sessionEpoch + 1) lease.sessionEpoch := by
    rw [Function.update_self]
    exact Nat.succ_pos _
  obtain ⟨back, hrelease, hback⟩ := hcounts.release hout
  rw [Function.update_self, Nat.add_sub_cancel, Function.update_idem, Function.update_eq_self]
    at hback
  rw [hrelease]
  refine ⟨_, rfl, ⟨hback, h.opened, h.running⟩, rfl, rfl, ?_, ?_⟩
  · apply Submitted.rejected
    rfl
  intro ε other
  exact hstart ε _ _ other _

theorem submitChosen_spec (h : inner.InOrder limit)
    (start : RuntimeSessionEpoch → String → Effect) (kind : Except Panic PendingKind)
    (mode : PendingKind) (facts : Option TaskAttemptFacts)
    {chosen : DispatcherInner × Except SubmitRejectReason RegisteredSessionLease}
    (hchosen : Chosen limit inner header.requestId chosen) (hstart : Unmarked start)
    (hkind : ∀ lease, chosen.2 = .ok lease → kind = .ok mode) :
    ∃ out, submitChosen answers header start kind facts chosen = .ok out ∧
      Admitted limit inner header mode facts out.1 out.2.1 out.2.2 ∧
      ∀ session, out.2.2 = .accepted header.requestId session → ∃ lease, chosen.2 = .ok lease := by
  obtain ⟨after, result⟩ := chosen
  cases result with
  | error reason =>
    obtain ⟨pool, rfl, hcounts⟩ := hchosen
    refine ⟨_, rfl, ⟨h.withPool hcounts, rfl, rfl, ?_, fun _ _ => rfl⟩, nofun⟩
    apply Submitted.rejected
    rfl
  | ok lease =>
    rw [hkind lease rfl]
    obtain ⟨out, hout, hadmitted⟩ := enqueue_spec answers h hchosen hstart
    exact ⟨out, hout, hadmitted, fun _ _ => ⟨lease, rfl⟩⟩

theorem requestStart_unmarked : Unmarked .requestStart := fun _ _ _ _ _ => rfl

theorem taskAttemptStart_unmarked : Unmarked .taskAttemptStart := fun _ _ _ _ _ => rfl

theorem submit_spec (h : inner.InOrder limit) (request : DispatchSubmit) :
    ∃ out mode, inner.submit answers request = .ok out ∧
      Admitted limit inner request.header
        (DispatchMode.pendingKind mode) none out.1 out.2.1 out.2.2 ∧
      ∀ session, out.2.2 = .accepted request.header.requestId session →
        dispatchModeFromWire request.header.mode = some mode := by
  have hmode : ∀ mode, dispatchModeFromWire request.header.mode = some mode →
      request.mode = .ok mode := by
    intro mode heq
    rw [DispatchSubmit.mode, heq]
  obtain ⟨chosen, hchosen, hspec, hlease⟩ := choose_spec answers h request.header
    (request.mode.map fun mode => candidateQueryFromBuildId mode request.header.buildId)
    (fun _ => true) request.preferSession true (by
      intro hsome
      obtain ⟨mode, heq⟩ := isSome_iff_exists.mp hsome
      rw [hmode mode heq]
      exact ⟨_, rfl⟩)
  -- without a mode nothing is chosen, and any will do
  obtain ⟨mode, hof⟩ : ∃ mode, ∀ lease, chosen.2 = .ok lease →
      dispatchModeFromWire request.header.mode = some mode := by
    cases heq : dispatchModeFromWire request.header.mode with
    | none =>
      refine ⟨.unary, fun lease hok => ?_⟩
      have hsome := hlease lease hok
      rw [heq] at hsome
      cases hsome
    | some mode => exact ⟨mode, fun _ _ => rfl⟩
  obtain ⟨out, hout, hadmitted, haccepted⟩ := submitChosen_spec answers h .requestStart
    (request.mode.map DispatchMode.pendingKind) mode.pendingKind none hspec requestStart_unmarked
    (by
      intro lease hok
      rw [hmode mode (hof lease hok)]
      rfl)
  refine ⟨out, mode, bind_eq_ok.mpr ⟨chosen, hchosen, hout⟩, hadmitted, ?_⟩
  intro session heq
  obtain ⟨lease, hok⟩ := haccepted session heq
  exact hof lease hok

theorem taskAttemptSubmit_spec (h : inner.InOrder limit) (attempt : TaskAttemptSubmit) :
    ∃ out, inner.taskAttemptSubmit answers attempt = .ok out ∧
      Admitted limit inner attempt.header .taskAttempt
        (some attempt.facts) out.1 out.2.1 out.2.2 := by
  obtain ⟨chosen, hchosen, hspec, -⟩ := choose_spec answers h attempt.header
    (.ok (candidateQueryFromBuildId .unary attempt.header.buildId))
    (fun lease => attempt.preferSession.all fun prefer => lease.sessionEpoch = prefer)
    attempt.preferSession attempt.preferSession.isNone (fun _ => ⟨_, rfl⟩)
  obtain ⟨out, hout, hadmitted, -⟩ := submitChosen_spec answers h .taskAttemptStart
    (.ok .taskAttempt) .taskAttempt (some attempt.facts) hspec taskAttemptStart_unmarked
    (fun _ _ => rfl)
  exact ⟨out, bind_eq_ok.mpr ⟨chosen, hchosen, hout⟩, hadmitted⟩

/-! ## Several terminals -/

/-- Each of the requests is ended, the others are left alone. -/
theorem terminateAll_spec (inner : DispatcherInner) (source : TerminalSource)
    (cancelReason : Option String) (requestIds : List String) (hnodup : requestIds.Nodup)
    (h : inner.pool.Counts limit (inner.pending.tallyOf sessionEpoch)) :
    ∃ out, terminateAll answers .cancelled source cancelReason requestIds inner = .ok out ∧
      out.1.pool.Counts limit (out.1.pending.tallyOf sessionEpoch) ∧
      out.1.closedSessions = inner.closedSessions ∧ out.1.stopped = inner.stopped ∧
      (∀ other ∈ requestIds, out.1.pending.get? other = none) ∧
      (∀ other ∉ requestIds, out.1.pending.get? other = inner.pending.get? other) ∧
      ∀ (ε : Type) (other : String), Moves other (inner.pending.get? other)
        (endingMarks other out.2.1 out.2.2 : List (Mark ε)) (out.1.pending.get? other) := by
  induction requestIds generalizing inner with
  | nil =>
    refine ⟨_, rfl, h, rfl, rfl, ?_, fun _ _ => rfl, fun _ other => .idle _⟩
    intro other hmem
    cases hmem
  | cons requestId rest ih =>
    obtain ⟨hnew, hnodup⟩ := nodup_cons.mp hnodup
    cases hpending : inner.pending.get? requestId with
    | none =>
      obtain ⟨out, hout, hcounts, hclosed, hstopped, hended, hkept, hmoves⟩ := ih inner hnodup h
      refine ⟨out, ?_, hcounts, hclosed, hstopped, ?_, ?_, hmoves⟩
      · rw [terminateAll, terminalLocked_none answers hpending]
        exact bind_eq_ok.mpr ⟨_, rfl, bind_eq_ok.mpr ⟨out, hout, rfl⟩⟩
      · rw [forall_mem_cons]
        refine ⟨?_, hended⟩
        rw [hkept requestId hnew]
        exact hpending
      intro other hother
      exact hkept other (fun hmem => hother (.tail _ hmem))
    | some pending =>
      obtain ⟨after, effects, terminal, hfirst, hterminated⟩ :=
        terminalLocked_some answers h hpending .cancelled source cancelReason none
      obtain ⟨out, hout, hcounts, hclosed, hstopped, hended, hkept, hmoves⟩ :=
        ih after hnodup hterminated.counts
      have hself : out.1.pending.get? requestId = none := by
        rw [hkept requestId hnew]
        exact hterminated.get?_self
      refine ⟨(out.1, effects ++ out.2.1, terminal :: out.2.2), ?_, hcounts,
        hclosed.trans hterminated.closedSessions, hstopped.trans hterminated.stopped, ?_, ?_, ?_⟩
      · rw [terminateAll, hfirst]
        exact bind_eq_ok.mpr ⟨_, rfl, bind_eq_ok.mpr ⟨out, hout, rfl⟩⟩
      · rw [forall_mem_cons]
        exact ⟨hself, hended⟩
      · intro other hother
        rw [mem_cons, not_or] at hother
        rw [hkept other hother.2]
        exact hterminated.get?_of_ne hother.1
      intro ε other
      have hmarks : (endingMarks other (effects ++ out.2.1) (terminal :: out.2.2) :
          List (Mark ε)) = settledMarks other effects ++ settledMarks other out.2.1 ++
            (terminalMarks other [terminal] ++ terminalMarks other out.2.2) := by
        rw [endingMarks, settledMarks_append, ← singleton_append, terminalMarks,
          filter_append, map_append]
        rfl
      rw [hmarks, hterminated.settled, terminalMarks_singleton, hterminated.named]
      have hrest := hmoves ε other
      by_cases hother : requestId = other
      · subst hother
        rw [hterminated.get?_self, hself] at hrest
        obtain ⟨hsettled, hterminals⟩ := append_eq_nil_iff.mp hrest.eq_nil
        rw [hpending, hself, if_pos rfl, if_pos rfl, hsettled, hterminals, append_nil, append_nil]
        have hends : ∀ frames, pending.Delivered requestId frames →
            Ends (ε := ε) requestId pending.kind frames none terminal := by
          intro frames _
          refine .of_none hterminated.named ?_
          rw [hterminated.outcome]
          exact RequestOutcome.noConfusion
        simpa only [endMarks, toList_none, map_nil, append_nil] using
          Moves.ended pending none terminal hends
      rw [if_neg hother, if_neg hother, nil_append, nil_append,
        ← hterminated.get?_of_ne (Ne.symm hother)]
      exact hrest

/-! ## One operation -/

/-- What an operation leaves, and what it did to every request. -/
structure Progress (limit : Nat) (s : DispatcherInner) (label : DispatchLabel ε)
    (t : DispatcherInner) : Prop where
  in_order : t.InOrder limit
  moves : ∀ requestId, Moves requestId (s.pending.get? requestId) (label.marks requestId)
    (t.pending.get? requestId)
  closed : ∀ session, session ∈ t.closedSessions ↔
    session ∈ s.closedSessions ∨ label.op = .onSessionClosed session
  stopped : t.stopped = true ↔ s.stopped = true ∨ label.op = .shutdown

/-- The operations that report nothing closed. -/
structure Ordinary (op : DispatchOp ε) : Prop where
  not_closed : ∀ session, op ≠ .onSessionClosed session
  not_shutdown : op ≠ .shutdown

variable {label : DispatchLabel ε}

/-- An ordinary operation that does not touch the closed sessions. -/
theorem Progress.ordinary {s t : DispatcherInner} (hop : Ordinary label.op) (hin : t.InOrder limit)
    (hmoves : ∀ requestId, Moves requestId (s.pending.get? requestId) (label.marks requestId)
      (t.pending.get? requestId))
    (hclosed : t.closedSessions = s.closedSessions) (hstopped : t.stopped = s.stopped) :
    Progress limit s label t := by
  refine ⟨hin, hmoves, ?_, ?_⟩
  · intro session
    rw [hclosed]
    exact ⟨.inl, fun h => h.resolve_right (hop.not_closed session)⟩
  rw [hstopped]
  exact ⟨.inl, fun h => h.resolve_right hop.not_shutdown⟩

theorem Admitted.progress {kind : PendingKind} {effects : List Effect}
    {result : SubmitResult} {op : DispatchOp ε}
    (h : Admitted limit inner header kind facts after effects result) (hop : Ordinary op)
    (hfacts : kind = .taskAttempt ↔ facts.isSome = true)
    (haccepted : ∀ session, result = .accepted header.requestId session → ∀ other,
      acceptedMarks other op (some result) =
        if header.requestId = other then [.accepted kind facts] else [])
    (hrejected : ∀ reason, result = .rejected header.requestId reason → ∀ other,
      acceptedMarks other op (some result) = []) :
    Progress limit inner ⟨op, effects, { result := some result }⟩ after := by
  refine .ordinary hop h.in_order ?_ h.closedSessions h.stopped
  intro other
  have hlabel : marks other ⟨op, effects, { result := some result }⟩ =
      acceptedMarks other op (some result) := by
    rw [marks, h.settled]
    simp [frameMarks, terminalMarks]
  rw [hlabel]
  cases h.submitted with
  | rejected same reason =>
    rw [hrejected reason rfl, same]
    exact .idle _
  | accepted pending absent added of_kind of_facts fresh =>
    rw [haccepted _ rfl, added]
    by_cases hother : header.requestId = other
    · subst hother
      rw [if_pos rfl, absent, get?_insert_self, ← of_kind, ← of_facts]
      refine .accepted pending fresh.1 fresh.2 ?_
      rw [of_kind, of_facts]
      exact hfacts
    rw [if_neg hother, get?_insert_of_ne _ _ (Ne.symm hother)]
    exact .idle _

/-- One request ends, with its last frame if there is one. -/
theorem Terminated.progress {outcome : RequestOutcome} {pending : Pending} {effects : List Effect}
    {terminal : PendingTerminal} {op : DispatchOp ε}
    (h : Terminated limit inner requestId outcome pending after effects terminal)
    (hinner : inner.InOrder limit) (hop : Ordinary op) (last : Option (DispatchedFrame ε))
    (hlast : ∀ frame, last = some frame → frame.requestId = requestId)
    (haccepted : ∀ other, acceptedMarks other op none = [])
    (hends : ∀ frames, pending.Delivered requestId frames →
      Ends requestId pending.kind frames last terminal) :
    Progress limit inner ⟨op, effects, { frames := last.toList, terminals := [terminal] }⟩
      after := by
  refine .ordinary hop (h.inOrder hinner) ?_ h.closedSessions h.stopped
  intro other
  have hframes : frameMarks other last.toList =
      if requestId = other then last.toList.map Mark.delivered else [] := by
    cases last with
    | none => simp [frameMarks]
    | some frame =>
      rw [frameMarks, toList_some]
      by_cases hother : requestId = other
      · simp [hlast frame rfl, hother]
      · simp [hlast frame rfl, hother]
  rw [marks, haccepted, h.settled, hframes, terminalMarks_singleton, h.named, nil_append]
  by_cases hother : requestId = other
  · subst hother
    rw [if_pos rfl, if_pos rfl, if_pos rfl, h.found, h.get?_self]
    exact .ended pending last terminal hends
  rw [if_neg hother, if_neg hother, if_neg hother, h.get?_of_ne (Ne.symm hother)]
  exact .idle _

/-! ## Frames -/

/-- The label of a frame operation with its result. -/
def frameLabel (op : DispatchOp ε) (out : DispatcherInner × List Effect × FrameOutcome ε) :
    DispatchLabel ε :=
  ⟨op, out.2.1, { frames := out.2.2.frames, terminals := out.2.2.terminals }⟩

/-- A frame operation that returns and makes progress. -/
def Delivers (limit : Nat) (inner : DispatcherInner) (op : DispatchOp ε)
    (result : Except Panic (DispatcherInner × List Effect × FrameOutcome ε)) : Prop :=
  ∃ out, result = .ok out ∧ Progress limit inner (frameLabel op out) out.1

variable (debug : ε → String)

section Frames

variable {op : DispatchOp ε} {pending : Pending}

section

variable (h : inner.InOrder limit)
variable (hpending : inner.pending.get? requestId = some pending)
variable (hop : Ordinary op)
variable (haccepted : ∀ other, acceptedMarks other op none = [])
include h hpending hop haccepted

/-- A terminal that is expected is there. -/
theorem terminal_delivers (outcome : RequestOutcome)
    (source : TerminalSource) (cancelReason errorMessage : Option String)
    (last : Option (DispatchedFrame ε))
    (hlast : ∀ frame, last = some frame → frame.requestId = requestId)
    (hends : ∀ terminal frames, terminal.requestId = requestId → terminal.outcome = outcome →
      pending.Delivered requestId frames → Ends requestId pending.kind frames last terminal) :
    Delivers limit inner op
      (inner.terminalLocked answers requestId outcome source cancelReason errorMessage >>=
        expectTerminal last.toList) := by
  obtain ⟨after, effects, terminal, hlocked, hterminated⟩ :=
    terminalLocked_some answers h.counts hpending outcome source cancelReason errorMessage
  refine ⟨_, bind_eq_ok.mpr ⟨_, hlocked, rfl⟩, ?_⟩
  refine hterminated.progress h hop last hlast haccepted ?_
  intro frames hframes
  exact hends terminal frames hterminated.named hterminated.outcome hframes

theorem protocolErrorTerminal_delivers :
    Delivers limit inner op (inner.protocolErrorTerminal answers requestId) := by
  refine terminal_delivers answers h hpending hop haccepted .protocolError .protocolError
    (some "protocol_error") none none nofun ?_
  intro terminal frames hnamed houtcome _
  refine .of_none hnamed ?_
  rw [houtcome]
  exact RequestOutcome.noConfusion

/-- A frame that is delivered changes its pending in place. -/
theorem deliver_delivers (change : Pending → Pending)
    (frame : DispatchedFrame ε) (hframe : frame.requestId = requestId)
    (hsession : (change pending).sessionEpoch = pending.sessionEpoch)
    (hmove : Moves requestId (some pending) [.delivered frame] (some (change pending))) :
    Delivers limit inner op (inner.deliver requestId change frame) := by
  refine ⟨({ inner with pending := inner.pending.insert requestId (change pending) }, [],
    ⟨[frame], []⟩), ?_, ?_⟩
  · rw [deliver, hpending]
  refine .ordinary hop (h.change hpending hsession) ?_ rfl rfl
  intro other
  have hmarks : (frameLabel op ({ inner with
      pending := inner.pending.insert requestId (change pending) }, [], ⟨[frame], []⟩)).marks
        other =
      if requestId = other then [.delivered frame] else [] := by
    rw [marks, frameLabel, haccepted]
    by_cases hother : requestId = other
    · simp [settledMarks, frameMarks, terminalMarks, hframe, hother]
    · simp [settledMarks, frameMarks, terminalMarks, hframe, hother]
  rw [hmarks]
  by_cases hother : requestId = other
  · subst hother
    rw [if_pos rfl, hpending, get?_insert_self]
    exact hmove
  rw [if_neg hother, get?_insert_of_ne _ _ (Ne.symm hother)]
  exact .idle _

theorem onStart_delivers : Delivers limit inner op (inner.onStart answers requestId) := by
  unfold onStart
  rw [hpending, any_some]
  dsimp only
  split
  case isTrue hwaiting =>
    simp only [Bool.and_eq_true, decide_eq_true_eq] at hwaiting
    exact deliver_delivers h hpending hop haccepted _ _ rfl rfl
      (.started pending hwaiting.1 hwaiting.2)
  · exact protocolErrorTerminal_delivers answers h hpending hop haccepted

theorem onChunk_delivers (seq : Nat) (payload : List UInt8) :
    Delivers limit inner op (inner.onChunk answers requestId seq payload) := by
  unfold onChunk
  rw [hpending, any_some]
  dsimp only
  split
  case isTrue hnext =>
    simp only [Bool.and_eq_true, decide_eq_true_eq] at hnext
    obtain ⟨⟨hkind, hphase⟩, rfl⟩ := hnext
    exact deliver_delivers h hpending hop haccepted _ _ rfl rfl
      (.chunk pending payload hkind hphase)
  · exact protocolErrorTerminal_delivers answers h hpending hop haccepted

theorem onEnd_delivers (payloadPresent : Bool) (payload : List UInt8) :
    Delivers limit inner op (inner.onEnd answers requestId payloadPresent payload) := by
  unfold onEnd
  rw [hpending, any_some]
  split
  case isTrue hcompletes =>
    refine terminal_delivers answers h hpending hop haccepted .completed .runtimeResponseEnd none
      none (some (.endFrame requestId payload)) ?_ ?_
    · rintro frame ⟨⟩
      rfl
    intro terminal frames hnamed houtcome hframes
    refine ⟨hnamed, ?_, fun _ => ⟨payload, rfl⟩⟩
    rintro frame ⟨⟩
    refine .inl ⟨payload, rfl, houtcome, ?_⟩
    -- a stream that completes has started
    intro hstream
    simp only [completes, hstream, Bool.and_eq_true, decide_eq_true_eq] at hcompletes
    obtain ⟨-, payloads, -, rfl⟩ := hframes.streaming hcompletes.1
    exact cons_ne_nil _ _
  · exact protocolErrorTerminal_delivers answers h hpending hop haccepted

end

section

variable (h : inner.InOrder limit)
variable (hpending : inner.pending.get? requestId = some pending)
variable (hop : Ordinary op)
variable (haccepted : ∀ other, acceptedMarks other op none = [])
include h hpending hop haccepted

theorem onError_delivers (error : ε) :
    Delivers limit inner op (inner.onError answers debug requestId error) := by
  refine terminal_delivers answers h hpending hop haccepted .failed .runtimeResponseError none
    (some (debug error)) (some (.error requestId error)) ?_ ?_
  · rintro frame ⟨⟩
    rfl
  intro terminal frames hnamed houtcome _
  refine ⟨hnamed, ?_, ?_⟩
  · rintro frame ⟨⟩
    exact .inr ⟨error, rfl, houtcome⟩
  intro hcompleted
  rw [houtcome] at hcompleted
  cases hcompleted

theorem onRuntimeCancel_delivers (reason : String) :
    Delivers limit inner op (inner.onRuntimeCancel answers requestId reason) := by
  unfold onRuntimeCancel
  dsimp only
  split
  · refine terminal_delivers answers h hpending hop haccepted .cancelled .runtimeRequestCancel none
      (some reason) none nofun ?_
    intro terminal frames hnamed houtcome _
    refine .of_none hnamed ?_
    rw [houtcome]
    exact RequestOutcome.noConfusion
  · exact protocolErrorTerminal_delivers answers h hpending hop haccepted

end

/-- A frame of another session, or of a request that is not pending, changes nothing. -/
theorem onFrame_stale {session : RuntimeSessionEpoch} {frame : RuntimeResponseFrame ε}
    (hforeign : ∀ pending, inner.pending.get? frame.requestId = some pending →
      pending.sessionEpoch ≠ session) :
    inner.onFrame answers debug session frame = .ok (inner, [], {}) := by
  have hstale : inner.isStale session frame.requestId = true := by
    rw [isStale]
    cases hpending : inner.pending.get? frame.requestId with
    | none => rfl
    | some pending => simpa using hforeign pending hpending
  unfold onFrame
  rw [if_pos hstale]

theorem onFrame_delivers (h : inner.InOrder limit) (session : RuntimeSessionEpoch)
    (frame : RuntimeResponseFrame ε) :
    Delivers limit inner (.onFrame session frame) (inner.onFrame answers debug session frame) := by
  have hop : Ordinary (DispatchOp.onFrame session frame) := ⟨nofun, nofun⟩
  have haccepted : ∀ other, acceptedMarks other (DispatchOp.onFrame session frame) none = [] :=
    fun _ => rfl
  by_cases hstale : inner.isStale session frame.requestId = true
  · refine ⟨(inner, [], {}), ?_, .ordinary hop h (fun _ => .idle _) rfl rfl⟩
    unfold onFrame
    rw [if_pos hstale]
  obtain ⟨pending, hpending⟩ : ∃ pending, inner.pending.get? frame.requestId = some pending := by
    cases hpending : inner.pending.get? frame.requestId with
    | none =>
      rw [isStale, hpending] at hstale
      exact absurd rfl hstale
    | some pending => exact ⟨pending, rfl⟩
  unfold onFrame
  rw [if_neg hstale]
  cases frame with
  | start requestId => exact onStart_delivers answers h hpending hop haccepted
  | chunk requestId seq payload =>
    exact onChunk_delivers answers h hpending hop haccepted seq payload
  | endFrame requestId payloadPresent payload =>
    exact onEnd_delivers answers h hpending hop haccepted payloadPresent payload
  | error requestId error => exact onError_delivers answers debug h hpending hop haccepted error
  | cancel requestId reason =>
    exact onRuntimeCancel_delivers answers h hpending hop haccepted reason

end Frames

/-! ## Every operation -/

/-- A cancellation, which may come too late. -/
theorem cancelled_progress (h : inner.InOrder limit) (op : DispatchOp ε) (hop : Ordinary op)
    (haccepted : ∀ other, acceptedMarks other op none = []) (requestId : String)
    (source : TerminalSource) (cancelReason : Option String) :
    ∃ out, inner.terminalLocked answers requestId .cancelled source cancelReason none = .ok out ∧
      Progress limit inner ⟨op, out.2.1, { terminals := out.2.2.toList }⟩ out.1 := by
  cases hpending : inner.pending.get? requestId with
  | none =>
    refine ⟨_, terminalLocked_none answers hpending .cancelled source cancelReason none, ?_⟩
    refine .ordinary hop h ?_ rfl rfl
    intro other
    rw [marks, haccepted]
    exact .idle _
  | some pending =>
    obtain ⟨after, effects, terminal, hlocked, hterminated⟩ :=
      terminalLocked_some answers h.counts hpending .cancelled source cancelReason none
    refine ⟨_, hlocked, hterminated.progress h hop none nofun haccepted ?_⟩
    intro frames _
    refine .of_none hterminated.named ?_
    rw [hterminated.outcome]
    exact RequestOutcome.noConfusion

/-- Everything on the session is ended, and the session is closed from now on. -/
theorem onSessionClosed_progress (h : inner.InOrder limit) (session : RuntimeSessionEpoch) :
    ∃ out, inner.onSessionClosed answers session = .ok out ∧
      Progress (ε := ε) limit inner ⟨.onSessionClosed session, out.2.1, { terminals := out.2.2 }⟩
        out.1 := by
  let onSession := (inner.pending.entries.filter fun entry =>
    entry.2.sessionEpoch = session).map Prod.fst
  have hnodup : onSession.Nodup := inner.pending.nodup_keys.sublist (filter_sublist.map Prod.fst)
  have hmem : ∀ requestId pending, inner.pending.get? requestId = some pending →
      pending.sessionEpoch = session → requestId ∈ onSession := by
    intro requestId pending hpending hsession
    refine mem_map.mpr ⟨(requestId, pending), mem_filter.mpr ⟨?_, ?_⟩, rfl⟩
    · exact get?_eq_some_iff.mp hpending
    · exact decide_eq_true hsession
  obtain ⟨out, hout, hcounts, hclosed, hstopped, hended, hkept, hmoves⟩ :=
    terminateAll_spec answers { inner with closedSessions := session :: inner.closedSessions }
      .runtimeDisconnect none onSession hnodup h.counts
  have hleft : ∀ requestId pending, out.1.pending.get? requestId = some pending →
      inner.pending.get? requestId = some pending ∧ requestId ∉ onSession := by
    intro requestId pending hpending
    by_cases hon : requestId ∈ onSession
    · rw [hended requestId hon] at hpending
      cases hpending
    rw [hkept requestId hon] at hpending
    exact ⟨hpending, hon⟩
  refine ⟨out, hout, ⟨hcounts, ?_, ?_⟩, ?_, ?_, ?_⟩
  · intro requestId pending hpending
    obtain ⟨hbefore, hon⟩ := hleft requestId pending hpending
    rw [hclosed, mem_cons, not_or]
    exact ⟨fun hsession => hon (hmem requestId pending hbefore hsession),
      h.opened requestId pending hbefore⟩
  · intro hstop requestId
    rw [hstopped] at hstop
    by_cases hon : requestId ∈ onSession
    · exact hended requestId hon
    rw [hkept requestId hon]
    exact h.running hstop requestId
  · intro requestId
    have hmarks : marks requestId
        ⟨.onSessionClosed session, out.2.1, { terminals := out.2.2 }⟩ =
          (endingMarks requestId out.2.1 out.2.2 : List (Mark ε)) := by
      simp [marks, endingMarks, acceptedMarks, frameMarks]
    rw [hmarks]
    exact hmoves ε requestId
  · intro other
    rw [hclosed, mem_cons, or_comm]
    simp [eq_comm]
  rw [hstopped]
  exact ⟨.inl, fun hor => hor.resolve_right nofun⟩

theorem shutdown_progress (h : inner.InOrder limit) :
    ∃ out, inner.shutdown answers = .ok out ∧
      Progress (ε := ε) limit inner ⟨.shutdown, out.2.1, { terminals := out.2.2 }⟩ out.1 := by
  obtain ⟨out, hout, hcounts, hclosed, hstopped, hended, hkept, hmoves⟩ :=
    terminateAll_spec answers { inner with stopped := true } .routerShutdown
      (some "router_shutdown") inner.pending.keys inner.pending.nodup_keys h.counts
  have hempty : ∀ requestId, out.1.pending.get? requestId = none := by
    intro requestId
    by_cases hpending : requestId ∈ inner.pending.keys
    · exact hended requestId hpending
    rw [hkept requestId hpending]
    rw [mem_keys_iff, not_exists] at hpending
    exact eq_none_iff_forall_ne_some.mpr hpending
  refine ⟨out, hout, ⟨hcounts, ?_, fun _ => hempty⟩, ?_, ?_, ?_⟩
  · intro requestId pending hpending
    rw [hempty requestId] at hpending
    cases hpending
  · intro requestId
    have hmarks : marks requestId
        ⟨.shutdown, out.2.1, { terminals := out.2.2 }⟩ =
          (endingMarks requestId out.2.1 out.2.2 : List (Mark ε)) := by
      simp [marks, endingMarks, acceptedMarks, frameMarks]
    rw [hmarks]
    exact hmoves ε requestId
  · intro session
    rw [hclosed]
    exact ⟨.inl, fun hor => hor.resolve_right nofun⟩
  rw [hstopped]
  exact ⟨fun _ => .inr rfl, fun _ => rfl⟩

/-- From a state in order every operation returns, whatever the ports answer. -/
theorem apply_spec (h : inner.InOrder limit) (op : DispatchOp ε) :
    ∃ t effects reply, inner.apply debug answers op = .ok (t, effects, reply) ∧
      Progress limit inner ⟨op, effects, reply⟩ t := by
  cases op with
  | submit request =>
    obtain ⟨out, mode, hout, hadmitted, hmode⟩ := submit_spec answers h request
    refine ⟨_, _, _, bind_eq_ok.mpr ⟨out, hout, rfl⟩, ?_⟩
    refine hadmitted.progress ⟨nofun, nofun⟩ ?_ ?_ ?_
    · cases mode <;> exact ⟨nofun, nofun⟩
    · intro session heq other
      rw [heq, acceptedMarks, hmode session heq]
      rfl
    intro reason heq other
    rw [heq]
    rfl
  | taskAttemptSubmit attempt =>
    obtain ⟨out, hout, hadmitted⟩ := taskAttemptSubmit_spec answers h attempt
    refine ⟨_, _, _, bind_eq_ok.mpr ⟨out, hout, rfl⟩, ?_⟩
    refine hadmitted.progress ⟨nofun, nofun⟩ ⟨fun _ => rfl, fun _ => rfl⟩ ?_ ?_
    · intro session heq other
      rw [heq]
      rfl
    intro reason heq other
    rw [heq]
    rfl
  | onFrame session frame =>
    obtain ⟨out, hout, hprogress⟩ := onFrame_delivers answers debug h session frame
    exact ⟨_, _, _, bind_eq_ok.mpr ⟨out, hout, rfl⟩, hprogress⟩
  | timeout requestId =>
    obtain ⟨out, hout, hprogress⟩ := cancelled_progress answers h (.timeout requestId)
      ⟨nofun, nofun⟩ (fun _ => rfl) requestId .timeout (some "timeout")
    exact ⟨_, _, _, bind_eq_ok.mpr ⟨out, hout, rfl⟩, hprogress⟩
  | callerAbort requestId wireReason =>
    obtain ⟨out, hout, hprogress⟩ := cancelled_progress answers h
      (.callerAbort requestId wireReason) ⟨nofun, nofun⟩ (fun _ => rfl) requestId .callerAbort
      (some ((wireReason.filter fun reason => reason ≠ "").getD "caller_cancel"))
    exact ⟨_, _, _, bind_eq_ok.mpr ⟨out, hout, rfl⟩, hprogress⟩
  | clientDisconnect requestId =>
    obtain ⟨out, hout, hprogress⟩ := cancelled_progress answers h (.clientDisconnect requestId)
      ⟨nofun, nofun⟩ (fun _ => rfl) requestId .clientDisconnect (some "client_disconnect")
    exact ⟨_, _, _, bind_eq_ok.mpr ⟨out, hout, rfl⟩, hprogress⟩
  | backpressure requestId =>
    obtain ⟨out, hout, hprogress⟩ := cancelled_progress answers h (.backpressure requestId)
      ⟨nofun, nofun⟩ (fun _ => rfl) requestId .backpressure (some "backpressure")
    exact ⟨_, _, _, bind_eq_ok.mpr ⟨out, hout, rfl⟩, hprogress⟩
  | onSessionClosed session =>
    obtain ⟨out, hout, hprogress⟩ := onSessionClosed_progress answers h session
    exact ⟨_, _, _, bind_eq_ok.mpr ⟨out, hout, rfl⟩, hprogress⟩
  | shutdown =>
    obtain ⟨out, hout, hprogress⟩ := shutdown_progress answers h
    exact ⟨_, _, _, bind_eq_ok.mpr ⟨out, hout, rfl⟩, hprogress⟩

/-! ## Every run -/

/-- How many requests are pending on a session. -/
def pendingsOn (inner : DispatcherInner) (session : RuntimeSessionEpoch) : Nat :=
  inner.pending.tallyOf sessionEpoch session

/-- What holds after every operation of a run. -/
structure Conserved (debug : ε → String) (maxConcurrency : Nat) (labels : List (DispatchLabel ε))
    (s : DispatcherInner) : Prop where
  permits : ∀ session, s.pool.inFlightOf session = s.pendingsOn session ∧
    s.pendingsOn session ≤ maxConcurrency
  closed : ∀ session, (∃ label ∈ labels, label.op = .onSessionClosed session) →
    ∀ requestId pending, s.pending.get? requestId = some pending → pending.sessionEpoch ≠ session
  shutdown : (∃ label ∈ labels, label.op = .shutdown) → ∀ requestId, s.pending.get? requestId = none
  lived : ∀ requestId, Lived requestId (s.pending.get? requestId) (lifecycle requestId labels)
  foreign : ∀ answers session (frame : RuntimeResponseFrame ε),
    (∀ pending, s.pending.get? frame.requestId = some pending → pending.sessionEpoch ≠ session) →
      s.apply debug answers (.onFrame session frame) = .ok (s, [], {})
  returns : ∀ answers op, ∃ out, s.apply debug answers op = .ok out

/-- What the run has reported, and the state that keeps it in order. -/
structure Tracked (limit : Nat) (labels : List (DispatchLabel ε)) (s : DispatcherInner) : Prop where
  in_order : s.InOrder limit
  closed : ∀ session, session ∈ s.closedSessions ↔
    ∃ label ∈ labels, label.op = .onSessionClosed session
  stopped : s.stopped = true ↔ ∃ label ∈ labels, label.op = .shutdown
  lived : ∀ requestId, Lived requestId (s.pending.get? requestId) (lifecycle requestId labels)

theorem Tracked.initial (maxConcurrency : Nat) :
    Tracked maxConcurrency ([] : List (DispatchLabel ε)) (new maxConcurrency) := by
  refine ⟨.initial maxConcurrency, ?_, ?_, ?_⟩
  · intro session
    simp [new]
  · simp [new]
  intro requestId
  refine ⟨[], [], rfl, ?_⟩
  rw [new, get?_empty]
  rfl

variable {labels : List (DispatchLabel ε)}

theorem Tracked.step {s t : DispatcherInner} (h : Tracked limit labels s)
    (hprogress : Progress limit s label t) :
    Tracked limit (labels ++ [label]) t := by
  refine ⟨hprogress.in_order, ?_, ?_, ?_⟩
  · intro session
    rw [hprogress.closed, h.closed]
    simp [or_and_right, exists_or]
  · rw [hprogress.stopped, h.stopped]
    simp [or_and_right, exists_or]
  intro requestId
  have hmarks : lifecycle requestId (labels ++ [label]) =
      lifecycle requestId labels ++ label.marks requestId := by
    simp [lifecycle]
  rw [hmarks]
  exact (h.lived requestId).move (hprogress.moves requestId)

/-- In every run of the dispatcher, whatever its ports answer, permits and pendings are in
step, every request has its lives, and no operation panics. -/
theorem dispatcher_conserves (debug : ε → String) (maxConcurrency : Nat)
    {labels : List (DispatchLabel ε)} {s : DispatcherInner}
    (hrun : Run (DispatchStep debug) (new maxConcurrency) labels s) :
    Conserved debug maxConcurrency labels s := by
  have htracked : Tracked maxConcurrency labels s := by
    refine Run.history (P := fun labels s => Tracked maxConcurrency labels s)
      (Tracked.initial maxConcurrency) ?_ hrun
    intro labels s label t _ htracked hstep
    obtain ⟨answers, happly⟩ := hstep
    obtain ⟨t', effects, reply, hreturns, hprogress⟩ :=
      apply_spec answers debug htracked.in_order label.op
    rw [happly] at hreturns
    cases hreturns
    exact htracked.step hprogress
  obtain ⟨hin, hclosed, hstopped, hlived⟩ := htracked
  refine ⟨?_, ?_, ?_, hlived, ?_, ?_⟩
  · intro session
    exact ⟨hin.counts.inFlightOf_eq session, hin.counts.bounded session⟩
  · intro session hreported requestId pending hpending heq
    refine hin.opened requestId pending hpending ?_
    rw [heq]
    exact (hclosed session).mpr hreported
  · intro hreported
    exact hin.running (hstopped.mpr hreported)
  · intro answers session frame hforeign
    rw [apply, onFrame_stale answers debug hforeign]
    rfl
  · intro answers op
    obtain ⟨t, effects, reply, hreturns, -⟩ := apply_spec answers debug hin op
    exact ⟨_, hreturns⟩

/-! ## A stream on one session -/

def replica : RuntimeSessionEpoch := ⟨"replica", 1⟩

def replicaAnswers : Answers where
  view :=
    { revision := none, routerArtifactRoot := none
      sessions := [⟨replica, true, 1, false, ⟨true, true⟩, ["build"], false, none⟩] }
  expired := false
  expiredAtEnqueue := false
  revalidate := .ok
  startWritten := true
  cancelWritten := fun _ => true

def streamRequest : DispatchSubmit := ⟨⟨"request", "serverStream", none, some "build", none⟩, none⟩

def streamOps : List (DispatchOp Unit) :=
  [.submit streamRequest, .onFrame replica (.start "request"),
    .onFrame replica (.chunk "request" 0 []), .onFrame replica (.endFrame "request" false [])]

/-- A stream is accepted, starts, sends a chunk and ends. -/
theorem dispatcher_conserves_stream :
    ∃ (labels : List (DispatchLabel Unit)) (s : DispatcherInner), labels.map (·.op) = streamOps ∧
      labels.map (·.reply.frames.length) = [0, 1, 1, 1] ∧
      labels.map (·.reply.terminals.length) = [0, 0, 0, 1] ∧
      Conserved (fun _ => "") 1 labels s := by
  obtain ⟨labels, s, hrun, hops, hframes, hterminals⟩ :
      ∃ (labels : List (DispatchLabel Unit)) (s : DispatcherInner),
        Run (DispatchStep fun _ => "") (new 1) labels s ∧ labels.map (·.op) = streamOps ∧
          labels.map (·.reply.frames.length) = [0, 1, 1, 1] ∧
          labels.map (·.reply.terminals.length) = [0, 0, 0, 1] :=
    ⟨[⟨.submit streamRequest, _, _⟩, ⟨.onFrame replica (.start "request"), _, _⟩,
      ⟨.onFrame replica (.chunk "request" 0 []), _, _⟩,
      ⟨.onFrame replica (.endFrame "request" false []), _, _⟩], _,
      .cons ⟨replicaAnswers, by rfl⟩ (.cons ⟨replicaAnswers, by rfl⟩ (.cons ⟨replicaAnswers, by rfl⟩
        (.cons ⟨replicaAnswers, by rfl⟩ (.nil _)))), by rfl, by rfl, by rfl⟩
  exact ⟨labels, s, hops, hframes, hterminals, dispatcher_conserves _ 1 hrun⟩

end DispatcherInner

end Skiff.Router
