import Skiff.Task.Invariant

/-!
# Lease fencing and the single settlement

A task finishes at most once. The settlement that finishes it carries the lease id
of the latest claim, that lease is still held and unexpired at the store clock,
and from then on the record is frozen.

Two facts about one record step carry the argument: a record becomes terminal
exactly on a reported finish, and a leased record is always leased by the latest
claim of the history. No order of clock values is used.
-/

namespace Skiff.Task

open TaskState MemoryState StoreEvent Option

variable {Target : Type} {id : TaskId} {event : StoreEvent Target}
variable {stored stored' : Option (TaskRecord Target)} {record next : TaskRecord Target}
variable {history : List (StoreEvent Target)}

/-- The stored record, if any, is in a terminal state. -/
def Finished (stored : Option (TaskRecord Target)) : Bool := stored.any (·.state.isTerminal)

/-- The lease `leaseId` was written by a claim in the history, and since then the
task has been neither claimed again, nor recovered, nor released. -/
def HeldSince (history : List (StoreEvent Target)) (id : TaskId) (leaseId : LeaseId) : Prop :=
  ∃ earlier now input claimed lease later,
    history = earlier ++ .body now (.claim input) (.claim (.claimed claimed)) :: later ∧
      input.taskId = id ∧ claimed.activeLease = some lease ∧ lease.leaseId = leaseId ∧
      ∀ event ∈ later, event.claims id = false ∧ event.recovers id = false ∧
        event.releases id = false

theorem HeldSince.snoc {leaseId : LeaseId} (h : HeldSince history id leaseId)
    (hclaims : event.claims id = false) (hrecovers : event.recovers id = false)
    (hreleases : event.releases id = false) : HeldSince (history ++ [event]) id leaseId := by
  obtain ⟨earlier, now, input, claimed, lease, later, rfl, hid, hlease, hleaseId, hquiet⟩ := h
  refine ⟨earlier, now, input, claimed, lease, later ++ [event], by simp, hid, hlease, hleaseId, ?_⟩
  intro other hmem
  rcases List.mem_append.mp hmem with hmem | hmem
  · exact hquiet other hmem
  obtain rfl := List.mem_singleton.mp hmem
  exact ⟨hclaims, hrecovers, hreleases⟩

theorem StoreEvent.quiet_of_touches (h : event.touches id = false) :
    event.claims id = false ∧ event.recovers id = false ∧ event.releases id = false := by
  simp only [touches, Bool.or_eq_false_iff] at h
  exact ⟨h.1.1.1.1.2, h.1.2, h.2⟩

theorem StoreEvent.finishes_of_touches (h : event.touches id = false) :
    event.finishes id = false := by
  simp only [touches, Bool.or_eq_false_iff] at h
  exact h.1.1.2

/-! ## One record step -/

/-- A terminal record is never written again, and no event reports a second finish. -/
theorem RecordStep.of_terminal (h : RecordStep id event (some record) stored')
    (hterminal : record.state.isTerminal = true) :
    stored' = some record ∧ event.finishes id = false := by
  cases h with
  | recreated => exact ⟨rfl, rfl⟩
  | advanced hadvance => simp [(advanceDue_eq_some.mp hadvance).1, isTerminal] at hterminal
  | claimed hid hclaim => simp [(claim_eq_ok.mp hclaim).1, isTerminal] at hterminal
  | renewed hid hrenew =>
    obtain ⟨lease, hstate, -⟩ := renew_eq_ok.mp hrenew
    simp [hstate, isTerminal] at hterminal
  | settled hid hsettle =>
    obtain ⟨lease, hstate, -⟩ := settle_eq_settled.mp hsettle
    simp [hstate, isTerminal] at hterminal
  | canceled hid hcancel =>
    rcases (cancel_eq_ok.mp hcancel).1 with hstate | hstate <;>
      simp [hstate, isTerminal] at hterminal
  | recovered hid hrecover =>
    obtain ⟨lease, hstate, -⟩ := recoverExpiredLease_eq_ok.mp hrecover
    simp [hstate, isTerminal] at hterminal
  | released hid hrelease =>
    obtain ⟨lease, hstate, -⟩ := release_eq_ok.mp hrelease
    simp [hstate, isTerminal] at hterminal
  | kept hquiet => exact ⟨rfl, finishes_of_touches hquiet⟩

/-- An unfinished task becomes finished exactly on a reported finish. -/
theorem RecordStep.finished_eq (h : RecordStep id event stored stored')
    (hopen : Finished stored = false) : Finished stored' = event.finishes id := by
  cases h with
  | created hid hvalid | recreated hid hvalid =>
    simp [Finished, (TaskRecord.validateCreate_ok hvalid).1, isTerminal]
  | advanced hadvance =>
    obtain ⟨-, -, rfl⟩ := advanceDue_eq_some.mp hadvance
    simp [Finished, isTerminal]
  | claimed hid hclaim =>
    obtain ⟨-, -, -, -, rfl⟩ := claim_eq_ok.mp hclaim
    simp [Finished, isTerminal]
  | renewed hid hrenew =>
    obtain ⟨lease, hstate, -, -, -, -, rfl⟩ := renew_eq_ok.mp hrenew
    simp [Finished, hstate, isTerminal]
  | settled hid hsettle =>
    obtain ⟨lease, -, -, -, -, -, rfl⟩ := settle_eq_settled.mp hsettle
    simp [Finished, TaskTerminal.state, hid]
  | canceled hid hcancel =>
    obtain ⟨-, rfl⟩ := cancel_eq_ok.mp hcancel
    simp [Finished, isTerminal, hid]
  | recovered hid hrecover =>
    obtain ⟨lease, -, -, -, rfl⟩ := recoverExpiredLease_eq_ok.mp hrecover
    simp [Finished, isTerminal]
  | released hid hrelease =>
    obtain ⟨lease, -, -, -, -, rfl⟩ := release_eq_ok.mp hrelease
    simp [Finished, isTerminal]
  | kept hquiet => rw [hopen, finishes_of_touches hquiet]

/-- A record that is leased after a step is leased by this claim or was leased
under the same id before, and the step gave nothing up. -/
theorem RecordStep.leased (h : RecordStep id event stored (some next))
    (hleased : next.state = .leased) :
    (∃ now input, event = .body now (.claim input) (.claim (.claimed next)) ∧ input.taskId = id) ∨
    (event.claims id = false ∧ event.recovers id = false ∧ event.releases id = false ∧
      ∃ record, stored = some record ∧ record.state = .leased ∧
        record.activeLease.map (·.leaseId) = next.activeLease.map (·.leaseId)) := by
  cases h with
  | created hid hvalid | recreated hid hvalid =>
    simp [(TaskRecord.validateCreate_ok hvalid).1] at hleased
  | advanced hadvance =>
    obtain ⟨-, -, rfl⟩ := advanceDue_eq_some.mp hadvance
    cases hleased
  | claimed hid hclaim => exact .inl ⟨_, _, rfl, hid⟩
  | renewed hid hrenew =>
    obtain ⟨lease, hstate, hlease, -, -, -, rfl⟩ := renew_eq_ok.mp hrenew
    exact .inr ⟨rfl, rfl, rfl, _, rfl, hstate, by simp [hlease]⟩
  | settled hid hsettle =>
    obtain ⟨lease, -, -, -, -, -, rfl⟩ := settle_eq_settled.mp hsettle
    rename_i input _
    cases hout : input.terminal.outcome <;>
      simp [TaskTerminal.state, TaskOutcome.terminalState, hout] at hleased
  | canceled hid hcancel =>
    obtain ⟨-, rfl⟩ := cancel_eq_ok.mp hcancel
    cases hleased
  | recovered hid hrecover =>
    obtain ⟨lease, -, -, -, rfl⟩ := recoverExpiredLease_eq_ok.mp hrecover
    cases hleased
  | released hid hrelease =>
    obtain ⟨lease, -, -, -, -, rfl⟩ := release_eq_ok.mp hrelease
    cases hleased
  | kept hquiet =>
    obtain ⟨hclaims, hrecovers, hreleases⟩ := quiet_of_touches hquiet
    exact .inr ⟨hclaims, hrecovers, hreleases, _, rfl, hleased, rfl⟩

/-! ## Every run -/

section Runs

variable [DecidableEq Target] {ids : IdSupply} {s t : MemoryState Target}

/-- The number of reported finishes is one for a finished task and zero before. -/
theorem countP_finishes (h : Run (StoreStep ids) empty history s) (id : TaskId) :
    history.countP (·.finishes id) = if Finished (s.records.get? id) then 1 else 0 := by
  refine Run.history (P := fun history s => history.countP (·.finishes id) =
    if Finished (s.records.get? id) then 1 else 0) rfl ?_ h
  intro history s event t _ hcount hstep
  have hrecord := hstep.recordStep id
  rw [List.countP_append, List.countP_singleton, hcount]
  cases hfinished : Finished (s.records.get? id) with
  | false => simp only [hrecord.finished_eq hfinished, Bool.false_eq_true, if_false, Nat.zero_add]
  | true =>
    obtain ⟨record, hstored, hterminal⟩ := (any_eq_true _ _).mp hfinished
    rw [hstored] at hrecord
    obtain ⟨hsame, hquiet⟩ := hrecord.of_terminal hterminal
    simp only [hsame, hquiet, Finished, any_some, hterminal, if_true, Bool.false_eq_true, if_false]

/-- A leased record is held by the latest claim of the history. -/
theorem heldSince_of_run (h : Run (StoreStep ids) empty history s)
    {lease : TaskLease} (hrecord : s.records.get? id = some record)
    (hstate : record.state = .leased) (hlease : record.activeLease = some lease) :
    HeldSince history id lease.leaseId := by
  refine Run.history (P := fun history s => ∀ record lease, s.records.get? id = some record →
    record.state = .leased → record.activeLease = some lease →
    HeldSince history id lease.leaseId) ?_ ?_ h record lease hrecord hstate hlease
  · intro record lease hrecord
    cases hrecord
  intro history s event t _ hbefore hstep record lease hrecord hstate hlease
  have hstep := hstep.recordStep id
  rw [hrecord] at hstep
  rcases hstep.leased hstate with
    ⟨now, input, rfl, hid⟩ | ⟨hclaims, hrecovers, hreleases, old, hold, holdState, hsame⟩
  · exact ⟨history, now, input, record, lease, [], rfl, hid, hlease, rfl, by simp⟩
  rw [hlease] at hsame
  obtain ⟨oldLease, holdLease, hleaseId⟩ := map_eq_some_iff.mp hsame
  have hheld := hbefore old oldLease hold holdState holdLease
  rw [hleaseId] at hheld
  exact hheld.snoc hclaims hrecovers hreleases

/-- A finished record is the same in every later state. -/
theorem finished_frozen (h : Run (StoreStep ids) s history t)
    (hrecord : s.records.get? id = some record) (hterminal : record.state.isTerminal = true) :
    t.records.get? id = some record := by
  refine Run.invariant (P := fun s => s.records.get? id = some record) ?_ h hrecord
  intro s event t hstored hstep
  have hstep := hstep.recordStep id
  rw [hstored] at hstep
  exact (hstep.of_terminal hterminal).1

/-- In every run at most one call finishes the task. If it is a settlement, it
carries the lease of the latest claim, held ever since and unexpired at the store
clock; after it the record is the same in every later state. -/
theorem settlement_is_fenced (h : Run (StoreStep ids) empty history s) (id : TaskId) :
    history.countP (·.finishes id) ≤ 1 ∧
    ∀ pre event post before after, history = pre ++ event :: post →
      Run (StoreStep ids) empty pre before → StoreStep ids before event after →
      Run (StoreStep ids) after post s → event.finishes id = true →
      (∀ now input next, event = .body now (.settle input) (.settle (.settled next)) →
        HeldSince pre id input.leaseId ∧
          ∃ record lease, before.records.get? id = some record ∧
            record.activeLease = some lease ∧ lease.leaseId = input.leaseId ∧
            now < lease.expiry) ∧
      ∃ record, after.records.get? id = some record ∧
        ∀ mid rest t, post = mid ++ rest → Run (StoreStep ids) after mid t →
          t.records.get? id = some record := by
  constructor
  · rw [countP_finishes h id]
    split <;> decide
  intro pre event post before after _ hpre hstep _ hfinishes
  have hrecord := hstep.recordStep id
  constructor
  · rintro now input next rfl
    have hid : input.taskId = id := by simpa using hfinishes
    generalize hstored : before.records.get? id = stored at hrecord
    generalize after.records.get? id = stored' at hrecord
    cases hrecord with
    | @settled _ _ record _ _ hsettle =>
      obtain ⟨lease, hstate, hlease, hleaseId, hexpiry, -⟩ := settle_eq_settled.mp hsettle
      refine ⟨?_, record, lease, rfl, hlease, hleaseId, hexpiry⟩
      rw [← hleaseId]
      exact heldSince_of_run hpre hstored hstate hlease
    | kept hquiet =>
      rw [finishes_of_touches hquiet] at hfinishes
      cases hfinishes
  have hfinished : Finished (after.records.get? id) = true := by
    cases hopen : Finished (before.records.get? id) with
    | false => rw [hrecord.finished_eq hopen, hfinishes]
    | true =>
      obtain ⟨record, hstored, hterminal⟩ := (any_eq_true _ _).mp hopen
      rw [hstored] at hrecord
      rw [(hrecord.of_terminal hterminal).2] at hfinishes
      cases hfinishes
  obtain ⟨record, hstored, hterminal⟩ := (any_eq_true _ _).mp hfinished
  exact ⟨record, hstored, fun mid rest t _ hmid => finished_frozen hmid hstored hterminal⟩

end Runs

/-- The sample run ends with its one settlement, after which nothing moves. -/
theorem settlement_is_fenced_sample :
    ∃ (pre : List (StoreEvent Unit)) (event : StoreEvent Unit) (before after : MemoryState Unit),
      Run (StoreStep memoryIds) empty pre before ∧
      StoreStep memoryIds before event after ∧ event.settles ⟨"task-1"⟩ = true ∧
      (pre ++ [event]).countP (·.finishes ⟨"task-1"⟩) ≤ 1 ∧
      ∃ record, after.records.get? ⟨"task-1"⟩ = some record := by
  obtain ⟨history, s, hrun, hcheck⟩ := exists_run memoryIds .empty sampleCalls
    (fun history _ => history.getLast?.any (·.settles ⟨"task-1"⟩)) (by decide)
  obtain ⟨event, hlast, hsettles⟩ := (any_eq_true _ _).mp hcheck
  obtain ⟨pre, rfl⟩ := List.getLast?_eq_some_iff.mp hlast
  obtain ⟨before, hpre, hstep⟩ := Run.snoc_iff.mp hrun
  have hfenced := settlement_is_fenced hrun ⟨"task-1"⟩
  have hfinishes : event.finishes ⟨"task-1"⟩ = true := by
    rw [finishes, hsettles, Bool.true_or]
  obtain ⟨-, record, hrecord, -⟩ :=
    hfenced.2 pre event [] before s rfl hpre hstep (.nil s) hfinishes
  exact ⟨pre, event, before, s, hpre, hstep, hsettles, hfenced.1, record, hrecord⟩

end Skiff.Task
