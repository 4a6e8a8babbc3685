import Skiff.Request.ExecutionBudget

/-!
# One winner, and who hears of it

Along every run of the execution budget there is at most one settlement, and its counters
are those of the state from then on. Dispatches are counted and polled as the policy says.

A sink hears of the winner exactly once if no section of the VM adapter closes the budget
while sinks are registered: these sections do not notify anyone.
-/

namespace Skiff.Request

open ExecutionBudget BudgetLabel List OrdMap Run

namespace BudgetSystem

variable {budget : ExecutionBudget} {s t : BudgetSystem} {label : BudgetLabel}
variable {labels : List BudgetLabel}
variable {state : ExecutionBudgetState} {calls : OrdMap Nat BudgetCall}
variable {notified : List (PendingSink × ExecutionWinner)}

/-! ## The settlement -/

/-- A settlement stays, with everything but the sinks, and is what later calls see. -/
theorem Effect.settled {settlement : ExecutionSettlement}
    (h : Effect budget s label state calls notified) (hs : s.state.settlement = some settlement) :
    label.response.Observes settlement ∧ label.dispatched = false ∧
      state = { s.state with pendingSinks := state.pendingSinks } := by
  have hopen : s.state.settlement ≠ none := by simp [hs]
  have hresumed : label.response = .resumed → label.response.Observes settlement ∧
      label.dispatched = false := by
    intro heq
    refine ⟨by rw [heq]; trivial, dispatched_eq_false ?_⟩
    simp [heq]
  cases h with
  | observed settlement' hs' hobserves =>
    rw [hs] at hs'
    cases hs'
    refine ⟨hobserves, dispatched_eq_false fun hok => ?_, rfl⟩
    rw [hok] at hobserves
    cases hobserves
  | stopped hfreezes _ _ => exact absurd hfreezes.1 hopen
  | won _ _ _ hnone _ _ _ _ | dispatched _ hnone _ _ _ _ | polled hnone _ _ | charged hnone _ _
  | registered _ hnone _ _ | attached _ hnone _ _ => exact absurd hnone hopen
  | took call winner hresponse _ | returned call winner hresponse _
  | told call winner sink rest hresponse _ =>
    exact ⟨(hresumed hresponse).1, (hresumed hresponse).2, rfl⟩

theorem settlement_stays {settlement : ExecutionSettlement} (h : Run (Step budget) s labels t)
    (hs : s.state.settlement = some settlement) : t.state.settlement = some settlement := by
  refine invariant (P := fun u => u.state.settlement = some settlement) ?_ h hs
  intro u label v hu hstep
  rw [((step_effect hstep).settled hu).2.2]
  exact hu

theorem observed_of_run {settlement : ExecutionSettlement} (h : Run (Step budget) s labels t)
    (hs : s.state.settlement = some settlement) :
    ∀ label ∈ labels, label.response.Observes settlement := by
  induction h with
  | nil => simp
  | cons hstep _ ih =>
    obtain ⟨hobserves, -, -⟩ := (step_effect hstep).settled hs
    intro label hmem
    obtain rfl | hmem := mem_cons.mp hmem
    · exact hobserves
    · exact ih (settlement_stays (single hstep) hs) label hmem

theorem step_functional : Functional (Step budget) := by
  rintro s label t t' ⟨-, next, hnext, rfl, -⟩ ⟨-, next', hnext', rfl, -⟩
  rw [hnext] at hnext'
  cases hnext'
  rfl

/-- The counters are those of the settlement, and a due deadline won. -/
def Frozen (budget : ExecutionBudget) (state : ExecutionBudgetState) : Prop :=
  ∀ settlement, state.settlement = some settlement →
    state.rawExecutedCount = settlement.rawExecutedCount ∧
    state.semanticChargeCount = settlement.semanticChargeCount ∧
    state.pollCount = settlement.pollCount ∧
    (budget.deadlineIsDue settlement.finishedAt = true → settlement.winner = .deadlineExceeded)

theorem frozen_freeze {winner : ExecutionWinner} {now : Instant}
    (hdue : budget.deadlineIsDue now = true → winner = .deadlineExceeded) :
    Frozen budget (budget.freeze state winner now) := by
  intro settlement hsettled
  cases hsettled
  exact ⟨rfl, rfl, rfl, hdue⟩

theorem frozen_of_open (h : state.settlement = none) : Frozen budget state := by
  intro settlement hsettled
  rw [h] at hsettled
  cases hsettled

theorem Polled.settlement {polled : ExecutionBudgetState} (h : Polled state polled) :
    polled.settlement = state.settlement := by
  obtain rfl | rfl := h
  · rfl
  · rfl

theorem Polled.rawExecutedCount {polled : ExecutionBudgetState} (h : Polled state polled) :
    polled.rawExecutedCount = state.rawExecutedCount := by
  obtain rfl | rfl := h
  · rfl
  · rfl

theorem Effect.frozen (h : Effect budget s label state calls notified)
    (hs : Frozen budget s.state) :
    Frozen budget state := by
  cases hsettled : s.state.settlement with
  | some settlement =>
    rw [(h.settled hsettled).2.2]
    exact hs
  | none =>
    cases h with
    | observed settlement hs' _ => exact hs
    | stopped hfreezes _ _ =>
      obtain ⟨-, polled, winner, now, -, -, hdue, rfl⟩ := hfreezes
      exact frozen_freeze hdue
    | won _ winner now _ _ hdue _ _ => exact frozen_freeze hdue
    | dispatched polled _ _ _ hpolled _ =>
      exact frozen_of_open ((Polled.settlement hpolled).trans hsettled)
    | _ => exact frozen_of_open hsettled

/-- A step that settles does it at one of its readings of the clock. -/
theorem Effect.settles_at {settlement : ExecutionSettlement}
    (h : Effect budget s label state calls notified) (hs : s.state.settlement = none)
    (ht : state.settlement = some settlement) : settlement.finishedAt ∈ readings label.event := by
  cases h with
  | stopped hfreezes _ _ =>
    obtain ⟨-, polled, winner, now, -, hmem, -, rfl⟩ := hfreezes
    cases ht
    exact hmem
  | won _ winner now _ hmem _ _ _ =>
    cases ht
    exact hmem
  | dispatched polled _ _ _ hpolled _ =>
    change polled.settlement = some settlement at ht
    rw [Polled.settlement hpolled, hs] at ht
    cases ht
  | _ =>
    change s.state.settlement = some settlement at ht
    rw [hs] at ht
    cases ht

/-- Every settlement was made by one step of the run. -/
theorem settled_by {settlement : ExecutionSettlement} (h : Run (Step budget) {} labels t)
    (ht : t.state.settlement = some settlement) :
    ∃ before label after u v, labels = before ++ label :: after ∧ Run (Step budget) {} before u ∧
      u.state.settlement = none ∧ Step budget u label v ∧ v.state.settlement = some settlement := by
  revert ht
  refine history (P := fun labels t => t.state.settlement = some settlement →
    ∃ before label after u v, labels = before ++ label :: after ∧ Run (Step budget) {} before u ∧
      u.state.settlement = none ∧ Step budget u label v ∧ v.state.settlement = some settlement) ?_
        ?_ h
  · intro hnone
    cases hnone
  intro labels s label t hrun hearlier hstep ht
  cases hs : s.state.settlement with
  | none => exact ⟨labels, label, [], s, t, rfl, hrun, hs, hstep, ht⟩
  | some settlement' =>
    have hkept := settlement_stays (single hstep) hs
    rw [ht] at hkept
    cases hkept
    obtain ⟨before, first, after, u, v, rfl, hu⟩ := hearlier hs
    exact ⟨before, first, after ++ [label], u, v, by simp, hu⟩

/-! ## Dispatches and polls -/

/-- What is known about the last poll. -/
structure Paced (budget : ExecutionBudget) (state : ExecutionBudgetState) : Prop where
  limit : state.rawExecutedCount ≤ budget.policy.hardRawLimit
  unpolled : state.lastPolledRawCount = none → state.rawExecutedCount = 0
  last : ∀ last, state.lastPolledRawCount = some last → last ≤ state.rawExecutedCount
  between : ∀ last raw, state.lastPolledRawCount = some last → last < raw →
    raw < state.rawExecutedCount → raw % budget.policy.rawPollInterval ≠ 0

/-- Pacing only reads the raw count and the last poll. -/
theorem Paced.congr {state' : ExecutionBudgetState} (h : Paced budget state)
    (hraw : state'.rawExecutedCount = state.rawExecutedCount)
    (hlast : state'.lastPolledRawCount = state.lastPolledRawCount) : Paced budget state' := by
  obtain ⟨limit, unpolled, last, between⟩ := h
  constructor
  · rwa [hraw]
  · rwa [hraw, hlast]
  · rwa [hraw, hlast]
  · rwa [hraw, hlast]

theorem Paced.recordPoll (h : Paced budget state) (pollCount : Nat) :
    Paced budget (recordPoll state pollCount) := by
  refine ⟨h.limit, fun hnone => ?_, fun last hlast => ?_, fun last raw hlast hlt hraw => ?_⟩
  · cases hnone
  · cases hlast
    exact Nat.le_refl _
  cases hlast
  exact absurd (Nat.lt_trans hlt hraw) (Nat.lt_irrefl _)

theorem Paced.polled {polled : ExecutionBudgetState} (h : Paced budget state)
    (hpolled : Polled state polled) : Paced budget polled := by
  obtain rfl | rfl := hpolled
  · exact h
  · exact h.recordPoll _

/-- At a multiple of the interval, a dispatch was polled at this count. -/
theorem Paced.dispatch {polled : ExecutionBudgetState} (h : Paced budget state)
    (hlimit : state.rawExecutedCount < budget.policy.hardRawLimit) (hpolled : Polled state polled)
    (hdue : polled = state → budget.pollIsDue state = false) :
    Paced budget { polled with rawExecutedCount := state.rawExecutedCount + 1 } := by
  have hpaced := h.polled hpolled
  have hraw := Polled.rawExecutedCount hpolled
  have hhere : state.rawExecutedCount % budget.policy.rawPollInterval = 0 →
      polled.lastPolledRawCount = some state.rawExecutedCount := by
    intro hmod
    obtain rfl | rfl := hpolled
    · have hnot := hdue rfl
      simpa [pollIsDue, hmod] using hnot
    · rfl
  constructor
  · exact hlimit
  · intro hnone
    have hzero := hpaced.unpolled hnone
    rw [hraw] at hzero
    have hsome := hhere (by rw [hzero, Nat.zero_mod])
    rw [hsome] at hnone
    cases hnone
  · intro last hlast
    have hle := hpaced.last last hlast
    rw [hraw] at hle
    exact Nat.le_succ_of_le hle
  intro last raw hlast hlt hraw' hmod
  obtain heq | hless := Nat.eq_or_lt_of_le (Nat.le_of_lt_succ hraw')
  · rw [heq] at hmod hlt
    have hsome : polled.lastPolledRawCount = some state.rawExecutedCount := hhere hmod
    have hlast' : polled.lastPolledRawCount = some last := hlast
    rw [hsome] at hlast'
    cases hlast'
    exact Nat.lt_irrefl _ hlt
  · exact hpaced.between last raw hlast hlt (by rwa [hraw]) hmod

section

variable (h : Effect budget s label state calls notified)
include h

theorem Effect.paced (hs : Paced budget s.state) : Paced budget state := by
  cases h with
  | stopped hfreezes _ _ =>
    obtain ⟨-, polled, winner, now, hpolled, -, -, rfl⟩ := hfreezes
    exact (hs.polled hpolled).congr rfl rfl
  | dispatched polled _ _ hlimit hpolled hdue => exact hs.dispatch hlimit hpolled hdue
  | polled _ _ _ => exact hs.recordPoll _
  | _ => exact hs.congr rfl rfl

/-- Each successful dispatch counts one, and nothing else does. -/
theorem Effect.rawExecutedCount :
    state.rawExecutedCount = s.state.rawExecutedCount + label.dispatched.toNat := by
  have hnot : label.response ≠ .vm (.ok ()) →
      s.state.rawExecutedCount = s.state.rawExecutedCount + label.dispatched.toNat := by
    intro hresponse
    rw [dispatched_eq_false hresponse]
    rfl
  cases h with
  | observed settlement hs hobserves =>
    refine hnot fun hok => ?_
    rw [hok] at hobserves
    cases hobserves
  | stopped hfreezes _ hclosed =>
    obtain ⟨-, polled, winner, now, hpolled, -, -, rfl⟩ := hfreezes
    obtain ⟨closed, hresponse⟩ := hclosed
    exact (Polled.rawExecutedCount hpolled).trans (hnot (by simp [hresponse]))
  | won _ winner now _ _ _ hresponse _ | took _ _ hresponse _ | told _ _ _ _ hresponse _
  | returned _ _ hresponse _ => exact hnot (by simp [hresponse])
  | dispatched polled _ hdispatched _ _ _ =>
    rw [hdispatched]
    rfl
  | polled _ hfalse _ | charged _ hfalse _ | registered _ _ hfalse _ | attached _ _ hfalse _ =>
    rw [hfalse]
    rfl

/-- The last poll only changes with the poll count, to the present raw count. -/
theorem Effect.lastPolled :
    state.lastPolledRawCount = s.state.lastPolledRawCount ∨
      s.state.pollCount < state.pollCount ∧
        state.lastPolledRawCount = some s.state.rawExecutedCount := by
  cases h with
  | stopped hfreezes _ _ =>
    obtain ⟨-, polled, winner, now, rfl | rfl, -, -, rfl⟩ := hfreezes
    · exact .inl rfl
    · exact .inr ⟨Nat.lt_succ_self _, rfl⟩
  | dispatched polled _ _ _ hpolled _ =>
    obtain rfl | rfl := hpolled
    · exact .inl rfl
    · exact .inr ⟨Nat.lt_succ_self _, rfl⟩
  | polled _ _ _ => exact .inr ⟨Nat.lt_succ_self _, rfl⟩
  | _ => exact .inl rfl

/-- After a dispatch, the last poll is behind. -/
theorem Effect.last_lt (hs : Paced budget s.state) (hdispatched : label.dispatched = true)
    {last : Nat} (hlast : state.lastPolledRawCount = some last) :
    last < state.rawExecutedCount := by
  have hraw := h.rawExecutedCount
  rw [hdispatched] at hraw
  have hle : last ≤ s.state.rawExecutedCount := by
    obtain heq | ⟨-, hpolled⟩ := h.lastPolled
    · rw [heq] at hlast
      exact hs.last last hlast
    rw [hpolled] at hlast
    cases hlast
    exact Nat.le_refl _
  rw [hraw]
  exact Nat.lt_succ_of_le hle

end

theorem paced_start (budget : ExecutionBudget) : Paced budget {} := by
  refine ⟨Nat.zero_le _, fun _ => rfl, fun _ hlast => ?_, fun _ _ hlast => ?_⟩
  · cases hlast
  · cases hlast

theorem paced_of_run (h : Run (Step budget) {} labels t) : Paced budget t.state :=
  invariant (P := fun s => Paced budget s.state) (fun hs hstep => (step_effect hstep).paced hs) h
    (paced_start budget)

theorem rawExecutedCount_of_run (h : Run (Step budget) s labels t) :
    t.state.rawExecutedCount = s.state.rawExecutedCount + labels.countP dispatched := by
  induction h with
  | nil => rfl
  | cons hstep _ ih =>
    rw [ih, (step_effect hstep).rawExecutedCount, countP_cons]
    cases dispatched _ with
    | false => simp
    | true =>
      simp only [Bool.toNat_true, if_true]
      omega

theorem lastPolled_of_run (h : Run (Step budget) s labels t)
    (hpolls : ∀ label ∈ labels, label.polled = false) :
    t.state.lastPolledRawCount = s.state.lastPolledRawCount := by
  induction h with
  | nil => rfl
  | cons hstep _ ih =>
    rw [ih fun label hmem => hpolls label (mem_cons_of_mem _ hmem)]
    obtain heq | ⟨hlt, -⟩ := (step_effect hstep).lastPolled
    · exact heq
    obtain ⟨-, -, -, -, hpolled⟩ := hstep
    rw [hpolls _ mem_cons_self] at hpolled
    exact absurd hlt (of_decide_eq_false hpolled.symm)

/-- Every interval has a multiple. -/
theorem exists_multiple (interval raw : Nat) (h : 0 < interval) :
    ∃ multiple, raw ≤ multiple ∧ multiple < raw + interval ∧ multiple % interval = 0 := by
  have hdiv := Nat.div_add_mod (raw + interval - 1) interval
  have hmod := Nat.mod_lt (raw + interval - 1) h
  refine ⟨interval * ((raw + interval - 1) / interval), by omega, by omega, Nat.mul_mod_right _ _⟩

/-- A poll is among an interval of dispatches, or after the dispatch before them. -/
theorem polled_in_interval {before segment after : List BudgetLabel}
    (h : Run (Step budget) {} (before ++ segment ++ after) t)
    (hbefore : before = [] ∨ ∃ label, before.getLast? = some label ∧ label.dispatched = true)
    (hcount : budget.policy.rawPollInterval ≤ segment.countP dispatched) :
    ∃ label ∈ segment, label.polled = true := by
  by_contra hnone
  have hpolls : ∀ label ∈ segment, label.polled = false := by
    intro label hmem
    by_contra hpolled
    exact hnone ⟨label, hmem, by simpa using hpolled⟩
  obtain ⟨last, hrun, -⟩ := append_iff.mp h
  obtain ⟨first, hfirst, hsegment⟩ := append_iff.mp hrun
  have hraw := rawExecutedCount_of_run hsegment
  have hlast := lastPolled_of_run hsegment hpolls
  have hpaced := paced_of_run hrun
  have hpos := budget.policy.rawPollInterval_pos
  cases hpoll : first.state.lastPolledRawCount with
  | none =>
    rw [hpoll] at hlast
    have hzero := hpaced.unpolled hlast
    omega
  | some poll =>
    have hbehind : poll < first.state.rawExecutedCount := by
      obtain rfl | ⟨label, hlabel, hdispatched⟩ := hbefore
      · obtain rfl := nil_iff.mp hfirst
        cases hpoll
      obtain ⟨earlier, rfl⟩ := getLast?_eq_some_iff.mp hlabel
      obtain ⟨s, hs, hstep⟩ := snoc_iff.mp hfirst
      exact (step_effect hstep).last_lt (paced_of_run hs) hdispatched hpoll
    obtain ⟨multiple, hle, hlt, hmod⟩ := exists_multiple _ first.state.rawExecutedCount hpos
    exact hpaced.between poll multiple (hlast.trans hpoll) (by omega) (by omega) hmod

/-- Over every interleaving: one settlement, which every later call sees; a due deadline
wins at the reading that settled; dispatches are counted up to the limit, and neither they
nor charges succeed on frozen counters; an interval of dispatches has a poll among them or
right before. -/
theorem single_winner (h : Run (Step budget) {} labels t) :
    (∀ before after u settlement, labels = before ++ after → Run (Step budget) {} before u →
      u.state.settlement = some settlement → t.state.settlement = some settlement ∧
        ∀ label ∈ after, label.response.Observes settlement) ∧
    (∀ settlement, t.state.settlement = some settlement →
      (∃ before label after u v, labels = before ++ label :: after ∧ Run (Step budget) {} before u ∧
        u.state.settlement = none ∧ Step budget u label v ∧ v.state.settlement = some settlement ∧
        settlement.finishedAt ∈ readings label.event) ∧
      (budget.deadlineIsDue settlement.finishedAt = true → settlement.winner = .deadlineExceeded) ∧
      t.state.rawExecutedCount = settlement.rawExecutedCount ∧
      t.state.semanticChargeCount = settlement.semanticChargeCount ∧
      t.state.pollCount = settlement.pollCount) ∧
    t.state.rawExecutedCount ≤ budget.policy.hardRawLimit ∧
    t.state.rawExecutedCount = labels.countP dispatched ∧
    (∀ before gap window after, labels = before ++ gap ++ window ++ after →
      (before = [] ∨ ∃ label, before.getLast? = some label ∧ label.dispatched = true) →
      window.countP dispatched = budget.policy.rawPollInterval →
        ∃ label ∈ gap ++ window, label.polled = true) := by
  have hfrozen : Frozen budget t.state :=
    invariant (P := fun s => Frozen budget s.state)
      (fun hs hstep => (step_effect hstep).frozen hs) h
      (frozen_of_open rfl)
  refine ⟨?_, ?_, (paced_of_run h).limit, ?_, ?_⟩
  · rintro before after u settlement rfl hu hsettled
    obtain ⟨u', hu', hafter⟩ := append_iff.mp h
    obtain rfl := functional step_functional hu hu'
    exact ⟨settlement_stays hafter hsettled, observed_of_run hafter hsettled⟩
  · intro settlement ht
    obtain ⟨before, label, after, u, v, hlabels, hu, hopen, hstep, hv⟩ := settled_by h ht
    obtain ⟨hraw, hsemantic, hpoll, hdue⟩ := hfrozen settlement ht
    exact ⟨⟨before, label, after, u, v, hlabels, hu, hopen, hstep, hv,
      (step_effect hstep).settles_at hopen hv⟩, hdue, hraw, hsemantic, hpoll⟩
  · exact (rawExecutedCount_of_run h).trans (Nat.zero_add _)
  · rintro before gap window after rfl hbefore hcount
    rw [append_assoc before gap window] at h
    refine polled_in_interval h hbefore ?_
    rw [countP_append]
    omega

/-- A deadline at 5 and a limit of three dispatches, polled at every other one. -/
def smallBudget : ExecutionBudget where
  policy := ⟨3, 2, by decide, by decide⟩
  deadline := some 5
  startedAt := 0

/-- A success that comes after the deadline. -/
theorem single_winner_late :
    ∃ t : BudgetSystem, t.state.settlement.map (·.winner) = some .deadlineExceeded ∧
    t.state.rawExecutedCount = 1 ∧ t.state.rawExecutedCount ≤ smallBudget.policy.hardRawLimit := by
  have hrun : Run (Step smallBudget) {}
      [⟨.beforeDispatch 1 1, .vm (.ok ()), true⟩,
        ⟨.settle 0 .success 6, .arbitration (.won .deadlineExceeded), false⟩]
      { state := smallBudget.freeze
          { rawExecutedCount := 1, pollCount := 1, lastPolledRawCount := some 0 } .deadlineExceeded
            6
        calls := insert ∅ 0 (.completing .deadlineExceeded)
        clock := 6 } :=
    .cons ⟨by decide, _, rfl, rfl, rfl⟩ (.cons ⟨by decide, _, rfl, rfl, rfl⟩ (.nil _))
  exact ⟨_, rfl, rfl, (single_winner hrun).2.2.1⟩

/-! ## Sinks -/

/-- No section of the adapter closes the budget while a sink is registered. -/
def Delivers (budget : ExecutionBudget) (s : BudgetSystem) (event : BudgetEvent) : Prop :=
  s.state.settlement = none → s.state.pendingSinks ≠ [] → ¬ AdapterCloses budget s.state event

/-- How often a sink was registered. -/
def registrations (labels : List BudgetLabel) (sink : PendingSink) : Nat :=
  (labels.filterMap registered).count sink

/-- How often a sink is waiting in the calls. -/
def taken (calls : OrdMap Nat BudgetCall) (sink : PendingSink) : Nat :=
  calls.weight fun _ rest => rest.sinks.count sink

variable {call : Nat}

theorem taken_insert_of_none (rest : BudgetCall) (sink : PendingSink) (h : calls.get? call = none) :
    taken (calls.insert call rest) sink = taken calls sink + rest.sinks.count sink := by
  have hweight := calls.weight_insert (fun _ rest => rest.sinks.count sink) call rest
  rw [weightAt, h] at hweight
  exact hweight

variable {before : BudgetCall}

theorem taken_insert (rest : BudgetCall) (sink : PendingSink)
    (h : calls.get? call = some before) :
    taken (calls.insert call rest) sink + before.sinks.count sink =
      taken calls sink + rest.sinks.count sink := by
  have hweight := calls.weight_insert (fun _ rest => rest.sinks.count sink) call rest
  rw [weightAt, h] at hweight
  exact hweight

theorem taken_erase (sink : PendingSink) (h : calls.get? call = some before) :
    taken (calls.erase call) sink + before.sinks.count sink = taken calls sink := by
  have hweight := calls.weight_erase (fun _ rest => rest.sinks.count sink) call
  rw [weightAt, h] at hweight
  exact hweight

/-- Where each registration is: still registered, taken by a call, or done. -/
structure Tracked (labels : List BudgetLabel) (s : BudgetSystem) : Prop where
  count : ∀ sink, registrations labels sink = s.state.pendingSinks.count sink +
    taken s.calls sink + s.notified.countP fun notification => notification.1 = sink
  idle : s.state.settlement = none → s.calls = ∅ ∧ s.notified = []
  winner : ∀ settlement, s.state.settlement = some settlement →
    (∀ call rest, s.calls.get? call = some rest → rest.winner = settlement.winner) ∧
    ∀ notification ∈ s.notified, notification.2 = settlement.winner
  completing : s.state.settlement ≠ none → s.state.pendingSinks ≠ [] →
    ∃ call winner, s.calls.get? call = some (.completing winner)

/-- There are calls on a settled budget only. -/
theorem Tracked.settled (hs : Tracked labels s) {rest : BudgetCall}
    (hcall : s.calls.get? call = some rest) : s.state.settlement ≠ none := by
  intro hnone
  rw [(hs.idle hnone).1] at hcall
  cases hcall

/-- A call keeps its winner. -/
theorem Tracked.winner_insert (hs : Tracked labels s) {settlement : ExecutionSettlement}
    {rest : BudgetCall} (hsettled : s.state.settlement = some settlement)
    (hcall : s.calls.get? call = some before) (hrest : rest.winner = before.winner) :
    ∀ other rest', (s.calls.insert call rest).get? other = some rest' →
      rest'.winner = settlement.winner := by
  intro other rest' hother
  have hwinner := (hs.winner settlement hsettled).1
  obtain ⟨-, rfl⟩ | ⟨-, hother⟩ := get?_insert_eq_some.mp hother
  · exact hrest.trans (hwinner call before hcall)
  · exact hwinner other rest' hother

theorem registrations_append (labels : List BudgetLabel) (label : BudgetLabel)
    (sink : PendingSink) :
    registrations (labels ++ [label]) sink =
      registrations labels sink + label.registered.toList.count sink := by
  rw [registrations, registrations, filterMap_append, count_append]
  cases hregistered : label.registered <;> simp [hregistered]

theorem registrations_of_none (labels : List BudgetLabel) (h : label.registered = none)
    (sink : PendingSink) : registrations (labels ++ [label]) sink = registrations labels sink := by
  rw [registrations_append, h]
  rfl

theorem Effect.tracked (h : Effect budget s label state calls notified) (hs : Tracked labels s)
    (hdelivers : Delivers budget s label.event) (clock : Instant) :
    Tracked (labels ++ [label]) ⟨state, calls, notified, clock⟩ := by
  have hresponse : label.response ≠ .arbitration .still →
      ∀ sink, registrations (labels ++ [label]) sink = registrations labels sink :=
    fun hne => registrations_of_none labels (registered_eq_none hne)
  cases h with
  | observed settlement hsettled hobserves =>
    have hsame := hresponse fun heq => by
      rw [heq] at hobserves
      cases hobserves
    exact ⟨fun sink => (hsame sink).trans (hs.count sink), hs.idle, hs.winner, hs.completing⟩
  | stopped hfreezes hcloses hclosed =>
    obtain ⟨closed, heq⟩ := hclosed
    have hsame := hresponse (by simp [heq])
    obtain ⟨hopen, polled, winner, now, hpolled, -, -, rfl⟩ := hfreezes
    have hsinks : polled.pendingSinks = s.state.pendingSinks := by
      obtain rfl | rfl := hpolled
      · rfl
      · rfl
    have hempty : s.state.pendingSinks = [] := by
      by_contra hne
      exact hdelivers hopen hne hcloses
    obtain ⟨hcalls, hnotified⟩ := hs.idle hopen
    refine ⟨fun sink => ?_, fun hnone => ?_, fun settlement hsettled => ⟨?_, ?_⟩, fun _ hne => ?_⟩
    · rw [hsame, hs.count]
      change _ = polled.pendingSinks.count sink + _ + _
      rw [hsinks]
    · cases hnone
    · intro call rest hcall
      rw [hcalls] at hcall
      cases hcall
    · intro notification hmem
      rw [hnotified] at hmem
      cases hmem
    change polled.pendingSinks ≠ [] at hne
    rw [hsinks] at hne
    exact absurd hempty hne
  | won call winner now hopen _ _ heq hnone =>
    have hsame := hresponse (by simp [heq])
    obtain ⟨hcalls, hnotified⟩ := hs.idle hopen
    refine ⟨fun sink => ?_, fun hnone => ?_, fun settlement hsettled => ⟨?_, ?_⟩, fun _ hne => ?_⟩
    · rw [hsame, hs.count, taken_insert_of_none _ _ hnone]
      rfl
    · cases hnone
    · intro other rest hother
      cases hsettled
      simp only [get?_insert, hcalls, get?_empty] at hother
      split at hother
      · cases hother
        rfl
      · cases hother
    · intro notification hmem
      simp only [hnotified] at hmem
      cases hmem
    · exact ⟨call, winner, get?_insert_self _ _ _⟩
  | dispatched polled hopen hdispatched _ hpolled _ =>
    have hsame := hresponse fun heq => by
      rw [dispatched_eq_false (by simp [heq])] at hdispatched
      cases hdispatched
    obtain rfl | rfl := hpolled
    · exact ⟨fun sink => (hsame sink).trans (hs.count sink), hs.idle, hs.winner, hs.completing⟩
    · exact ⟨fun sink => (hsame sink).trans (hs.count sink), hs.idle, hs.winner, hs.completing⟩
  | polled hopen _ hnone | charged hopen _ hnone | attached attached hopen _ hnone =>
    exact ⟨fun sink => (registrations_of_none labels hnone sink).trans (hs.count sink), hs.idle,
      hs.winner, hs.completing⟩
  | registered sink hopen _ hsome =>
    refine ⟨fun other => ?_, hs.idle, hs.winner, fun hne => absurd hopen hne⟩
    rw [registrations_append, hsome, hs.count]
    simp only [Option.toList_some, count_append]
    omega
  | took call winner heq hcall =>
    have hsame := hresponse (by simp [heq])
    have hsettled := hs.settled hcall
    refine ⟨fun sink => ?_, fun hnone => absurd hnone hsettled, fun settlement heq => ⟨?_, ?_⟩,
      fun _ hne => absurd rfl hne⟩
    · have hmoved := taken_insert (.notifying winner s.state.pendingSinks) sink hcall
      rw [hsame, hs.count]
      simp only [BudgetCall.sinks, count_nil] at hmoved ⊢
      omega
    · exact hs.winner_insert heq hcall rfl
    · exact (hs.winner settlement heq).2
  | told call winner sink rest heq hcall =>
    have hsame := hresponse (by simp [heq])
    have hsettled := hs.settled hcall
    refine ⟨fun other => ?_, fun hnone => absurd hnone hsettled, fun settlement heq => ⟨?_, ?_⟩,
      fun hne hsinks => ?_⟩
    · have hmoved := taken_insert (.notifying winner rest) other hcall
      rw [hsame, hs.count, countP_append]
      simp only [BudgetCall.sinks, count_cons, countP_singleton, beq_iff_eq,
        decide_eq_true_eq] at hmoved ⊢
      omega
    · exact hs.winner_insert heq hcall rfl
    · intro notification hmem
      obtain hmem | hlast := mem_append.mp hmem
      · exact (hs.winner settlement heq).2 notification hmem
      rw [mem_singleton.mp hlast]
      exact (hs.winner settlement heq).1 call _ hcall
    obtain ⟨other, completed, hother⟩ := hs.completing hne hsinks
    refine ⟨other, completed, ?_⟩
    rw [get?_insert_of_ne]
    · exact hother
    rintro rfl
    rw [hcall] at hother
    cases hother
  | returned call winner heq hcall =>
    have hsame := hresponse (by simp [heq])
    have hsettled := hs.settled hcall
    refine ⟨fun sink => ?_, fun hnone => absurd hnone hsettled, fun settlement heq => ⟨?_, ?_⟩,
      fun hne hsinks => ?_⟩
    · have hmoved := taken_erase sink hcall
      rw [hsame, hs.count]
      simp only [BudgetCall.sinks, count_nil] at hmoved ⊢
      omega
    · intro other rest hother
      obtain ⟨-, hother⟩ := get?_erase_eq_some.mp hother
      exact (hs.winner settlement heq).1 other rest hother
    · exact (hs.winner settlement heq).2
    obtain ⟨other, completed, hother⟩ := hs.completing hne hsinks
    refine ⟨other, completed, ?_⟩
    rw [get?_erase_of_ne]
    · exact hother
    rintro rfl
    rw [hcall] at hother
    cases hother

theorem tracked_start : Tracked [] {} := by
  refine ⟨fun _ => rfl, fun _ => ⟨rfl, rfl⟩, fun _ hsettled => ?_, fun hne => absurd rfl hne⟩
  cases hsettled

theorem tracked_of_run
    (h : Run (fun s label t => Step budget s label t ∧ Delivers budget s label.event) {} labels t) :
    Tracked labels t :=
  history tracked_start (fun _ hs hstep => (step_effect hstep.1).tracked hs hstep.2 _) h

/-- In every run in which the adapter closes no budget that has sinks, once the budget is
settled and every call has returned, no sink is left, every notification named the winner,
and each sink got as many as it had registrations. -/
theorem sinks_told_once {settlement : ExecutionSettlement}
    (h : Run (fun s label t => Step budget s label t ∧ Delivers budget s label.event) {} labels t)
    (hsettled : t.state.settlement = some settlement) (hreturned : t.calls = ∅) :
    t.state.pendingSinks = [] ∧
    (∀ notification ∈ t.notified, notification.2 = settlement.winner) ∧
    ∀ sink, t.notified.count (sink, settlement.winner) = registrations labels sink := by
  have htracked := tracked_of_run h
  have hempty : t.state.pendingSinks = [] := by
    by_contra hne
    obtain ⟨call, winner, hcall⟩ := htracked.completing (by simp [hsettled]) hne
    rw [hreturned] at hcall
    cases hcall
  have hwinner := (htracked.winner settlement hsettled).2
  refine ⟨hempty, hwinner, fun sink => ?_⟩
  have hcount := htracked.count sink
  rw [hempty, hreturned] at hcount
  have hnotified : t.notified.count (sink, settlement.winner) =
      t.notified.countP fun notification => notification.1 = sink := by
    rw [count]
    refine countP_congr fun notification hmem => ?_
    have heq := hwinner notification hmem
    simp [Prod.ext_iff, heq]
  rw [hnotified, hcount]
  simp [taken]

theorem sinks_told_once_on_success : ∃ t : BudgetSystem,
    t.state.settlement.map (·.winner) = some .succeeded ∧ t.notified.count (7, .succeeded) = 1 := by
  have hrun : Run (fun s label t => Step smallBudget s label t ∧ Delivers smallBudget s label.event)
    {}
      [⟨.registerPendingSink 0 7 0, .arbitration .still, false⟩,
        ⟨.settle 1 .success 1, .arbitration (.won .succeeded), false⟩,
        ⟨.resume 1, .resumed, false⟩, ⟨.resume 1, .resumed, false⟩, ⟨.resume 1, .resumed, false⟩]
      { state := smallBudget.freeze {} .succeeded 1, notified := [(7, .succeeded)], clock :=
        1 } := by
    refine .cons ⟨⟨by decide, _, rfl, rfl, rfl⟩, fun _ _ hcloses => hcloses⟩ ?_
    refine .cons ⟨⟨by decide, _, rfl, rfl, rfl⟩, fun _ _ hcloses => hcloses⟩ ?_
    refine .cons ⟨⟨by decide, _, rfl, rfl, rfl⟩, fun _ _ hcloses => hcloses⟩ ?_
    refine .cons ⟨⟨by decide, _, rfl, rfl, rfl⟩, fun _ _ hcloses => hcloses⟩ ?_
    exact .cons ⟨⟨by decide, _, rfl, rfl, rfl⟩, fun _ _ hcloses => hcloses⟩ (.nil _)
  exact ⟨_, rfl, (sinks_told_once hrun rfl rfl).2.2 7⟩

/-- A sink is registered, and then a poll of the adapter finds the deadline due: the budget
is settled and nobody is left to notify the sink. -/
theorem poll_tells_no_sink :
    ¬ ∀ (labels : List BudgetLabel) (t : BudgetSystem) (settlement : ExecutionSettlement),
      Run (Step smallBudget) {} labels t → t.state.settlement = some settlement → t.calls = ∅ →
        t.state.pendingSinks = [] ∧
          ∀ sink, t.notified.count (sink, settlement.winner) = registrations labels sink := by
  intro hclaim
  have hrun : Run (Step smallBudget) {}
      [⟨.registerPendingSink 0 7 0, .arbitration .still, false⟩,
        ⟨.pollInterrupt 5, .vm (.error .deadlineExceeded), true⟩]
      { state := smallBudget.freeze
          { pollCount := 1, lastPolledRawCount := some 0, pendingSinks := [7] } .deadlineExceeded 5
        clock := 5 } :=
    .cons ⟨by decide, _, rfl, rfl, rfl⟩ (.cons ⟨by decide, _, rfl, rfl, rfl⟩ (.nil _))
  have htold := (hclaim _ _ _ hrun rfl rfl).2 7
  exact absurd htold (by decide)

end BudgetSystem

end Skiff.Request
