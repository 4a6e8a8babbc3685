import Skiff.Task.Memory

/-!
# What every run of the store keeps

The store is driven by any number of callers at arbitrary clock values. Whatever
they do, a stored record carries a lease exactly while it is leased and a terminal
exactly when it is finished, its generation counts the successful claims of the
history, and its submission fields are those of the creation.

Each part is shown for one record step. The run results follow from
`Run.history`, and the absence of panics from well-formedness alone.
-/

namespace Skiff.Task

open TaskState StoreEvent List MemoryState

variable {Target : Type} {id : TaskId} {event : StoreEvent Target}
variable {stored stored' : Option (TaskRecord Target)} {record next : TaskRecord Target}

/-! ## One record step -/

/-- The creation acknowledged by an event, if it is one for this task. -/
def StoreEvent.createdRecord (id : TaskId) : StoreEvent Target → Option (TaskRecord Target)
  | .body _ (.create record) (.created _) => if record.taskId = id then some record else none
  | _ => none

theorem StoreEvent.claims_of_touches (h : event.touches id = false) : event.claims id = false := by
  simp only [touches, Bool.or_eq_false_iff] at h
  exact h.1.1.1.1.2

theorem StoreEvent.createdRecord_of_touches (h : event.touches id = false) :
    event.createdRecord id = none := by
  simp only [touches, Bool.or_eq_false_iff] at h
  have hcreates := h.1.1.1.1.1
  unfold createdRecord
  split
  · simpa using hcreates
  · rfl

/-- Leases and terminals come and go together with the states that carry them. -/
theorem RecordStep.wellFormed (h : RecordStep id event stored stored')
    (hbefore : ∀ record, stored = some record → record.WellFormed)
    (hafter : stored' = some next) : next.WellFormed := by
  cases h with
  | created hid hvalid | recreated hid hvalid =>
    cases hafter
    exact .of_validateCreate hvalid
  | advanced hadvance =>
    cases hafter
    obtain ⟨hstate, -, rfl⟩ := advanceDue_eq_some.mp hadvance
    have hrecord := hbefore _ rfl
    have hlease := hrecord.activeLease_eq_none (by simp [hstate])
    have hterminal := hrecord.terminal_eq_none (by simp [hstate, isTerminal])
    constructor <;> simp [hlease, hterminal, isTerminal]
  | claimed hid hclaim =>
    cases hafter
    obtain ⟨-, -, -, -, rfl⟩ := claim_eq_ok.mp hclaim
    constructor <;> simp [isTerminal]
  | renewed hid hrenew =>
    cases hafter
    obtain ⟨lease, hstate, -, -, -, -, rfl⟩ := renew_eq_ok.mp hrenew
    have hrecord := hbefore _ rfl
    constructor
    · simp [hstate]
    · exact hrecord.terminal_iff
    · exact hrecord.terminal_state
  | settled hid hsettle =>
    cases hafter
    obtain ⟨lease, -, -, -, -, -, rfl⟩ := settle_eq_settled.mp hsettle
    constructor
    · rename_i input _
      cases hout : input.terminal.outcome <;>
        simp [TaskTerminal.state, TaskOutcome.terminalState, hout]
    · simp [TaskTerminal.state]
    rintro terminal ⟨⟩
    rfl
  | canceled hid hcancel =>
    cases hafter
    obtain ⟨-, rfl⟩ := cancel_eq_ok.mp hcancel
    constructor <;> simp [isTerminal, TaskTerminal.state, TaskOutcome.terminalState]
  | recovered hid hrecover =>
    cases hafter
    obtain ⟨lease, hstate, -, -, rfl⟩ := recoverExpiredLease_eq_ok.mp hrecover
    have hterminal := (hbefore _ rfl).terminal_eq_none (by simp [hstate, isTerminal])
    constructor <;> simp [hterminal, isTerminal]
  | released hid hrelease =>
    cases hafter
    obtain ⟨lease, hstate, -, -, -, rfl⟩ := release_eq_ok.mp hrelease
    have hterminal := (hbefore _ rfl).terminal_eq_none (by simp [hstate, isTerminal])
    constructor <;> simp [hterminal, isTerminal]
  | kept => exact hbefore _ hafter

/-- A record never disappears, what was submitted is never rewritten, and the
generation moves by one on a successful claim and on nothing else. -/
theorem RecordStep.frame (h : RecordStep id event (some record) stored') :
    ∃ next, stored' = some next ∧ next.SameSubmission record ∧
      next.attemptGeneration = record.attemptGeneration + if event.claims id then 1 else 0 := by
  cases h with
  | recreated => exact ⟨_, rfl, .refl _, rfl⟩
  | advanced hadvance =>
    obtain ⟨-, -, rfl⟩ := advanceDue_eq_some.mp hadvance
    exact ⟨_, rfl, ⟨rfl, rfl, rfl, rfl, rfl, rfl, rfl, rfl, rfl⟩, rfl⟩
  | claimed hid hclaim =>
    obtain ⟨-, -, -, -, rfl⟩ := claim_eq_ok.mp hclaim
    exact ⟨_, rfl, ⟨rfl, rfl, rfl, rfl, rfl, rfl, rfl, rfl, rfl⟩, by simp [hid]⟩
  | renewed hid hrenew =>
    obtain ⟨lease, -, -, -, -, -, rfl⟩ := renew_eq_ok.mp hrenew
    exact ⟨_, rfl, ⟨rfl, rfl, rfl, rfl, rfl, rfl, rfl, rfl, rfl⟩, rfl⟩
  | settled hid hsettle =>
    obtain ⟨lease, -, -, -, -, -, rfl⟩ := settle_eq_settled.mp hsettle
    exact ⟨_, rfl, ⟨rfl, rfl, rfl, rfl, rfl, rfl, rfl, rfl, rfl⟩, rfl⟩
  | canceled hid hcancel =>
    obtain ⟨-, rfl⟩ := cancel_eq_ok.mp hcancel
    exact ⟨_, rfl, ⟨rfl, rfl, rfl, rfl, rfl, rfl, rfl, rfl, rfl⟩, rfl⟩
  | recovered hid hrecover =>
    obtain ⟨lease, -, -, -, rfl⟩ := recoverExpiredLease_eq_ok.mp hrecover
    exact ⟨_, rfl, ⟨rfl, rfl, rfl, rfl, rfl, rfl, rfl, rfl, rfl⟩, rfl⟩
  | released hid hrelease =>
    obtain ⟨lease, -, -, -, -, rfl⟩ := release_eq_ok.mp hrelease
    exact ⟨_, rfl, ⟨rfl, rfl, rfl, rfl, rfl, rfl, rfl, rfl, rfl⟩, rfl⟩
  | kept hquiet =>
    have hclaims : event.claims id = false := claims_of_touches hquiet
    exact ⟨_, rfl, .refl _, by simp only [hclaims, Bool.false_eq_true, if_false, Nat.add_zero]⟩

/-- An acknowledged creation is of the record that is stored afterwards. -/
theorem RecordStep.createdRecord {created : TaskRecord Target}
    (h : RecordStep id event stored (some next))
    (hcreated : event.createdRecord id = some created) :
    next = created := by
  cases h with
  | created hid | recreated hid => simpa [StoreEvent.createdRecord, hid] using hcreated
  | kept hquiet =>
    have := createdRecord_of_touches hquiet
    rw [this] at hcreated
    cases hcreated
  | _ => simp [StoreEvent.createdRecord] at hcreated

/-- Before a task is stored nothing has been reported about it. -/
theorem RecordStep.of_none (h : RecordStep id event none stored') :
    (∃ created, stored' = some created ∧ event.createdRecord id = some created ∧
      created.WellFormed ∧ created.attemptGeneration = 0 ∧ event.claims id = false) ∨
    (stored' = none ∧ event.touches id = false) := by
  cases h with
  | @created now record hid hvalid =>
    refine .inl ⟨record, rfl, ?_, .of_validateCreate hvalid, ?_, rfl⟩
    · simp [StoreEvent.createdRecord, hid]
    · exact (TaskRecord.validateCreate_ok hvalid).2.1
  | kept hquiet => exact .inr ⟨rfl, hquiet⟩

/-! ## Every run -/

/-- What a stored record says about the history that led to it. -/
structure Accounts (history : List (StoreEvent Target)) (id : TaskId)
    (record : TaskRecord Target) : Prop where
  wellFormed : record.WellFormed
  attemptGeneration : record.attemptGeneration = history.countP (·.claims id)
  created : ∃ event ∈ history, ∃ created, event.createdRecord id = some created
  submission : ∀ event ∈ history, ∀ created, event.createdRecord id = some created →
    record.SameSubmission created

/-- The same for a lookup: an absent task has left no trace in the history. -/
def Tracks (history : List (StoreEvent Target)) (id : TaskId) : Option (TaskRecord Target) → Prop
  | none => ∀ event ∈ history, event.touches id = false
  | some record => Accounts history id record

theorem Tracks.step {history : List (StoreEvent Target)} (hbefore : Tracks history id stored)
    (h : RecordStep id event stored stored') : Tracks (history ++ [event]) id stored' := by
  cases stored with
  | none =>
    rcases h.of_none with ⟨created, rfl, hcreated, hwell, hgen, hclaims⟩ | ⟨rfl, hquiet⟩
    · have hnoclaims : history.countP (·.claims id) = 0 :=
        countP_eq_zero.mpr fun earlier hmem hclaim => by
          rw [claims_of_touches (hbefore earlier hmem)] at hclaim
          cases hclaim
      refine ⟨hwell, ?_, ⟨event, by simp, created, hcreated⟩, ?_⟩
      · rw [hgen, countP_append, hnoclaims, countP_singleton, hclaims]
        rfl
      intro earlier hmem other hother
      rcases mem_append.mp hmem with hmem | hmem
      · rw [createdRecord_of_touches (hbefore earlier hmem)] at hother
        cases hother
      obtain rfl := mem_singleton.mp hmem
      rw [hcreated] at hother
      cases hother
      exact .refl _
    intro earlier hmem
    rcases mem_append.mp hmem with hmem | hmem
    · exact hbefore earlier hmem
    obtain rfl := mem_singleton.mp hmem
    exact hquiet
  | some record =>
    obtain ⟨next, rfl, hsame, hgen⟩ := h.frame
    have hwell := h.wellFormed (by rintro _ ⟨⟩; exact hbefore.wellFormed) rfl
    obtain ⟨creation, hmem, created, hcreated⟩ := hbefore.created
    refine ⟨hwell, ?_, ⟨creation, by simp [hmem], created, hcreated⟩, ?_⟩
    · rw [hgen, hbefore.attemptGeneration, countP_append, countP_singleton]
    intro earlier hmem other hother
    rcases mem_append.mp hmem with hmem | hmem
    · exact hsame.trans (hbefore.submission earlier hmem other hother)
    obtain rfl := mem_singleton.mp hmem
    obtain rfl := h.createdRecord hother
    exact .refl _

section Runs

variable [DecidableEq Target] {ids : IdSupply} {history : List (StoreEvent Target)}
variable {s : MemoryState Target}

theorem tracks_of_run (h : Run (StoreStep ids) empty history s) (id : TaskId) :
    Tracks history id (s.records.get? id) := by
  refine Run.history (P := fun history s => ∀ id, Tracks history id (s.records.get? id)) ?_ ?_ h id
  · intro id event hmem
    cases hmem
  intro history s event t _ hbefore hstep id
  exact (hbefore id).step (hstep.recordStep id)

/-- A store of well-formed records answers every call. -/
theorem MemoryState.exec_ok (hwell : ∀ id record, s.records.get? id = some record →
    record.WellFormed) (now : DurableUtcTimestamp) (call : StoreCall Target) :
    ∃ reply t, s.exec ids now call = .ok (reply, t) := by
  cases call with
  | renew input =>
    simp only [exec, renew]
    split
    · exact ⟨_, _, rfl⟩
    case h_2 record hrecord =>
      obtain ⟨result, hresult⟩ := (hwell _ _ hrecord).renew_ok input now
      cases result <;> exact ⟨_, _, by rw [hresult]; rfl⟩
  | settle input =>
    simp only [exec, settle]
    split
    · exact ⟨_, _, rfl⟩
    case h_2 record hrecord =>
      obtain ⟨result, hresult⟩ := (hwell _ _ hrecord).settle_ok input now
      cases result <;> exact ⟨_, _, by rw [hresult]; rfl⟩
  | recoverExpiredLease input =>
    simp only [exec, recoverExpiredLease]
    split
    · exact ⟨_, _, rfl⟩
    case h_2 record hrecord =>
      obtain ⟨result, hresult⟩ :=
        (hwell _ _ hrecord).recoverExpiredLease_ok now input.retryNotBefore
      rcases result with (_ | _ | _) | next <;> exact ⟨_, _, by rw [hresult]; rfl⟩
  | release input =>
    simp only [exec, release]
    split
    · exact ⟨_, _, rfl⟩
    case h_2 record hrecord =>
      obtain ⟨result, hresult⟩ := (hwell _ _ hrecord).release_ok input now
      rcases result with (_ | _ | _ | _) | next <;> exact ⟨_, _, by rw [hresult]; rfl⟩
  | _ => exact ⟨_, _, rfl⟩

/-- Every run of the store, at any clock values and for any supply of ids, keeps
every stored record accounted for, and the next call never panics. -/
theorem stored_records_account (h : Run (StoreStep ids) empty history s) :
    (∀ id record, s.records.get? id = some record → Accounts history id record) ∧
      ∀ now call, ∃ reply t, s.exec ids now call = .ok (reply, t) := by
  have haccounts : ∀ id record, s.records.get? id = some record → Accounts history id record := by
    intro id record hrecord
    have := tracks_of_run h id
    rwa [hrecord] at this
  exact ⟨haccounts, exec_ok fun id record hrecord => (haccounts id record hrecord).wellFormed⟩

end Runs

/-- Claim, recovery after expiry, a second claim while the clock has moved back,
and its settlement. -/
def sampleCalls : List (DurableUtcTimestamp × StoreCall Unit) :=
  [(5, .create sampleRecord), (20, .scanDue ⟨8⟩), (20, .claim ⟨⟨"task-1"⟩, "a", 30, true⟩),
    (30, .recoverExpiredLease ⟨⟨"task-1"⟩, 35⟩), (15, .claim ⟨⟨"task-1"⟩, "b", 40, true⟩),
    (16, .settle ⟨⟨"task-1"⟩, ⟨"lease-1"⟩, ⟨16, .succeeded⟩⟩)]

theorem stored_records_account_sample :
    ∃ history s record, Run (StoreStep memoryIds) (.empty : MemoryState Unit) history s ∧
      s.records.get? ⟨"task-1"⟩ = some record ∧
      (record.attemptGeneration = 2 ∧ record.state = .succeeded) ∧
      Accounts history ⟨"task-1"⟩ record := by
  obtain ⟨history, s, hrun, hcheck⟩ := exists_run memoryIds .empty sampleCalls
    (fun _ s => (s.records.get? ⟨"task-1"⟩).any fun record =>
      record.attemptGeneration = 2 ∧ record.state = .succeeded) (by decide)
  obtain ⟨record, hrecord, hfinal⟩ := (Option.any_eq_true _ _).mp hcheck
  exact ⟨history, s, record, hrun, hrecord, of_decide_eq_true hfinal,
    (stored_records_account hrun).1 _ _ hrecord⟩

end Skiff.Task
