import Skiff.Task.Invariant
import Skiff.Task.Mongo

/-!
# The Mongo writes against the reducer

Each conditional write is compared with the reducer transition it stands for, on
any document that decodes to a well-formed record: the filter should match exactly
when the reducer accepts, and the updated document should decode to the reducer's
next record, with the settlement time taken from the server.

Renewal, cancellation, recovery, release and the due scan agree with the reducer on
every input. Two writes do not. `settle_once` is a pipeline, so an outcome text that
starts with `$` is evaluated and not stored; and `$inc` refuses to carry the
generation past the largest signed 64-bit integer.
-/

namespace Skiff.Task

open Document Mongo TaskState Clause Option Update TaskRecord
open DocumentServer (Documented)

variable {Target : Type}

/-! ## The two sides -/

/-- The conditional writes of the adapter, with the ids a claim was given. -/
inductive ConditionalWrite where
  | claim (input : ClaimInput) (attemptId : AttemptId) (leaseId : LeaseId)
  | renew (input : RenewInput)
  | settle (input : SettleInput)
  | cancel (input : CancelInput)
  | recoverExpiredLease (input : LeaseRecoveryInput)
  | release (input : ReleaseInput)
  | scanDue

variable {next : TaskRecord Target}

namespace ConditionalWrite

/-- The task the write is aimed at; a due scan visits every document. -/
def aimsAt (id : TaskId) : ConditionalWrite → Prop
  | .claim input _ _ => input.taskId = id
  | .renew input => input.taskId = id
  | .settle input => input.taskId = id
  | .cancel input => input.taskId = id
  | .recoverExpiredLease input => input.taskId = id
  | .release input => input.taskId = id
  | .scanDue => True

def onDocument [DocumentServer] (now : DurableUtcTimestamp) (d : Document) :
    ConditionalWrite → WriteResult
  | .claim input attemptId leaseId => claimWrite now input attemptId leaseId d
  | .renew input => renewWrite now input d
  | .settle input => settleWrite now input d
  | .cancel input => cancelWrite now input d
  | .recoverExpiredLease input => recoverWrite now input d
  | .release input => releaseWrite now input d
  | .scanDue => scanDueWrite now d

def settledRecord : SettleTransition Target → Option (TaskRecord Target)
  | .settled next => some next
  | _ => none

/-- The record the reducer moves to, if it accepts. -/
def onRecord (now : DurableUtcTimestamp) (record : TaskRecord Target) :
    ConditionalWrite → Except Panic (Option (TaskRecord Target))
  | .claim input attemptId leaseId => .ok (Task.claim record input now attemptId leaseId).toOption
  | .renew input => (Task.renew record input now).map Except.toOption
  | .settle input => (Task.settle record input now).map settledRecord
  | .cancel _ => .ok (Task.cancel record now).toOption
  | .recoverExpiredLease input =>
    (Task.recoverExpiredLease record now input.retryNotBefore).map Except.toOption
  | .release input => (Task.release record input now).map Except.toOption
  | .scanDue => .ok (advanceDue record now)

/-! Acceptance, read through the conversions of `onRecord`. -/

variable {ε α : Type} {x : Except Panic (Except ε α)}

theorem toOption_eq_some {x : Except ε α} {a : α} : x.toOption = some a ↔ x = .ok a := by
  cases x <;> simp [Except.toOption]

theorem toOption_eq_some_of {outcome : Except ε α}
    (h : x = .ok outcome) {a : α} : outcome.toOption = some a ↔ x = .ok (.ok a) := by
  rw [toOption_eq_some, h, Except.ok.injEq]

theorem map_toOption_eq_ok {a : α} : x.map Except.toOption = .ok (some a) ↔ x = .ok (.ok a) := by
  cases x <;> simp [Except.map, toOption_eq_some]

theorem map_settledRecord_eq_ok {x : Except Panic (SettleTransition Target)} :
    x.map settledRecord = .ok (some next) ↔ x = .ok (.settled next) := by
  cases x with
  | error panic => simp [Except.map]
  | ok transition => cases transition <;> simp [Except.map, settledRecord]

end ConditionalWrite

/-- The record with its settlement time, if any, read from the server clock. -/
def TaskRecord.settledAtServer (record : TaskRecord Target) (now : DurableUtcTimestamp) :
    TaskRecord Target :=
  { record with terminal := record.terminal.map fun terminal => { terminal with settledAt := now } }

/-- The write matches exactly when the reducer accepts, and the document it leaves
decodes to the reducer's record. -/
def Agrees (codec : DocumentCodec Target) (now : DurableUtcTimestamp) (result : WriteResult)
    (accepted : Option (TaskRecord Target)) : Prop :=
  match accepted with
  | none => result = .unmatched
  | some next => ∃ d, result = .updated d ∧
      documentToRecord codec d = .ok (next.settledAtServer now)

/-! ## Reading a decoded document -/

theorem TaskState.asStr_injective : Function.Injective asStr := by
  intro a b h
  cases a <;> cases b <;> first | rfl | simp [asStr] at h

theorem LeaseId.value_injective : Function.Injective LeaseId.value := by
  rintro ⟨a⟩ ⟨b⟩ h
  cases h
  rfl

variable {taskId : TaskId} {value : Option Bson}

section Reading

variable {codec : DocumentCodec Target} {d : Document} {record : TaskRecord Target}
variable {now : DurableUtcTimestamp} {lease : TaskLease}

theorem decodeLease_eq_ok {sub : Document} :
    decodeLease taskId sub = .ok lease ↔
      sub.get? "leaseId" = some (.string lease.leaseId.value) ∧
        sub.get? "attemptId" = some (.string lease.attemptId.value) ∧
        sub.get? "owner" = some (.string lease.owner) ∧
        sub.get? "expiry" = some (.datetime lease.expiry) := by
  simp only [decodeLease, bind_eq_ok, getString_eq_ok, getDatetime_eq_ok]
  constructor
  · rintro ⟨leaseId, hleaseId, attemptId, hattemptId, owner, howner, expiry, hexpiry, hlease⟩
    cases hlease
    exact ⟨hleaseId, hattemptId, howner, hexpiry⟩
  rintro ⟨hleaseId, hattemptId, howner, hexpiry⟩
  exact ⟨_, hleaseId, _, hattemptId, _, howner, _, hexpiry, rfl⟩

theorem decodeOptional_eq_some {α : Type} {decode : Document → Except TaskStoreError α} {a : α} :
    decodeOptional decode value = .ok (some a) ↔
      ∃ sub, value = some (.document sub) ∧ decode sub = .ok a := by
  unfold decodeOptional
  cases hsub : value.bind Bson.asDocument with
  | none =>
    simp only [reduceCtorEq, Except.ok.injEq, false_iff]
    rintro ⟨sub, rfl, -⟩
    cases hsub
  | some sub =>
    obtain ⟨b, rfl, hb⟩ := bind_eq_some_iff.mp hsub
    rw [Bson.asDocument_eq_some] at hb
    subst hb
    cases hdecode : decode sub <;> simp [Except.map, hdecode]

theorem decodeOptional_eq_none {α : Type} {decode : Document → Except TaskStoreError α} :
    decodeOptional decode value = .ok none ↔ value.bind Bson.asDocument = none := by
  unfold decodeOptional
  cases hsub : value.bind Bson.asDocument with
  | none => simp
  | some sub => cases hdecode : decode sub <;> simp [Except.map, hdecode]

theorem DecodesTo.leaseFields (h : DecodesTo codec d record)
    (hlease : record.activeLease = some lease) :
    ∃ sub, d.get? "activeLease" = some (.document sub) ∧
      decodeLease record.taskId sub = .ok lease :=
  decodeOptional_eq_some.mp (hlease ▸ h.activeLease)

/-! The clauses of the filters, as conditions on the decoded record. -/

theorem DecodesTo.idClause (h : DecodesTo codec d record) {id : TaskId}
    (hid : id = record.taskId) : (equals ["_id"] id.value).holds now d = true := by
  simp [holds, atPath, h.taskId, Bson.asStr, hid]

theorem DecodesTo.stateClause (h : DecodesTo codec d record) (now : DurableUtcTimestamp)
    (state : TaskState) :
    (equals ["state"] state.asStr).holds now d = decide (record.state = state) := by
  simp [holds, atPath, h.state, Bson.asStr, asStr_injective.eq_iff]

theorem DecodesTo.leasedClause (h : DecodesTo codec d record) :
    (equals ["state"] "leased").holds now d = decide (record.state = .leased) :=
  h.stateClause now .leased

theorem DecodesTo.dueClause (h : DecodesTo codec d record) :
    dueNow.holds now d = decide (record.dueAt ≤ now) := by
  simp [dueNow, holds, Operand.value, atPath, h.dueAt, Comparison.holds, ← decide_not]

theorem dateClause (millis : Int) :
    (expr .gt (.date millis) .now).holds now d = decide (now < millis) := by
  simp [holds, Operand.value, Comparison.holds]

section

variable (h : DecodesTo codec d record) (hlease : record.activeLease = some lease)
include h hlease

theorem DecodesTo.leaseIdClause (leaseId : LeaseId) :
    (equals ["activeLease", "leaseId"] leaseId.value).holds now d =
      decide (lease.leaseId = leaseId) := by
  obtain ⟨sub, hsub, hdecode⟩ := h.leaseFields hlease
  obtain ⟨hleaseId, -⟩ := decodeLease_eq_ok.mp hdecode
  simp [holds, atPath, hsub, hleaseId, Bson.asStr, LeaseId.value_injective.eq_iff]

theorem DecodesTo.leaseExpiry :
    Bson.temporal (d.atPath ["activeLease", "expiry"]) = some lease.expiry := by
  obtain ⟨sub, hsub, hdecode⟩ := h.leaseFields hlease
  obtain ⟨-, -, -, hexpiry⟩ := decodeLease_eq_ok.mp hdecode
  simp [atPath, hsub, hexpiry]

theorem DecodesTo.unexpiredClause : leaseUnexpired.holds now d = decide (now < lease.expiry) := by
  simp [leaseUnexpired, holds, Operand.value, Comparison.holds, h.leaseExpiry hlease]

theorem DecodesTo.expiredClause :
    (expr .lte (.field ["activeLease", "expiry"]) .now).holds now d =
      decide (lease.expiry ≤ now) := by
  simp [holds, Operand.value, Comparison.holds, h.leaseExpiry hlease, ← decide_not]

end

/-- The fields that conditional writes may touch. -/
def mutableFields : List String :=
  ["state", "attemptGeneration", "activeLease", "terminal", "retryNotBefore"]

/-- A document that differs only in mutable fields still decodes, to the record with
these fields changed. -/
theorem DecodesTo.update (h : DecodesTo codec d record) {d' : Document}
    (hframe : ∀ key, key ∉ mutableFields → d'.get? key = d.get? key)
    (hsame : next.SameSubmission record)
    (hstate : d'.get? "state" = some (.string next.state.asStr))
    (hgeneration : ∃ value, d'.get? "attemptGeneration" = some (.int64 value) ∧
      value.toNat = next.attemptGeneration)
    (hlease : decodeOptional (decodeLease record.taskId) (d'.get? "activeLease") =
      .ok next.activeLease)
    (hterminal : decodeOptional (decodeTerminal record.taskId) (d'.get? "terminal") =
      .ok next.terminal)
    (hretry : (d'.get? "retryNotBefore").bind Bson.asDatetime = next.retryNotBefore) :
    documentToRecord codec d' = .ok next := by
  apply documentToRecord_eq_ok.mpr
  constructor
  · rw [hframe "_id" (by decide), hsame.taskId]
    exact h.taskId
  · rw [hframe "owner" (by decide), hsame.owner]
    exact h.owner
  · rw [hframe "execution" (by decide), hsame.execution]
    exact h.execution
  · rw [hframe "target" (by decide), hsame.target, hsame.taskId]
    exact h.target
  · rw [hframe "payload" (by decide), hsame.payload]
    exact h.payload
  · rw [hframe "dueAt" (by decide), hsame.dueAt]
    exact h.dueAt
  · exact hstate
  · exact hgeneration
  · rw [hsame.taskId]
    exact hlease
  · rw [hsame.taskId]
    exact hterminal
  · rw [hframe "trace" (by decide), hsame.trace]
    exact h.trace
  · rw [hframe "createdAt" (by decide), hsame.createdAt]
    exact h.createdAt
  · exact hretry
  rw [hframe "testCase" (by decide), hsame.testCase, hsame.taskId]
  exact h.testCase

end Reading

/-! ## The writes that always agree -/

section Writes

variable {codec : DocumentCodec Target} {d d' : Document} {record : TaskRecord Target}
variable {now : DurableUtcTimestamp} {filter : List Clause} {update : Update}

/-- A write agrees when its filter matches exactly on acceptance and its update
produces the accepted record. -/
theorem agrees_of [DocumentServer] [Documented] {accepted : Option (TaskRecord Target)}
    (hfilter : filter.all (holds now d) = true ↔ ∃ next, accepted = some next)
    (hupdate : ∀ next, accepted = some next → ∃ d', update.apply now d = some d' ∧
      documentToRecord codec d' = .ok (next.settledAtServer now)) :
    Agrees codec now (findOneAndUpdate now filter update d) accepted := by
  cases haccepted : accepted with
  | none =>
    have hnomatch : filter.all (holds now d) ≠ true := by
      rw [ne_eq, hfilter, haccepted]
      simp
    simp [Agrees, findOneAndUpdate_eq, hnomatch]
  | some next =>
    have hmatch := hfilter.mpr ⟨next, haccepted⟩
    obtain ⟨d', hd', hdecodes⟩ := hupdate next haccepted
    exact ⟨d', by simp [findOneAndUpdate_eq, hmatch, hd'], hdecodes⟩

theorem TaskRecord.settledAtServer_of_none (h : record.terminal = none) :
    record.settledAtServer now = record := by
  cases record
  cases h
  rfl

/-- An untouched field of an updated document. -/
theorem ne_of_not_mutable {key field : String} (hkey : key ∉ mutableFields)
    (hfield : field ∈ mutableFields) : key ≠ field := by
  rintro rfl
  exact hkey hfield

section

variable (h : DecodesTo codec d record)
include h

/-- The common update of recovery and release: the lease goes, the backoff grows. -/
theorem readyUpdate_decodes (retryNotBefore : DurableUtcTimestamp) :
    ∃ d', (readyUpdate retryNotBefore).apply now d = some d' ∧
      documentToRecord codec d' = .ok { record with
        state := .ready
        activeLease := none
        retryNotBefore := mergeRetryNotBefore record.retryNotBefore retryNotBefore } := by
  have hmax : ((d.set "state" (.string "ready")).get? "retryNotBefore") = d.get? "retryNotBefore" :=
    get?_set_of_ne _ _ (by decide)
  have htemporal : Bson.temporal (d.get? "retryNotBefore") = record.retryNotBefore :=
    h.retryNotBefore
  by_cases hlater : Bson.before (Bson.temporal (d.get? "retryNotBefore")) (some retryNotBefore) =
    true
  · refine ⟨((d.set "state" (.string "ready")).set "retryNotBefore"
      (.datetime retryNotBefore)).erase "activeLease", ?_, ?_⟩
    · simp [readyUpdate, apply, Modifier.apply, setPath, hmax, hlater]
    refine h.update (fun key hkey => ?_) ⟨rfl, rfl, rfl, rfl, rfl, rfl, rfl, rfl, rfl⟩
      (by simp [asStr]) (by simpa using h.attemptGeneration) ?_
      (by simpa using h.terminal) ?_
    · rw [get?_erase_of_ne _ (ne_of_not_mutable hkey (by decide)),
        get?_set_of_ne _ _ (ne_of_not_mutable hkey (by decide)),
        get?_set_of_ne _ _ (ne_of_not_mutable hkey (by decide))]
    · simp [decodeOptional]
    rw [htemporal] at hlater
    cases hcurrent : record.retryNotBefore with
    | none => simp [mergeRetryNotBefore, Bson.asDatetime]
    | some current =>
      have hlt : current < retryNotBefore := by simpa [hcurrent] using hlater
      simp [mergeRetryNotBefore, Bson.asDatetime, not_lt.mpr hlt.le]
  refine ⟨(d.set "state" (.string "ready")).erase "activeLease", ?_, ?_⟩
  · simp [readyUpdate, apply, Modifier.apply, setPath, hmax, hlater]
  refine h.update (fun key hkey => ?_) ⟨rfl, rfl, rfl, rfl, rfl, rfl, rfl, rfl, rfl⟩
    (by simp [asStr]) (by simpa using h.attemptGeneration) ?_
    (by simpa using h.terminal) ?_
  · rw [get?_erase_of_ne _ (ne_of_not_mutable hkey (by decide)),
      get?_set_of_ne _ _ (ne_of_not_mutable hkey (by decide))]
  · simp [decodeOptional]
  rw [htemporal] at hlater
  cases hcurrent : record.retryNotBefore with
  | none => simp [hcurrent] at hlater
  | some current =>
    have hle : retryNotBefore ≤ current := by simpa [hcurrent] using hlater
    have hsame := h.retryNotBefore
    rw [hcurrent] at hsame
    rw [get?_erase_of_ne _ (by decide), hmax, hsame]
    simp only [mergeRetryNotBefore]
    split
    · rfl
    case isFalse hnot => rw [le_antisymm hle (not_lt.mp hnot)]

variable [DocumentServer] [Documented]

theorem scanDueWrite_agrees (hwell : record.WellFormed) :
    Agrees codec now (scanDueWrite now d) (advanceDue record now) := by
  refine agrees_of ?_ (fun next hnext => ?_)
  · have hstate := h.stateClause now .scheduled
    simp only [asStr] at hstate
    simp [hstate, h.dueClause, advanceDue_eq_some]
  obtain ⟨hstate, hdue, rfl⟩ := advanceDue_eq_some.mp hnext
  have hterminal := hwell.terminal_eq_none (by simp [hstate, isTerminal])
  refine ⟨d.set "state" (.string "ready"), rfl, ?_⟩
  rw [settledAtServer_of_none (by exact hterminal)]
  refine h.update (fun key hkey => ?_) ⟨rfl, rfl, rfl, rfl, rfl, rfl, rfl, rfl, rfl⟩
    (by simp [asStr]) (by simpa using h.attemptGeneration)
    (by simpa using h.activeLease) (by simpa using h.terminal) (by simpa using h.retryNotBefore)
  exact get?_set_of_ne _ _ (ne_of_not_mutable hkey (by decide))

/-- Renewal rewrites the expiry inside the stored lease. -/
theorem renewWrite_agrees (hwell : record.WellFormed)
    {input : RenewInput} (hid : input.taskId = record.taskId)
    {outcome : Except RenewRejection (TaskRecord Target)}
    (houtcome : renew record input now = .ok outcome) :
    Agrees codec now (renewWrite now input d) outcome.toOption := by
  have haccepted : ∀ next, outcome.toOption = some next ↔ renew record input now = .ok (.ok next) :=
    fun _ => ConditionalWrite.toOption_eq_some_of houtcome
  refine agrees_of ?_ (fun next hnext => ?_)
  · simp only [haccepted, renew_eq_ok]
    by_cases hstate : record.state = .leased
    · obtain ⟨lease, hlease⟩ := hwell.lease_of_leased hstate
      simp [h.idClause hid, h.leasedClause, hstate, h.leaseIdClause hlease,
        h.unexpiredClause hlease, dateClause, hlease]
    · simp [h.leasedClause, hstate]
  obtain ⟨lease, hstate, hlease, hleaseId, hexpiry, hnew, rfl⟩ :=
    renew_eq_ok.mp ((haccepted next).mp hnext)
  have hterminal := hwell.terminal_eq_none (by simp [hstate, isTerminal])
  obtain ⟨sub, hsub, hdecode⟩ := h.leaseFields hlease
  obtain ⟨hid', hattempt, howner, -⟩ := decodeLease_eq_ok.mp hdecode
  refine ⟨d.set "activeLease"
    (.document (Document.set sub "expiry" (.datetime input.newExpiry))), ?_, ?_⟩
  · simp [apply, Modifier.apply, setPath, hsub]
  rw [settledAtServer_of_none (by exact hterminal)]
  refine h.update (fun key hkey => ?_) ⟨rfl, rfl, rfl, rfl, rfl, rfl, rfl, rfl, rfl⟩
    (by simpa using h.state) (by simpa using h.attemptGeneration) ?_
    (by simpa using h.terminal) (by simpa using h.retryNotBefore)
  · exact get?_set_of_ne _ _ (ne_of_not_mutable hkey (by decide))
  rw [get?_set_self]
  refine decodeOptional_eq_some.mpr ⟨_, rfl, decodeLease_eq_ok.mpr ?_⟩
  simp [hid', hattempt, howner]

theorem recoverWrite_agrees (hwell : record.WellFormed)
    {input : LeaseRecoveryInput} (hid : input.taskId = record.taskId)
    {outcome : Except RecoveryRejection (TaskRecord Target)}
    (houtcome : recoverExpiredLease record now input.retryNotBefore = .ok outcome) :
    Agrees codec now (recoverWrite now input d) outcome.toOption := by
  have haccepted : ∀ next, outcome.toOption = some next ↔
      recoverExpiredLease record now input.retryNotBefore = .ok (.ok next) :=
    fun _ => ConditionalWrite.toOption_eq_some_of houtcome
  refine agrees_of ?_ (fun next hnext => ?_)
  · simp only [haccepted, recoverExpiredLease_eq_ok]
    by_cases hstate : record.state = .leased
    · obtain ⟨lease, hlease⟩ := hwell.lease_of_leased hstate
      simp [h.idClause hid, h.leasedClause, hstate, h.expiredClause hlease, hlease]
    · simp [h.leasedClause, hstate]
  obtain ⟨lease, hstate, -, -, rfl⟩ := recoverExpiredLease_eq_ok.mp ((haccepted next).mp hnext)
  have hterminal := hwell.terminal_eq_none (by simp [hstate, isTerminal])
  rw [settledAtServer_of_none (by exact hterminal)]
  exact readyUpdate_decodes h input.retryNotBefore

theorem releaseWrite_agrees (hwell : record.WellFormed)
    {input : ReleaseInput} (hid : input.taskId = record.taskId)
    {outcome : Except ReleaseRejection (TaskRecord Target)}
    (houtcome : release record input now = .ok outcome) :
    Agrees codec now (releaseWrite now input d) outcome.toOption := by
  have haccepted : ∀ next, outcome.toOption = some next ↔
      release record input now = .ok (.ok next) :=
    fun _ => ConditionalWrite.toOption_eq_some_of houtcome
  refine agrees_of ?_ (fun next hnext => ?_)
  · simp only [haccepted, release_eq_ok]
    by_cases hstate : record.state = .leased
    · obtain ⟨lease, hlease⟩ := hwell.lease_of_leased hstate
      simp [h.idClause hid, h.leasedClause, hstate, h.leaseIdClause hlease,
        h.unexpiredClause hlease, hlease]
    · simp [h.leasedClause, hstate]
  obtain ⟨lease, hstate, -, -, -, rfl⟩ := release_eq_ok.mp ((haccepted next).mp hnext)
  have hterminal := hwell.terminal_eq_none (by simp [hstate, isTerminal])
  rw [settledAtServer_of_none (by exact hterminal)]
  exact readyUpdate_decodes h input.retryNotBefore

end

/-! ## Terminal documents -/

/-- The `terminal` field a pipeline leaves: the kind, and the outcome's own field. -/
def terminalValue (now : DurableUtcTimestamp) (kind : String) (extra : Document) : Bson :=
  .document [("outcome", .document (("kind", .string kind) :: extra)), ("settledAt", .datetime now)]

theorem decodeTerminal_eq_ok {kind : String} {extra : Document} {terminal : TaskTerminal} :
    decodeOptional (decodeTerminal taskId) (some (terminalValue now kind extra)) =
      .ok (some terminal) ↔
    decodeOutcome taskId (("kind", .string kind) :: extra) = .ok terminal.outcome ∧
      terminal.settledAt = now := by
  rw [decodeOptional_eq_some]
  simp only [terminalValue, some.injEq, Bson.document.injEq, exists_eq_left', decodeTerminal,
    bind_eq_ok, getDocument_eq_ok, getDatetime_eq_ok, Document.get?, if_true,
    (by decide : ("outcome" : String) ≠ "settledAt"), if_false, Bson.datetime.injEq]
  constructor
  · rintro ⟨outcome, houtcome, hterminal⟩
    cases hterminal
    exact ⟨houtcome, rfl⟩
  rintro ⟨houtcome, htime⟩
  refine ⟨terminal.outcome, houtcome, ?_⟩
  rw [← htime]
  rfl

/-- The document after a pipeline that finishes the task. -/
def finished (d : Document) (state : TaskState) (terminal : Bson) : Document :=
  (d.set "state" (.string state.asStr)).set "terminal" terminal

/-- Any such document, with or without its lease, decodes to the finished record
exactly when its `terminal` does. -/
theorem finished_decodes_iff (h : DecodesTo codec d record) {state : TaskState}
    {value : Bson} {terminal : TaskTerminal}
    (hframe : ∀ key, key ≠ "activeLease" → d'.get? key = (finished d state value).get? key)
    (hlease : (d'.get? "activeLease").bind Bson.asDocument = none) :
    documentToRecord codec d' = .ok { record with
        state := state
        activeLease := none
        terminal := some terminal } ↔
      decodeOptional (decodeTerminal record.taskId) (some value) = .ok (some terminal) := by
  have hterminal : d'.get? "terminal" = some value := by
    rw [hframe _ (by decide)]
    simp [finished]
  constructor
  · intro hdecodes
    have := (documentToRecord_eq_ok.mp hdecodes).terminal
    rwa [hterminal] at this
  intro hvalue
  refine h.update (fun key hkey => ?_) ⟨rfl, rfl, rfl, rfl, rfl, rfl, rfl, rfl, rfl⟩ ?_ ?_ ?_ ?_ ?_
  · rw [hframe _ (ne_of_not_mutable hkey (by decide)), finished,
      get?_set_of_ne _ _ (ne_of_not_mutable hkey (by decide)),
      get?_set_of_ne _ _ (ne_of_not_mutable hkey (by decide))]
  · rw [hframe _ (by decide)]
    simp [finished]
  · rw [hframe _ (by decide)]
    simpa [finished] using h.attemptGeneration
  · exact decodeOptional_eq_none.mpr hlease
  · rw [hterminal]
    exact hvalue
  rw [hframe _ (by decide)]
  simpa [finished] using h.retryNotBefore

theorem asStr_plain (state : TaskState) : state.asStr.toList.head? ≠ some '$' := by
  cases state <;> decide

/-- A pipeline that finishes with an outcome that has no text. -/
theorem compute_plain (hterminal : (d.get? "terminal").bind Bson.asDocument = none)
    (now : DurableUtcTimestamp) (state : TaskState) (kind : String)
    (hkind : kind.toList.head? ≠ some '$') :
    Stage.apply now d (.set [(["state"], state.asStr), (["terminal", "outcome", "kind"], kind),
      (["terminal", "settledAt"], "$$NOW")]) =
      some (finished d state (terminalValue now kind [])) := by
  have hfresh : ((d.set "state" (.string state.asStr)).get? "terminal").bind Bson.asDocument =
      none := by simpa using hterminal
  simp only [Stage.apply, Stage.compute, evalText_plain d now (asStr_plain state),
    evalText_plain d now hkind, evalText_now]
  rw [Document.putPath, putPath_of_not_document _ hfresh,
    putPath_of_document _ (get?_set_self ..), set_set]
  rfl

/-- The same for an outcome with a text under `key`: the text is evaluated. -/
theorem compute_text (hterminal : (d.get? "terminal").bind Bson.asDocument = none)
    (now : DurableUtcTimestamp) (state : TaskState) (kind key text : String)
    (hkind : kind.toList.head? ≠ some '$') (hkey : key ≠ "kind") :
    Stage.apply now d (.set [(["state"], state.asStr), (["terminal", "outcome", "kind"], kind),
      (["terminal", "outcome", key], text), (["terminal", "settledAt"], "$$NOW")]) =
      (evalText d now text).map fun value =>
        finished d state (terminalValue now kind (value.toList.map fun b => (key, b))) := by
  have hfresh : ((d.set "state" (.string state.asStr)).get? "terminal").bind Bson.asDocument =
      none := by simpa using hterminal
  simp only [Stage.apply, Stage.compute, evalText_plain d now (asStr_plain state),
    evalText_plain d now hkind, evalText_now]
  cases evalText d now text with
  | none => rfl
  | some value =>
    simp only [map_some]
    rw [Document.putPath, putPath_of_not_document _ hfresh,
      putPath_of_document _ (get?_set_self ..), set_set,
      putPath_of_document _ (get?_set_self ..), set_set]
    cases value with
    | none => simp [Document.putPath, Document.get?, Document.set, Document.erase, finished,
        terminalValue, Ne.symm hkey]
    | some b => simp [Document.putPath, Document.get?, Document.set, finished, terminalValue,
        Ne.symm hkey]

theorem DecodesTo.terminal_not_document (h : DecodesTo codec d record)
    (hterminal : record.terminal = none) : (d.get? "terminal").bind Bson.asDocument = none :=
  decodeOptional_eq_none.mp (hterminal ▸ h.terminal)

/-- Cancellation leaves the lease field alone; it holds no lease in these states. -/
theorem cancelWrite_agrees [DocumentServer] [Documented] (h : DecodesTo codec d record)
    (hwell : record.WellFormed) {input : CancelInput} (hid : input.taskId = record.taskId) :
    Agrees codec now (cancelWrite now input d) (cancel record now).toOption := by
  have haccepted : ∀ next, (cancel record now).toOption = some next ↔
      cancel record now = .ok next := fun _ => ConditionalWrite.toOption_eq_some
  refine agrees_of ?_ (fun next hnext => ?_)
  · have hstates : (isIn ["state"] ["scheduled", "ready"]).holds now d =
        decide (record.state = .scheduled ∨ record.state = .ready) := by
      simp only [holds, atPath, h.state, bind_some, Bson.asStr, any_some]
      cases record.state <;> decide
    simp only [haccepted, cancel_eq_ok, List.all_cons, List.all_nil, Bool.and_true,
      h.idClause hid, hstates, Bool.true_and, decide_eq_true_eq, exists_and_left, exists_eq,
      and_true]
  obtain ⟨hstate, rfl⟩ := cancel_eq_ok.mp ((haccepted next).mp hnext)
  have hopen : record.state ≠ .leased ∧ record.state.isTerminal = false := by
    rcases hstate with hstate | hstate <;> simp [hstate, isTerminal]
  have hnone := hwell.activeLease_eq_none hopen.1
  have hfresh := h.terminal_not_document (hwell.terminal_eq_none hopen.2)
  refine ⟨finished d .canceled (terminalValue now "canceled" []), ?_, ?_⟩
  · rw [apply_pipeline_cons]
    exact congrArg (bind · _) (compute_plain hfresh now .canceled "canceled" (by decide))
  refine (finished_decodes_iff h (fun key _ => rfl) ?_).mpr (decodeTerminal_eq_ok.mpr ⟨rfl, rfl⟩)
  have hlease := decodeOptional_eq_none.mp (hnone ▸ h.activeLease)
  simpa [finished] using hlease

/-! ## The two writes that can differ -/

/-- The text an outcome carries. -/
def TaskOutcome.text : TaskOutcome → Option String
  | .targetFailed error => some error
  | .platformFailed reason => some reason
  | _ => none

/-- A text that a pipeline stores as it is: it does not start with `$`, or it is an
expression that evaluates, on this document, to that same text. -/
def StoredVerbatim (d : Document) (now : DurableUtcTimestamp) (text : String) : Prop :=
  text.toList.head? ≠ some '$' ∨ evalText d now text = some (some (.string text))

theorem storedVerbatim_iff {text : String} :
    StoredVerbatim d now text ↔ evalText d now text = some (some (.string text)) := by
  constructor
  · rintro (hplain | heval)
    · exact evalText_plain d now hplain
    · exact heval
  · exact .inr

theorem agrees_some_iff [DocumentServer] [Documented] (hmatch : filter.all (holds now d) = true) :
    Agrees codec now (findOneAndUpdate now filter update d) (some next) ↔
      ∃ d', update.apply now d = some d' ∧
        documentToRecord codec d' = .ok (next.settledAtServer now) := by
  simp only [Agrees, findOneAndUpdate_eq, hmatch, if_true]
  cases update.apply now d <;> simp

/-- The outcome document decodes to the text's outcome exactly when the evaluated
field is that text. -/
theorem decodeOutcome_text_iff {text : String} :
    (decodeOutcome taskId (("kind", .string "targetFailed") ::
        value.toList.map fun b => ("error", b)) = .ok (.targetFailed text) ↔
      value = some (.string text)) ∧
    (decodeOutcome taskId (("kind", .string "platformFailed") ::
        value.toList.map fun b => ("reason", b)) = .ok (.platformFailed text) ↔
      value = some (.string text)) := by
  constructor <;> cases value <;>
    simp [decodeOutcome, bind_eq_ok, getString_eq_ok, Document.get?, pure, Except.pure]

/-- A settlement the reducer accepts agrees exactly when its text is stored as it is. -/
theorem settle_decodes_iff (h : DecodesTo codec d record) (hterminal : record.terminal = none)
    (terminal : TaskTerminal) :
    (∃ d', (pipeline [.set ((["state"], terminal.state.asStr) ::
        terminalPaths terminal.outcome), .unset "activeLease"]).apply now d = some d' ∧
      documentToRecord codec d' = .ok { record with
        state := terminal.state
        activeLease := none
        terminal := some ⟨now, terminal.outcome⟩ }) ↔
    ∀ text, terminal.outcome.text = some text → StoredVerbatim d now text := by
  have hfresh := h.terminal_not_document hterminal
  obtain ⟨settledAt, outcome⟩ := terminal
  have herased : ∀ value : Bson,
      documentToRecord codec ((finished d outcome.terminalState value).erase "activeLease") =
        .ok { record with
          state := outcome.terminalState
          activeLease := none
          terminal := some ⟨now, outcome⟩ } ↔
      decodeOptional (decodeTerminal record.taskId) (some value) = .ok (some ⟨now, outcome⟩) :=
    fun value => finished_decodes_iff h (fun key hkey => get?_erase_of_ne _ hkey)
      (by rw [get?_erase_self]; rfl)
  have hpipeline : ∀ {computed : List (List String × String)} {value : Option Document},
      Stage.apply now d (.set computed) = value →
        (pipeline [.set computed, .unset "activeLease"]).apply now d =
          value.map (·.erase "activeLease") := by
    rintro computed value rfl
    rw [apply_pipeline_cons]
    cases Stage.apply now d (.set computed) <;> rfl
  cases outcome with
  | succeeded =>
    have happly := hpipeline (compute_plain hfresh now .succeeded "succeeded" (by decide))
    exact iff_of_true ⟨_, happly, (herased _).mpr (decodeTerminal_eq_ok.mpr ⟨rfl, rfl⟩)⟩ nofun
  | canceled =>
    have happly := hpipeline (compute_plain hfresh now .canceled "canceled" (by decide))
    exact iff_of_true ⟨_, happly, (herased _).mpr (decodeTerminal_eq_ok.mpr ⟨rfl, rfl⟩)⟩ nofun
  | targetFailed error =>
    have happly := hpipeline (compute_text hfresh now .failed "targetFailed" "error" error
      (by decide) (by decide))
    simp only [TaskOutcome.text, some.injEq, forall_eq', storedVerbatim_iff]
    constructor
    · rintro ⟨d', hd', hdecodes⟩
      have hresult := happly.symm.trans hd'
      cases heval : evalText d now error with
      | none => simp [heval] at hresult
      | some value =>
        rw [heval] at hresult
        cases hresult
        rw [decodeOutcome_text_iff.1.mp (decodeTerminal_eq_ok.mp ((herased _).mp hdecodes)).1]
    intro heval
    refine ⟨_, happly.trans (by rw [heval]; rfl), (herased _).mpr ?_⟩
    exact decodeTerminal_eq_ok.mpr ⟨decodeOutcome_text_iff.1.mpr rfl, rfl⟩
  | platformFailed reason =>
    have happly := hpipeline (compute_text hfresh now .platformFailed "platformFailed" "reason"
      reason (by decide) (by decide))
    simp only [TaskOutcome.text, some.injEq, forall_eq', storedVerbatim_iff]
    constructor
    · rintro ⟨d', hd', hdecodes⟩
      have hresult := happly.symm.trans hd'
      cases heval : evalText d now reason with
      | none => simp [heval] at hresult
      | some value =>
        rw [heval] at hresult
        cases hresult
        rw [decodeOutcome_text_iff.2.mp (decodeTerminal_eq_ok.mp ((herased _).mp hdecodes)).1]
    intro heval
    refine ⟨_, happly.trans (by rw [heval]; rfl), (herased _).mpr ?_⟩
    exact decodeTerminal_eq_ok.mpr ⟨decodeOutcome_text_iff.2.mpr rfl, rfl⟩

theorem settleWrite_agrees_iff [DocumentServer] [Documented] (h : DecodesTo codec d record)
    (hwell : record.WellFormed) {input : SettleInput} (hid : input.taskId = record.taskId)
    {transition : SettleTransition Target}
    (htransition : settle record input now = .ok transition) :
    Agrees codec now (settleWrite now input d) (ConditionalWrite.settledRecord transition) ↔
      ((∃ next, transition = .settled next) →
        ∀ text, input.terminal.outcome.text = some text → StoredVerbatim d now text) := by
  have haccepted : ∀ next, ConditionalWrite.settledRecord transition = some next ↔
      settle record input now = .ok (.settled next) := by
    intro next
    rw [htransition]
    cases transition <;> simp [ConditionalWrite.settledRecord]
  have hfilter : [equals ["_id"] input.taskId.value, .equals ["state"] "leased",
      .equals ["activeLease", "leaseId"] input.leaseId.value, leaseUnexpired].all
        (holds now d) = true ↔
      ∃ next, ConditionalWrite.settledRecord transition = some next := by
    simp only [haccepted, settle_eq_settled]
    by_cases hstate : record.state = .leased
    · obtain ⟨lease, hlease⟩ := hwell.lease_of_leased hstate
      have hterminal := hwell.terminal_eq_none (by simp [hstate, isTerminal])
      simp [h.idClause hid, h.leasedClause, hstate, h.leaseIdClause hlease,
        h.unexpiredClause hlease, hlease, hterminal]
    · simp [h.leasedClause, hstate]
  cases hresult : ConditionalWrite.settledRecord transition with
  | none =>
    refine iff_of_true ?_ ?_
    · have hnomatch : ¬ ∃ next, ConditionalWrite.settledRecord transition = some next := by
        simp [hresult]
      simp [Agrees, settleWrite, findOneAndUpdate_eq, mt hfilter.mp hnomatch]
    rintro ⟨next, rfl⟩
    cases hresult
  | some next =>
    have hmatch := hfilter.mpr ⟨next, hresult⟩
    obtain ⟨lease, hstate, -, -, -, hterminal, rfl⟩ :=
      settle_eq_settled.mp ((haccepted next).mp hresult)
    have hsettled : ∃ next, transition = .settled next := by
      cases transition with
      | settled next => exact ⟨next, rfl⟩
      | _ => cases hresult
    rw [settleWrite, agrees_some_iff hmatch]
    exact (settle_decodes_iff h hterminal input.terminal).trans
      ⟨fun hverbatim _ => hverbatim, fun hverbatim => hverbatim hsettled⟩

/-- The generation is one that both counters can step from: the signed one of the
document and the unsigned one of the record. -/
def CounterSteps (record : TaskRecord Target) : Prop :=
  record.attemptGeneration ≠ 2 ^ 63 - 1 ∧ record.attemptGeneration ≠ 2 ^ 64 - 1

/-- Adding one to the stored counter, when `$inc` accepts it. -/
theorem counterSteps_iff {value : BitVec 64} (hvalue : value.toNat = record.attemptGeneration) :
    CounterSteps record ↔ value ≠ BitVec.intMax 64 ∧
      (value + 1).toNat = record.attemptGeneration + 1 := by
  have hmax : (BitVec.intMax 64).toNat = 2 ^ 63 - 1 := by decide
  have hlimit := value.isLt
  rw [CounterSteps, ← hvalue, ne_eq value, ← BitVec.toNat_inj, hmax, BitVec.toNat_add]
  change _ ↔ _ ∧ (value.toNat + 1) % 2 ^ 64 = value.toNat + 1
  omega

/-- The claim's update decodes to the claimed record exactly when the counters step. -/
theorem claim_decodes_iff (h : DecodesTo codec d record) (hterminal : record.terminal = none)
    (lease : TaskLease) :
    (∃ d', (claimUpdate lease).apply now d = some d' ∧
      documentToRecord codec d' = .ok { record with
        state := .leased
        attemptGeneration := record.attemptGeneration + 1
        activeLease := some lease
        terminal := none }) ↔ CounterSteps record := by
  obtain ⟨value, hget, hvalue⟩ := h.attemptGeneration
  rw [counterSteps_iff hvalue]
  have happly : (claimUpdate lease).apply now d =
      if value = BitVec.intMax 64 then none
      else some (((d.set "state" (.string "leased")).set "activeLease"
        (.document (leaseDocument lease))).set "attemptGeneration" (.int64 (value + 1))) := by
    have hcounter : ((d.set "state" (.string "leased")).set "activeLease"
        (.document (leaseDocument lease))).get? "attemptGeneration" =
          some (.int64 value) := by simpa using hget
    rw [← Modifier.apply_inc hcounter]
    simp only [claimUpdate, apply, List.foldlM_cons, List.foldlM_nil, bind_pure]
    rfl
  rw [happly]
  by_cases hmax : value = BitVec.intMax 64
  · simp [hmax]
  simp only [hmax, if_false, some.injEq, ne_eq, not_false_eq_true, true_and, exists_eq_left']
  constructor
  · intro hdecodes
    obtain ⟨stored, hstored, hnat⟩ := (documentToRecord_eq_ok.mp hdecodes).attemptGeneration
    rw [get?_set_self] at hstored
    cases hstored
    exact hnat
  intro hstep
  refine h.update (fun key hkey => ?_) ⟨rfl, rfl, rfl, rfl, rfl, rfl, rfl, rfl, rfl⟩
    (by simp [asStr]) ⟨value + 1, by simp, hstep⟩ ?_ ?_ (by simpa using h.retryNotBefore)
  · rw [get?_set_of_ne _ _ (ne_of_not_mutable hkey (by decide)),
      get?_set_of_ne _ _ (ne_of_not_mutable hkey (by decide)),
      get?_set_of_ne _ _ (ne_of_not_mutable hkey (by decide))]
  · refine decodeOptional_eq_some.mpr ⟨leaseDocument lease, by simp, ?_⟩
    exact decodeLease_eq_ok.mpr ⟨rfl, rfl, rfl, rfl⟩
  · simpa [hterminal] using h.terminal

theorem claimWrite_agrees_iff [DocumentServer] [Documented] (h : DecodesTo codec d record)
    (hwell : record.WellFormed) {input : ClaimInput} (hid : input.taskId = record.taskId)
    {attemptId : AttemptId} {leaseId : LeaseId} :
    Agrees codec now (claimWrite now input attemptId leaseId d)
        (claim record input now attemptId leaseId).toOption ↔
      ((∃ next, claim record input now attemptId leaseId = .ok next) → CounterSteps record) := by
  have haccepted : ∀ next, (claim record input now attemptId leaseId).toOption = some next ↔
      claim record input now attemptId leaseId = .ok next :=
        fun _ => ConditionalWrite.toOption_eq_some
  have hfilter : input.imageActivatable = true ∧
      (claimFilter input).all (holds now d) = true ↔
      ∃ next, claim record input now attemptId leaseId = .ok next := by
    have hstateClause := h.stateClause now .ready
    simp only [asStr] at hstateClause
    simp only [claim_eq_ok, claimFilter, List.all_cons, List.all_nil, h.idClause hid,
      hstateClause, h.dueClause, dateClause]
    simp only [Bool.true_and, Bool.and_true, Bool.and_eq_true, decide_eq_true_eq, exists_and_left,
      exists_eq, and_true]
    tauto
  by_cases hok : ∃ next, claim record input now attemptId leaseId = .ok next
  · obtain ⟨hactivatable, hmatch⟩ := hfilter.mpr hok
    obtain ⟨next, hnext⟩ := hok
    obtain ⟨hstate, -, -, -, rfl⟩ := claim_eq_ok.mp hnext
    rw [(haccepted _).mpr hnext, claimWrite, hactivatable]
    simp only [Bool.not_true, Bool.false_eq_true, if_false]
    rw [agrees_some_iff hmatch, forall_prop_of_true ⟨_, hnext⟩]
    have hterminal := hwell.terminal_eq_none (by simp [hstate, isTerminal])
    exact claim_decodes_iff h hterminal ⟨leaseId, attemptId, input.owner, input.leaseExpiry⟩
  refine iff_of_true ?_ (fun haccept => absurd haccept hok)
  have hnone : (claim record input now attemptId leaseId).toOption = none := by
    cases hclaim : claim record input now attemptId leaseId with
    | error rejection => rfl
    | ok next => exact absurd ⟨next, hclaim⟩ hok
  rw [hnone, claimWrite]
  split
  · rfl
  case isFalse hactivatable =>
    have hnomatch : ¬ (claimFilter input).all (holds now d) = true :=
      fun hmatch => hok (hfilter.mp ⟨by simpa using hactivatable, hmatch⟩)
    rw [Agrees, findOneAndUpdate_eq, if_neg hnomatch]

end Writes

end Skiff.Task
