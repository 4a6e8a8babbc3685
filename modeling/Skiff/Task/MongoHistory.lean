import Skiff.Task.MongoRefinement

/-!
# Histories of Mongo writes

The comparisons of single writes put together: when any write of the adapter agrees
with the reducer, and that the two stores stay together along a history of such
writes. At the end, a stored document, and a settlement whose text is lost.
-/

namespace Skiff.Task

open ConditionalWrite TaskState TaskRecord Except
open DocumentServer (Documented)

variable {Target : Type}

/-! ## All writes together -/

namespace ConditionalWrite

variable {codec : DocumentCodec Target} {d : Document} {record next : TaskRecord Target}
variable {now : DurableUtcTimestamp} {write : ConditionalWrite}

/-- When a write does what the reducer does. Only two kinds of write are limited: a
claim of a task that can be claimed needs a counter that steps, and a settlement
under the current lease needs a text that the pipeline stores as it is. -/
def Faithful (now : DurableUtcTimestamp) (d : Document) (record : TaskRecord Target) :
    ConditionalWrite → Prop
  | .claim input _ _ =>
    record.state = .ready ∧ record.dueAt ≤ now ∧ input.imageActivatable = true ∧
      now < input.leaseExpiry → CounterSteps record
  | .settle input =>
    ∀ lease, record.state = .leased → record.activeLease = some lease →
      lease.leaseId = input.leaseId → now < lease.expiry →
      ∀ text, input.terminal.outcome.text = some text → StoredVerbatim d now text
  | _ => True

/-- The reducer does not panic, and the write agrees with it exactly when it is
faithful. -/
theorem agrees_iff [DocumentServer] [Documented] (h : DecodesTo codec d record)
    (hwell : record.WellFormed) (now : DurableUtcTimestamp) (haims : write.aimsAt record.taskId) :
    ∃ accepted, write.onRecord now record = .ok accepted ∧
      (Agrees codec now (write.onDocument now d) accepted ↔ write.Faithful now d record) := by
  cases write with
  | claim input attemptId leaseId =>
    refine ⟨_, rfl, (claimWrite_agrees_iff h hwell haims).trans ?_⟩
    simp only [claim_eq_ok, Faithful, exists_and_left, exists_eq, and_true]
  | renew input =>
    obtain ⟨outcome, houtcome⟩ := hwell.renew_ok input now
    refine ⟨outcome.toOption, by rw [onRecord, houtcome]; rfl, ?_⟩
    exact iff_of_true (renewWrite_agrees h hwell haims houtcome) trivial
  | settle input =>
    obtain ⟨transition, htransition⟩ := hwell.settle_ok input now
    refine ⟨settledRecord transition, by rw [onRecord, htransition]; rfl, ?_⟩
    refine (settleWrite_agrees_iff h hwell haims htransition).trans ?_
    have haccepted : (∃ next, transition = .settled next) ↔
        ∃ next, Task.settle record input now = .ok (.settled next) := by
      simp only [htransition, ok.injEq]
    rw [haccepted]
    simp only [settle_eq_settled]
    constructor
    · intro hverbatim lease hstate hlease hleaseId hexpiry
      have hterminal := hwell.terminal_eq_none (by simp [hstate, isTerminal])
      exact hverbatim ⟨_, lease, hstate, hlease, hleaseId, hexpiry, hterminal, rfl⟩
    rintro hfaithful ⟨next, lease, hstate, hlease, hleaseId, hexpiry, -, -⟩
    exact hfaithful lease hstate hlease hleaseId hexpiry
  | cancel input => exact ⟨_, rfl, iff_of_true (cancelWrite_agrees h hwell haims) trivial⟩
  | recoverExpiredLease input =>
    obtain ⟨outcome, houtcome⟩ := hwell.recoverExpiredLease_ok now input.retryNotBefore
    refine ⟨outcome.toOption, by rw [onRecord, houtcome]; rfl, ?_⟩
    exact iff_of_true (recoverWrite_agrees h hwell haims houtcome) trivial
  | release input =>
    obtain ⟨outcome, houtcome⟩ := hwell.release_ok input now
    refine ⟨outcome.toOption, by rw [onRecord, houtcome]; rfl, ?_⟩
    exact iff_of_true (releaseWrite_agrees h hwell haims houtcome) trivial
  | scanDue => exact ⟨_, rfl, iff_of_true (scanDueWrite_agrees h hwell) trivial⟩

/-- An accepted write is one of the record steps of the in-memory store. -/
theorem recordStep (h : write.onRecord now record = .ok (some next))
    (haims : write.aimsAt record.taskId) :
    ∃ event, RecordStep record.taskId event (some record) (some next) := by
  cases write with
  | claim input attemptId leaseId =>
    have hclaim := toOption_eq_some.mp (ok.inj h)
    exact ⟨.body now (.claim input) (.claim (.claimed next)), .claimed haims hclaim⟩
  | renew input =>
    have hrenew := map_toOption_eq_ok.mp h
    exact ⟨.body now (.renew input) (.renew (.renewed next)), .renewed haims hrenew⟩
  | settle input =>
    have hsettle := map_settledRecord_eq_ok.mp h
    exact ⟨.body now (.settle input) (.settle (.settled next)), .settled haims hsettle⟩
  | cancel input =>
    have hcancel := toOption_eq_some.mp (ok.inj h)
    exact ⟨.body now (.cancel input) (.cancel .canceled), .canceled haims hcancel⟩
  | recoverExpiredLease input =>
    have hrecover := map_toOption_eq_ok.mp h
    exact ⟨.body now (.recoverExpiredLease input) (.recovery (.recovered next)),
      .recovered haims hrecover⟩
  | release input =>
    have hrelease := map_toOption_eq_ok.mp h
    exact ⟨.body now (.release input) (.release (.released next)), .released haims hrelease⟩
  | scanDue => exact ⟨.body now (.scanDue ⟨0⟩) (.records []), .advanced (ok.inj h)⟩

theorem onRecord_finished (hfinished : record.state.isTerminal = true) :
    write.onRecord now record ≠ .ok (some next) := by
  intro h
  cases write with
  | claim input attemptId leaseId =>
    obtain ⟨hstate, -⟩ := claim_eq_ok.mp (toOption_eq_some.mp (ok.inj h))
    simp [hstate, isTerminal] at hfinished
  | renew input =>
    obtain ⟨lease, hstate, -⟩ := renew_eq_ok.mp (map_toOption_eq_ok.mp h)
    simp [hstate, isTerminal] at hfinished
  | settle input =>
    obtain ⟨lease, hstate, -⟩ := settle_eq_settled.mp (map_settledRecord_eq_ok.mp h)
    simp [hstate, isTerminal] at hfinished
  | cancel input =>
    obtain ⟨hstate | hstate, -⟩ := cancel_eq_ok.mp (toOption_eq_some.mp (ok.inj h)) <;>
      simp [hstate, isTerminal] at hfinished
  | recoverExpiredLease input =>
    obtain ⟨lease, hstate, -⟩ := recoverExpiredLease_eq_ok.mp (map_toOption_eq_ok.mp h)
    simp [hstate, isTerminal] at hfinished
  | release input =>
    obtain ⟨lease, hstate, -⟩ := release_eq_ok.mp (map_toOption_eq_ok.mp h)
    simp [hstate, isTerminal] at hfinished
  | scanDue =>
    obtain ⟨hstate, -⟩ := advanceDue_eq_some.mp (ok.inj h)
    simp [hstate, isTerminal] at hfinished

/-- The document after the write; a write that does not match, or that the server
refuses, changes nothing. -/
def documentAfter [DocumentServer] (now : DurableUtcTimestamp) (d : Document)
    (write : ConditionalWrite) : Document :=
  match write.onDocument now d with
  | .updated next => next
  | _ => d

def recordAfter (now : DurableUtcTimestamp) (record : TaskRecord Target)
    (write : ConditionalWrite) : TaskRecord Target :=
  match write.onRecord now record with
  | .ok (some next) => next
  | _ => record

theorem documentAfter_of_agrees_none [DocumentServer]
    (h : Agrees codec now (write.onDocument now d) none) : write.documentAfter now d = d := by
  have hunmatched : write.onDocument now d = .unmatched := h
  simp only [documentAfter, hunmatched]

theorem recordAfter_eq_self (h : ∀ next, write.onRecord now record ≠ .ok (some next)) :
    write.recordAfter now record = record := by
  unfold recordAfter
  split
  case h_1 next hnext => exact absurd hnext (h next)
  · rfl

end ConditionalWrite

/-- Both stores, one write after another, with the server time of each. -/
abbrev History := List (DurableUtcTimestamp × ConditionalWrite)

namespace History

variable {codec : DocumentCodec Target} {d : Document} {record next : TaskRecord Target}
variable {now : DurableUtcTimestamp} {write : ConditionalWrite}

def documentAfter [DocumentServer] (history : History) (d : Document) : Document :=
  history.foldl (fun d step => step.2.documentAfter step.1 d) d

def recordAfter (history : History) (record : TaskRecord Target) : TaskRecord Target :=
  history.foldl (fun record step => step.2.recordAfter step.1 record) record

/-- Every write is aimed at the task and faithful where it is made. -/
def Faithful [DocumentServer] : History → Document → TaskRecord Target → Prop
  | [], _, _ => True
  | (now, write) :: rest, d, record =>
    write.aimsAt record.taskId ∧ write.Faithful now d record ∧
      Faithful rest (write.documentAfter now d) (write.recordAfter now record)

/-- The document shows the record, up to the time of settlement. -/
def Shows (codec : DocumentCodec Target) (d : Document) (record : TaskRecord Target) : Prop :=
  ∃ settledAt, documentToRecord codec d = .ok (record.settledAtServer settledAt)

theorem shows_of_decodes (h : documentToRecord codec d = .ok record) : Shows codec d record := by
  refine ⟨(record.terminal.map TaskTerminal.settledAt).getD 0, h.trans (congrArg ok ?_)⟩
  cases hterminal : record.terminal with
  | none => exact (settledAtServer_of_none hterminal).symm
  | some terminal =>
    cases record
    cases hterminal
    rfl

theorem settledAtServer_wellFormed (h : record.WellFormed) (settledAt : DurableUtcTimestamp) :
    (record.settledAtServer settledAt).WellFormed := by
  constructor
  · exact h.leased_iff
  · simpa [settledAtServer] using h.terminal_iff
  intro terminal hterminal
  obtain ⟨stored, hstored, rfl⟩ := Option.map_eq_some_iff.mp hterminal
  exact h.terminal_state stored hstored

theorem faithful_settledAtServer (h : write.Faithful now d record)
    (settledAt : DurableUtcTimestamp) :
    write.Faithful now d (record.settledAtServer settledAt) := by
  cases write <;> exact h

/-- One write keeps the two stores together. -/
theorem shows_step [DocumentServer] [Documented] (hshows : Shows codec d record)
    (hwell : record.WellFormed) (haims : write.aimsAt record.taskId)
    (hfaithful : write.Faithful now d record) :
    Shows codec (write.documentAfter now d) (write.recordAfter now record) ∧
      (write.recordAfter now record).WellFormed := by
  obtain ⟨settledAt, hdecodes⟩ := hshows
  obtain ⟨accepted, haccepted, hagrees⟩ :=
    agrees_iff (documentToRecord_eq_ok.mp hdecodes)
      (settledAtServer_wellFormed hwell settledAt) now haims
  have hagreed := hagrees.mpr (faithful_settledAtServer hfaithful settledAt)
  by_cases hfinished : record.state.isTerminal = true
  · -- A finished record: neither side moves, whatever the settlement times are.
    have hnone : accepted = none := by
      cases accepted with
      | none => rfl
      | some next => exact absurd haccepted (onRecord_finished hfinished)
    subst hnone
    rw [documentAfter_of_agrees_none hagreed,
      recordAfter_eq_self (fun next => onRecord_finished hfinished)]
    exact ⟨⟨settledAt, hdecodes⟩, hwell⟩
  have hterminal := hwell.terminal_eq_none (by simpa using hfinished)
  rw [settledAtServer_of_none hterminal] at haccepted hdecodes
  cases accepted with
  | none =>
    rw [documentAfter_of_agrees_none hagreed, recordAfter_eq_self (by simp [haccepted])]
    exact ⟨⟨settledAt, by rw [settledAtServer_of_none hterminal, hdecodes]⟩, hwell⟩
  | some next =>
    obtain ⟨d', hupdated, hnext⟩ := hagreed
    obtain ⟨event, hstep⟩ := recordStep haccepted haims
    have hrecord : write.recordAfter now record = next := by
      simp only [ConditionalWrite.recordAfter, haccepted]
    have hdocument : write.documentAfter now d = d' := by
      simp only [ConditionalWrite.documentAfter, hupdated]
    rw [hrecord, hdocument]
    refine ⟨⟨now, hnext⟩, hstep.wellFormed (fun stored hstored => ?_) rfl⟩
    cases hstored
    exact hwell

/-- A faithful history keeps the two stores together to its end. -/
theorem shows_after [DocumentServer] [Documented] {history : History}
    (hshows : Shows codec d record) (hwell : record.WellFormed)
    (hfaithful : history.Faithful d record) :
    Shows codec (history.documentAfter d) (history.recordAfter record) := by
  induction history generalizing d record with
  | nil => exact hshows
  | cons step rest ih =>
    obtain ⟨haims, hstep, hrest⟩ := hfaithful
    obtain ⟨hnext, hwell'⟩ := shows_step hshows hwell haims hstep
    exact ih hnext hwell' hrest

end History

/-- Each conditional write matches exactly when the reducer accepts and leaves a
document that decodes to the reducer's record, if and only if it is faithful; so along
a faithful history the two stores go through the same states. -/
theorem mongo_writes_agree_iff [DocumentServer] [Documented] (codec : DocumentCodec Target) :
    (∀ d record now, ∀ write : ConditionalWrite, documentToRecord codec d = .ok record →
      record.WellFormed → write.aimsAt record.taskId →
      ∃ accepted, write.onRecord now record = .ok accepted ∧
        (Agrees codec now (write.onDocument now d) accepted ↔ write.Faithful now d record)) ∧
    (∀ d record, ∀ history : History, documentToRecord codec d = .ok record →
      record.WellFormed → history.Faithful d record →
      ∃ settledAt, documentToRecord codec (history.documentAfter d) =
        .ok ((history.recordAfter record).settledAtServer settledAt)) := by
  constructor
  · intro d record now write hdecodes hwell haims
    exact agrees_iff (documentToRecord_eq_ok.mp hdecodes) hwell now haims
  · intro d record history hdecodes hwell hfaithful
    exact History.shows_after (History.shows_of_decodes hdecodes) hwell hfaithful

/-! ## A stored document -/

instance : DocumentServer := ⟨Clause.holds, Update.apply⟩

instance : Documented := ⟨rfl, rfl⟩

/-- The serde encodings of the execution image and the trace, for a service with a
single function to call. -/
def sampleCodec : DocumentCodec Unit where
  encodeExecution image := .ok [("targetProfile", .string image.targetProfile),
    ("packageVersion", .string image.packageVersion),
    ("deployment", .document [("serviceId", .string image.deployment.serviceId),
      ("contractVersion", .string image.deployment.contractVersion),
      ("deploymentRevision", .string image.deployment.deploymentRevision),
      ("deploymentArtifactIdentity", .string image.deployment.deploymentArtifactIdentity)])]
  targetDocument _ _ := .ok [("kind", .string "function"), ("callable", .string "task")]
  encodeTrace trace := .ok (("traceId", .string trace.traceId) ::
    (trace.spanId.map fun spanId => ("spanId", .string spanId)).toList)
  decodeExecution document := do
    let field (d : Document) (key : String) : Except String String :=
      ((d.get? key).bind Bson.asStr).elim (.error s!"missing field {key}") .ok
    let deployment ← ((document.get? "deployment").bind Bson.asDocument).elim
      (.error "missing field deployment") .ok
    return ⟨← field document "targetProfile", ← field document "packageVersion",
      ← field deployment "serviceId", ← field deployment "contractVersion",
      ← field deployment "deploymentRevision", ← field deployment "deploymentArtifactIdentity"⟩
  decodeTarget _ _ := .ok ()
  decodeTrace document :=
    ((document.get? "traceId").bind Bson.asStr).elim (.error "missing field traceId") fun traceId =>
      .ok ⟨traceId, (document.get? "spanId").bind Bson.asStr⟩

def sampleReady : TaskRecord Unit := { sampleRecord with state := .ready }

def sampleLeased : TaskRecord Unit :=
  { sampleRecord with
    state := .leased
    attemptGeneration := 1
    activeLease := some ⟨⟨"lease-1"⟩, ⟨"attempt-1"⟩, "worker", 100⟩ }

def sampleSettle (text : String) : ConditionalWrite :=
  .settle ⟨⟨"task-1"⟩, ⟨"lease-1"⟩, ⟨50, .targetFailed text⟩⟩

/-- A target that fails with the text `$owner` is settled with the name of the
service instead. -/
theorem settled_text_is_evaluated :
    ∃ d, Mongo.recordDocument sampleCodec sampleLeased = .ok d ∧
      documentToRecord sampleCodec d = .ok sampleLeased ∧ sampleLeased.WellFormed ∧
      (sampleSettle "$owner").aimsAt sampleLeased.taskId ∧
      (∃ next, (sampleSettle "$owner").onRecord 50 sampleLeased = .ok (some next) ∧
        next.terminal = some ⟨50, .targetFailed "$owner"⟩ ∧
        ¬ Agrees sampleCodec 50 ((sampleSettle "$owner").onDocument 50 d) (some next)) ∧
      ∃ d', (sampleSettle "$owner").onDocument 50 d = .updated d' ∧
        (documentToRecord sampleCodec d').map terminal =
          .ok (some ⟨50, .targetFailed "svc-1"⟩) := by
  refine ⟨_, rfl, rfl, by constructor <;> decide, rfl, ⟨_, rfl, rfl, ?_⟩, _, rfl, rfl⟩
  rintro ⟨d', hd', hdecodes⟩
  cases hd'
  have hterminal := congrArg (Except.map terminal) hdecodes
  revert hterminal
  decide

/-- A claim and a settlement whose text is plain. -/
def sampleHistory : History :=
  [(20, .claim ⟨⟨"task-1"⟩, "worker", 100, true⟩ ⟨"attempt-1"⟩ ⟨"lease-1"⟩),
    (50, sampleSettle "timeout")]

theorem mongo_writes_agree_iff_sample :
    ∃ d, Mongo.recordDocument sampleCodec sampleReady = .ok d ∧
      sampleHistory.Faithful d sampleReady ∧
      ∃ settledAt, documentToRecord sampleCodec (sampleHistory.documentAfter d) =
        .ok ((sampleHistory.recordAfter sampleReady).settledAtServer settledAt) := by
  refine ⟨_, rfl, ?_⟩
  suffices hfaithful : sampleHistory.Faithful _ sampleReady from
    ⟨hfaithful, (mongo_writes_agree_iff sampleCodec).2 _ _ sampleHistory rfl
      (by constructor <;> decide) hfaithful⟩
  refine ⟨rfl, fun _ => ⟨by decide, by decide⟩, rfl, ?_, trivial⟩
  intro lease _ _ _ _ text htext
  cases htext
  exact .inl (by decide)

end Skiff.Task
