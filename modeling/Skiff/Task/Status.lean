import Skiff.Task.MongoHistory

/-!
# Task status

`status` of the two task stores. A record past its retention horizon reads as expired. The memory
store compares the horizon in checked Rust arithmetic, the Mongo store in a filter of the server,
whose date addition fails when it leaves the range of dates.
-/

namespace Skiff.Task

open DurableUtcTimestamp Mongo

variable {Target : Type}

inductive TaskStatusKind where
  | scheduled
  | ready
  | running
  | succeeded
  | failed
  | platformFailed
  | canceled
  | expired
deriving DecidableEq

def TaskRecord.statusKind (record : TaskRecord Target) : TaskStatusKind :=
  match record.state with
  | .scheduled => .scheduled
  | .ready => .ready
  | .leased => .running
  | .succeeded => .succeeded
  | .failed => .failed
  | .platformFailed => .platformFailed
  | .canceled => .canceled

theorem TaskRecord.statusKind_ne_expired (record : TaskRecord Target) :
    record.statusKind ≠ .expired := by
  rw [statusKind]
  cases record.state <;> exact nofun

structure StatusInput where
  taskId : TaskId
  retention : DurableDuration

/-- `MemoryTaskStore::status`, after its gate. -/
def MemoryState.status (s : MemoryState Target) (now : DurableUtcTimestamp)
    (input : StatusInput) : TaskStatusKind :=
  match s.records.get? input.taskId with
  | none => .expired
  | some record =>
    let expires := checkedAddMillis record.createdAt input.retention
    if expires.any fun expires => now ≥ expires then .expired else record.statusKind

namespace Mongo

def mapDriverError (error : String) : TaskStoreError :=
  .transient s!"mongo task store failure: {error}"

/-- `$lt` of a field plus milliseconds and the time, as the server evaluates it. -/
abbrev HorizonFilter := Option Bson → Int → DurableUtcTimestamp → Except String Bool

/-- A sum that is no date is an error. -/
def dateBefore (date : DurableUtcTimestamp) (millis : Int) (now : DurableUtcTimestamp) :
    Except String Bool :=
  match checkedAddMillis date millis with
  | some horizon => .ok (horizon < now)
  | none => .error "date overflow in $add"

def ComparesDates (past : HorizonFilter) : Prop :=
  ∀ date millis now, past (some (.datetime date)) millis now = dateBefore date millis now

variable {past : HorizonFilter}

/-- The filter of `status_once`: the horizon of the document is before the time of the server. -/
def pastRetention (past : HorizonFilter) (now : DurableUtcTimestamp)
    (retention : DurableDuration) (d : Document) : Except TaskStoreError Bool :=
  (past (d.get? "createdAt") retention now).mapError mapDriverError

/-- `status_once` on a collection with at most one document for each id. -/
def statusOnce (past : HorizonFilter) (codec : DocumentCodec Target)
    (tasks : TaskId → Option Document) (now : DurableUtcTimestamp) (input : StatusInput) :
    Except TaskStoreError TaskStatusKind :=
  match tasks input.taskId with
  | none => .ok .expired
  | some d => do
    if ← pastRetention past now input.retention d then return .expired
    return (← documentToRecord codec d).statusKind

end Mongo

section

variable {codec : DocumentCodec Target} {tasks : TaskId → Option Document} {d : Document}
  {s : MemoryState Target} {record : TaskRecord Target} {input : StatusInput}

theorem checkedAddMillis_eq_some {t sum : DurableUtcTimestamp} {millis : Int}
    (h : checkedAddMillis t millis = some sum) : t + millis = sum := by
  rw [checkedAddMillis] at h
  split at h
  · exact Option.some.inj h
  · cases h

/-- The stores report the same status of a stored record exactly if its horizon is a timestamp
other than the present one. -/
theorem status_agrees_iff (hpast : ComparesDates past) (htasks : tasks input.taskId = some d)
    (hd : documentToRecord codec d = .ok record)
    (hs : s.records.get? input.taskId = some record) (now : DurableUtcTimestamp) :
    statusOnce past codec tasks now input = .ok (s.status now input) ↔
      (checkedAddMillis record.createdAt input.retention).isSome ∧
        record.createdAt + input.retention ≠ now := by
  rw [statusOnce, htasks, MemoryState.status, hs]
  dsimp only
  rw [pastRetention, (documentToRecord_eq_ok.mp hd).createdAt, hpast, hd, dateBefore]
  cases hsum : checkedAddMillis record.createdAt input.retention with
  | none => simp [bind, Except.bind, Except.mapError]
  | some horizon =>
    have hadd := checkedAddMillis_eq_some hsum
    rw [hadd]
    obtain hlt | heq | hgt := lt_trichotomy horizon now
    · simp [bind, Except.bind, Except.mapError, pure, Except.pure, hlt, hlt.le, hlt.ne]
    · -- at the horizon itself only the memory store says expired
      subst heq
      simp [bind, Except.bind, Except.mapError, pure, Except.pure, record.statusKind_ne_expired]
    · simp [bind, Except.bind, Except.mapError, pure, Except.pure, hgt.not_gt, hgt, hgt.ne']

end

/-- What is missing or no date sorts before the time; texts and the like cannot be added. -/
def sampleFilter : HorizonFilter
  | some (.datetime date), millis, now => dateBefore date millis now
  | none, _, _ | some .null, _, _ | some (.int32 _), _, _ | some (.int64 _), _, _ => .ok true
  | _, _, _ => .error "$add only supports numeric or date types"

/-- A collection and a store with the one record of `sampleReady`, created at 1. -/
def sampleTasks (d : Document) : TaskId → Option Document := fun _ => some d

def sampleStore : MemoryState Unit := MemoryState.empty.put sampleReady.taskId sampleReady

def sampleStatus : StatusInput := ⟨sampleReady.taskId, 1000⟩

theorem status_agrees_iff_sample :
    ∃ d, documentToRecord sampleCodec d = .ok sampleReady ∧
      (statusOnce sampleFilter sampleCodec (sampleTasks d) 1002 sampleStatus =
          .ok (sampleStore.status 1002 sampleStatus) ↔
        (checkedAddMillis sampleReady.createdAt 1000).isSome ∧
          sampleReady.createdAt + 1000 ≠ 1002) := by
  obtain ⟨d, hd⟩ : ∃ d, recordDocument sampleCodec sampleReady = .ok d := ⟨_, rfl⟩
  have hdecodes : documentToRecord sampleCodec d = .ok sampleReady := by
    cases hd
    rfl
  exact ⟨d, hdecodes, status_agrees_iff (fun _ _ _ => rfl) rfl hdecodes rfl 1002⟩

/-- At the instant of the horizon the Mongo store still reports the state of the record. -/
theorem status_differs_at_horizon :
    ∃ d, recordDocument sampleCodec sampleReady = .ok d ∧
      documentToRecord sampleCodec d = .ok sampleReady ∧
      sampleStore.records.get? sampleStatus.taskId = some sampleReady ∧
      statusOnce sampleFilter sampleCodec (sampleTasks d) 1001 sampleStatus = .ok .ready ∧
      sampleStore.status 1001 sampleStatus = .expired := by
  refine ⟨_, rfl, rfl, rfl, rfl, by decide⟩

end Skiff.Task
