import Skiff.Task.Replicas

/-!
# Claims and the stored backoff

`TaskRecord.retryNotBefore` is documented as a time before which no new attempt may
be claimed. The claim itself does not test it: each replica tests the copy its due
scan returned. This module follows what every replica has seen through a history
and shows that a claim respects the stored value whenever the copy is still
current, that is, when the task was neither released nor recovered after the scan
and the store clock is not behind the time the replica filtered with. Two replicas
with a perfectly monotone clock break the first half.
-/

namespace Skiff.Task

open Task.System View

variable {ι Target : Type}

/-! ## Histories -/

/-- The task whose backoff the event moved. -/
def StoreEvent.paced : StoreEvent Target → Option TaskId
  | .body _ (.recoverExpiredLease input) (.recovery (.recovered _)) => some input.taskId
  | .body _ (.release input) (.release (.released _)) => some input.taskId
  | _ => none

def SystemEvent.storeEvent : SystemEvent ι Target → Option (StoreEvent Target)
  | .replica _ event _ => some event
  | .client event => some event
  | .quiet => none

section Histories

variable [DecidableEq ι]

/-- Replica `i` received a new due scan. -/
def SystemEvent.rescans (i : ι) : SystemEvent ι Target → Bool
  | .replica j (.body _ (.scanDue _) _) true => j = i
  | _ => false

def View.after (i : ι) (view : View Target) : SystemEvent ι Target → View Target
  | .replica j (.body _ call reply) true =>
    if j = i then view.seen (.store call) (.ok reply) else view
  | _ => view

/-- What replica `i` last received in the history. -/
def viewOf (i : ι) (history : List (SystemEvent ι Target)) : View Target :=
  history.foldl (after i) .start

/-- The tasks released or recovered, by anyone, since replica `i` last scanned. -/
def staleOf (i : ι) (history : List (SystemEvent ι Target)) : List TaskId :=
  history.foldl (fun stale event =>
    if event.rescans i then [] else stale ++ (event.storeEvent.bind StoreEvent.paced).toList) []

@[simp] theorem viewOf_snoc (i : ι) (history : List (SystemEvent ι Target))
    (event : SystemEvent ι Target) :
    viewOf i (history ++ [event]) = (viewOf i history).after i event := by
  simp [viewOf]

@[simp] theorem staleOf_snoc (i : ι) (history : List (SystemEvent ι Target))
    (event : SystemEvent ι Target) :
    staleOf i (history ++ [event]) = if event.rescans i then []
      else staleOf i history ++ (event.storeEvent.bind StoreEvent.paced).toList := by
  simp [staleOf]

/-- The claim is issued against a view that still describes the stored record: no
release or recovery of the task since the replica's scan, and a store clock that is
not behind the time the replica read. -/
def SystemEvent.claimsCurrent (history : List (SystemEvent ι Target)) : SystemEvent ι Target → Bool
  | .replica i (.body now (.claim input) _) _ =>
    input.taskId ∉ staleOf i history ∧ (viewOf i history).now ≤ now
  | _ => true

end Histories

theorem View.seen_error (view : View Target) (call : StoreCall Target) (error : TaskStoreError) :
    view.seen (.store call) (.error error) = view := by
  cases call <;> rfl

/-- Only a due scan brings a new snapshot. -/
theorem View.snapshot_seen (view : View Target) {call : StoreCall Target}
    (hcall : ∀ input, call ≠ .scanDue input) (answer : Except TaskStoreError (StoreReply Target)) :
    (view.seen (.store call) answer).snapshot = view.snapshot := by
  cases call with
  | scanDue input => exact absurd rfl (hcall input)
  | now => cases answer with
    | error error => rfl
    | ok reply => cases reply <;> rfl
  | _ => rfl

variable {now : DurableUtcTimestamp}

theorem SystemEvent.rescans_eq_false [DecidableEq ι] {i j : ι}
    {call : StoreCall Target} {reply : StoreReply Target} (hcall : ∀ input, call ≠ .scanDue input) :
    (SystemEvent.replica i (.body now call reply) true).rescans j = false := by
  cases call with
  | scanDue input => exact absurd rfl (hcall input)
  | _ => rfl

/-! ## One store step -/

variable {event : StoreEvent Target} {record : TaskRecord Target}

/-- Only a release or a recovery of the task moves its backoff. -/
theorem RecordStep.retryNotBefore {id : TaskId} {stored' : Option (TaskRecord Target)}
    (h : RecordStep id event (some record) stored') (hpaced : event.paced ≠ some id) :
    ∃ next, stored' = some next ∧ next.retryNotBefore = record.retryNotBefore := by
  cases h with
  | recreated | kept => exact ⟨_, rfl, rfl⟩
  | advanced hadvance =>
    obtain ⟨-, -, rfl⟩ := advanceDue_eq_some.mp hadvance
    exact ⟨_, rfl, rfl⟩
  | claimed hid hclaim =>
    obtain ⟨-, -, -, -, rfl⟩ := claim_eq_ok.mp hclaim
    exact ⟨_, rfl, rfl⟩
  | renewed hid hrenew =>
    obtain ⟨lease, -, -, -, -, -, rfl⟩ := renew_eq_ok.mp hrenew
    exact ⟨_, rfl, rfl⟩
  | settled hid hsettle =>
    obtain ⟨lease, -, -, -, -, -, rfl⟩ := settle_eq_settled.mp hsettle
    exact ⟨_, rfl, rfl⟩
  | canceled hid hcancel =>
    obtain ⟨-, rfl⟩ := cancel_eq_ok.mp hcancel
    exact ⟨_, rfl, rfl⟩
  | recovered hid hrecover | released hid hrelease => exact absurd (congrArg some hid) hpaced

/-- A record is stored under its own id. -/
def MemoryState.Keyed (s : MemoryState Target) : Prop :=
  ∀ id record, s.records.get? id = some record → record.taskId = id

variable {s t : MemoryState Target}

theorem StoreStep.keyed [DecidableEq Target] {ids : IdSupply} (h : StoreStep ids s event t)
    (hkeyed : s.Keyed) : t.Keyed := by
  intro id next hnext
  have hrecord := h.recordStep id
  rw [hnext] at hrecord
  cases hstored : s.records.get? id with
  | none =>
    rw [hstored] at hrecord
    cases hrecord with
    | created hid => exact hid
  | some record =>
    rw [hstored] at hrecord
    obtain ⟨next', heq, hsame, -⟩ := hrecord.frame
    cases heq
    rw [hsame.taskId]
    exact hkeyed id record hstored

/-- A due scan returns records as they are stored when it ends. -/
theorem MemoryState.scanDue_stored {s : MemoryState Target} (hkeyed : s.Keyed)
    {input : DueScanInput} (hmem : record ∈ (s.scanDue now input).1) :
    (s.scanDue now input).2.records.get? record.taskId = some record := by
  have hdue : record ∈ (s.records.map (scanRecord now)).values := by
    have hsorted := List.mem_of_mem_take hmem
    rw [List.mem_insertionSort] at hsorted
    exact (List.mem_filter.mp hsorted).1
  obtain ⟨id, hid⟩ := OrdMap.mem_values_iff.mp hdue
  rw [OrdMap.get?_map] at hid
  obtain ⟨stored, hstored, rfl⟩ := Option.map_eq_some_iff.mp hid
  have htask : (scanRecord now stored).taskId = stored.taskId := by
    unfold scanRecord
    cases hadvance : advanceDue stored now with
    | none => rfl
    | some next =>
      obtain ⟨-, -, rfl⟩ := advanceDue_eq_some.mp hadvance
      rfl
  rw [htask, hkeyed id stored hstored, get?_scanDue, hstored]
  rfl

/-! ## One step of the system -/

section Step

variable [DecidableEq ι]

/-- Replica `i` goes on with `prog`, the others stay where they are. -/
def System.Resumes (sys next : System ι Target) (i : ι) (prog : SchedulerProg Target Unit) : Prop :=
  ∀ j, (next.replica j).prog = if j = i then prog else (sys.replica j).prog

theorem System.setReplica_resumes (sys : System ι Target) (i : ι) (replica : Replica Target) :
    sys.Resumes (sys.setReplica i replica) i replica.prog := by
  intro j
  by_cases hj : j = i
  · subst hj
    simp [setReplica]
  · simp [setReplica, hj]

variable [DecidableEq Target] {ids : IdSupply}
variable {sys next : System ι Target} {event : SystemEvent ι Target}
variable {history : List (SystemEvent ι Target)}

/-- The steps of the system, by what they do to the store and to the programs. -/
inductive System.StepCase (ids : IdSupply) (sys : System ι Target) :
    SystemEvent ι Target → System ι Target → Prop where
  | begins {next i loop} : next.store = sys.store →
      sys.Resumes next i ((sys.replica i).loop loop) → StepCase ids sys .quiet next
  | proceeds {next i op resume answer} : next.store = sys.store →
      (sys.replica i).prog = .op op resume → sys.Resumes next i (resume answer) →
      (∀ view : View Target, view.seen op answer = view) → StepCase ids sys .quiet next
  | received {next i now call reply resume} :
      StoreStep ids sys.store (.body now call reply) next.store →
      (sys.replica i).prog = .op (.store call) resume → sys.Resumes next i (resume (.ok reply)) →
      StepCase ids sys (.replica i (.body now call reply) true) next
  | missed {next i now call reply resume error} :
      StoreStep ids sys.store (.body now call reply) next.store →
      (sys.replica i).prog = .op (.store call) resume →
      sys.Resumes next i (resume (.error error)) →
      StepCase ids sys (.replica i (.body now call reply) false) next
  | client {next now call reply} : StoreStep ids sys.store (.body now call reply) next.store →
      next.replica = sys.replica → (∀ input, call ≠ .claim input) →
      StepCase ids sys (.client (.body now call reply)) next

theorem System.Step.stepCase (h : sys.Step ids event next) : sys.StepCase ids event next := by
  obtain ⟨action, h⟩ := h
  cases action with
  | begin i loop =>
    simp only [step] at h
    split at h
    · cases h
      exact .begins rfl (sys.setReplica_resumes i _)
    · cases h
  | store i now delivery =>
    simp only [step] at h
    split at h
    case h_1 call resume hprog =>
      cases delivery with
      | refused error =>
        cases h
        exact .proceeds rfl hprog (sys.setReplica_resumes i _)
          fun view => view.seen_error call error
      | delivered =>
        simp only at h
        split at h
        · cases h
        case h_2 reply store hexec =>
          cases h
          exact .received (.body hexec) hprog (sys.setReplica_resumes i _)
      | lost error =>
        simp only at h
        split at h
        · cases h
        case h_2 reply store hexec =>
          cases h
          exact .missed (.body hexec) hprog (sys.setReplica_resumes i _)
    · cases h
  | admission i decision =>
    simp only [step] at h
    split at h
    case h_1 record resume hprog =>
      cases h
      exact .proceeds rfl hprog (sys.setReplica_resumes i _) fun _ => rfl
    · cases h
  | jitter i value =>
    simp only [step] at h
    split at h
    case h_1 span resume hprog =>
      cases h
      exact .proceeds rfl hprog (sys.setReplica_resumes i _) fun _ => rfl
    · cases h
  | leases i =>
    simp only [step] at h
    split at h
    case h_1 update resume hprog =>
      cases h
      exact .proceeds rfl hprog (sys.setReplica_resumes i _) fun _ => rfl
    · cases h
  | client now call =>
    simp only [step] at h
    split at h
    · cases h
    case h_2 hnotClaim =>
      split at h
      · cases h
      case h_2 reply store hexec =>
        cases h
        exact .client (.body hexec) rfl hnotClaim

/-! ## Every run -/

/-- What the replicas have seen, and how far it can be from the store. -/
structure System.Tracked (history : List (SystemEvent ι Target)) (sys : System ι Target) :
    Prop where
  keyed : sys.store.Keyed
  obeys : ∀ i, (sys.replica i).prog.wp seen Allows (viewOf i history) fun _ _ => True
  current : ∀ i, ∀ record ∈ (viewOf i history).snapshot, record.taskId ∈ staleOf i history ∨
    ∃ stored, sys.store.records.get? record.taskId = some stored ∧
      stored.retryNotBefore = record.retryNotBefore

/-- A store step keeps a snapshot record current or makes it stale. -/
theorem current_of_storeStep {storeEvent : StoreEvent Target}
    {stale : List TaskId} (hstep : StoreStep ids s storeEvent t)
    (hcurrent : record.taskId ∈ stale ∨ ∃ stored, s.records.get? record.taskId = some stored ∧
      stored.retryNotBefore = record.retryNotBefore) :
    record.taskId ∈ stale ++ storeEvent.paced.toList ∨
      ∃ stored, t.records.get? record.taskId = some stored ∧
        stored.retryNotBefore = record.retryNotBefore := by
  rcases hcurrent with hstale | ⟨stored, hstored, hsame⟩
  · exact .inl (List.mem_append_left _ hstale)
  by_cases hpaced : storeEvent.paced = some record.taskId
  · exact .inl (by simp [hpaced])
  have hrecord := hstep.recordStep record.taskId
  rw [hstored] at hrecord
  obtain ⟨moved, hmoved, hkept⟩ := hrecord.retryNotBefore hpaced
  exact .inr ⟨moved, hmoved, hkept.trans hsame⟩

theorem System.Tracked.step (h : Tracked history sys) (hstep : sys.Step ids event next) :
    Tracked (history ++ [event]) next := by
  cases hstep.stepCase with
  | @begins _ i loop hstore hresumes =>
    refine ⟨hstore ▸ h.keyed, fun j => ?_, fun j record hmem => ?_⟩
    · rw [hresumes j, viewOf_snoc]
      split
      · exact Replica.loop_wp ..
      · exact h.obeys j
    simpa [after, SystemEvent.rescans, SystemEvent.storeEvent, hstore] using
      h.current j record (by simpa [after] using hmem)
  | @proceeds _ i op resume answer hstore hprog hresumes hblind =>
    refine ⟨hstore ▸ h.keyed, fun j => ?_, fun j record hmem => ?_⟩
    · rw [hresumes j, viewOf_snoc]
      split
      case isTrue hj =>
        subst hj
        have hobeys := h.obeys j
        rw [hprog] at hobeys
        have hnext := hobeys.2 answer
        rwa [hblind] at hnext
      · exact h.obeys j
    simpa [after, SystemEvent.rescans, SystemEvent.storeEvent, hstore] using
      h.current j record (by simpa [after] using hmem)
  | @received _ i now call reply resume hstore hprog hresumes =>
    refine ⟨hstore.keyed h.keyed, fun j => ?_, fun j record hmem => ?_⟩
    · rw [hresumes j, viewOf_snoc]
      split
      case isTrue hj =>
        subst hj
        have hobeys := h.obeys j
        rw [hprog] at hobeys
        simpa [after] using hobeys.2 (.ok reply)
      case isFalse hj => simpa [after, Ne.symm hj] using h.obeys j
    rw [viewOf_snoc] at hmem
    by_cases hj : i = j
    · subst hj
      by_cases hscan : ∃ input, call = .scanDue input
      · obtain ⟨input, rfl⟩ := hscan
        cases hstore with
        | body hexec =>
          obtain ⟨hreply, hnext⟩ := Prod.mk.inj (Except.ok.inj hexec)
          rw [← hreply] at hmem
          simp only [after, if_true] at hmem
          exact .inr ⟨record, hnext ▸ MemoryState.scanDue_stored h.keyed hmem, rfl⟩
      simp only [after, if_true, snapshot_seen _ fun input hcall => hscan ⟨input, hcall⟩] at hmem
      have hrescans : (SystemEvent.replica i (.body now call reply) true).rescans i = false :=
        SystemEvent.rescans_eq_false fun input hcall => hscan ⟨input, hcall⟩
      simpa [hrescans, SystemEvent.storeEvent] using
        current_of_storeStep hstore (h.current i record hmem)
    have hrescans : (SystemEvent.replica i (.body now call reply) true).rescans j = false := by
      cases call <;> simp [SystemEvent.rescans, hj]
    simp only [after, if_neg hj] at hmem
    simpa [hrescans, SystemEvent.storeEvent] using
      current_of_storeStep hstore (h.current j record hmem)
  | @missed _ i now call reply resume error hstore hprog hresumes =>
    refine ⟨hstore.keyed h.keyed, fun j => ?_, fun j record hmem => ?_⟩
    · rw [hresumes j, viewOf_snoc]
      split
      case isTrue hj =>
        subst hj
        have hobeys := h.obeys j
        rw [hprog] at hobeys
        have hnext := hobeys.2 (.error error)
        rwa [seen_error] at hnext
      · exact h.obeys j
    rw [viewOf_snoc] at hmem
    simpa [SystemEvent.rescans, SystemEvent.storeEvent] using
      current_of_storeStep hstore (h.current j record hmem)
  | client hstore hreplicas hnotClaim =>
    refine ⟨hstore.keyed h.keyed, fun j => ?_, fun j record hmem => ?_⟩
    · rw [hreplicas, viewOf_snoc]
      exact h.obeys j
    rw [viewOf_snoc] at hmem
    simpa [SystemEvent.rescans, SystemEvent.storeEvent] using
      current_of_storeStep hstore (h.current j record hmem)

variable {config : ι → SchedulerConfig} {backoff : ι → RetryBackoffPolicy}

theorem System.tracked_of_run (h : Run (Step ids) (init config backoff) history sys) :
    Tracked history sys := by
  refine Run.history (P := Tracked) ?_ (fun _ hbefore hstep => hbefore.step hstep) h
  refine ⟨fun id record hrecord => ?_, fun i => trivial, fun i record hmem => ?_⟩
  · cases hrecord
  · cases hmem

/-- If the event is a successful claim, the backoff stored before it has passed. -/
def System.RespectsBackoff (before : System ι Target) (event : SystemEvent ι Target) : Prop :=
  ∀ now input claimed,
    event.storeEvent = some (.body now (.claim input) (.claim (.claimed claimed))) →
    ∀ record notBefore, before.store.records.get? input.taskId = some record →
      record.retryNotBefore = some notBefore → notBefore ≤ now

/-- In every run whose claims are all issued against a current view, no claim
succeeds before the stored `retryNotBefore`. -/
theorem claims_respect_backoff {config : ι → SchedulerConfig} {backoff : ι → RetryBackoffPolicy}
    (hcurrent : ∀ pre event post, history = pre ++ event :: post → event.claimsCurrent pre = true) :
    ∀ pre event post before after, history = pre ++ event :: post →
      Run (Step ids) (init config backoff) pre before →
      before.Step ids event after → before.RespectsBackoff event := by
  intro pre event post before after hsplit hpre hstep now input claimed hclaim record notBefore
    hrecord hset
  have htracked := tracked_of_run hpre
  have hfresh := hcurrent pre event post hsplit
  -- a successful claim comes from a replica whose program was about to issue it
  have hreplica : ∃ i resume delivered,
      event = .replica i (.body now (.claim input) (.claim (.claimed claimed))) delivered ∧
        (before.replica i).prog = .op (.store (.claim input)) resume := by
    cases hstep.stepCase with
    | begins | proceeds => cases hclaim
    | received hstore hprog hresumes | missed hstore hprog hresumes =>
      cases hclaim
      exact ⟨_, _, _, rfl, hprog⟩
    | client hstore hreplicas hnotClaim =>
      cases hclaim
      exact absurd rfl (hnotClaim input)
  obtain ⟨i, resume, delivered, rfl, hprog⟩ := hreplica
  obtain ⟨hnotStale, hclock⟩ := of_decide_eq_true hfresh
  have hobeys := htracked.obeys i
  rw [hprog] at hobeys
  obtain ⟨seen, hmem, hid, hpassed⟩ := hobeys.1
  rcases htracked.current i seen hmem with hstale | ⟨stored, hstored, hsame⟩
  · exact absurd (hid ▸ hstale) hnotStale
  · rw [hid, hrecord] at hstored
    cases hstored
    exact (hpassed notBefore (hsame ▸ hset)).trans hclock

end Step

def sampleConfig : SchedulerConfig := ⟨"scheduler", 128, 60000, true⟩
def sampleBackoff : RetryBackoffPolicy := ⟨100, 30000, 100⟩

/-- A single replica that scans, claims at 20, is refused, releases until 120, and
claims again at 130. -/
def sampleRetry : List (Action Unit Unit) :=
  [.client 5 (.create sampleRecord),
    .begin () .scan, .store () 20 .delivered, .store () 20 .delivered,
    .store () 20 .delivered, .admission () .rejectedProvable, .jitter () 0,
    .store () 20 .delivered, .leases (),
    .begin () .scan, .store () 130 .delivered, .store () 130 .delivered,
    .store () 130 .delivered]

theorem claims_respect_backoff_retry :
    ∃ (pre : List (SystemEvent Unit Unit)) (event : SystemEvent Unit Unit)
      (before after : System Unit Unit),
      Run (Step memoryIds) (init (fun _ => sampleConfig) (fun _ => sampleBackoff)) pre before ∧
      before.Step memoryIds event after ∧
      (event.storeEvent.any fun storeEvent => storeEvent.claims ⟨"task-1"⟩) = true ∧
      before.RespectsBackoff event := by
  obtain ⟨history, last, hrun, hcheck⟩ := exists_run memoryIds
    (init (fun _ => sampleConfig) (fun _ => sampleBackoff)) sampleRetry
    (fun history _ => (history.getLast?.any fun event =>
        event.storeEvent.any fun storeEvent => storeEvent.claims ⟨"task-1"⟩) &&
      (List.range history.length).all fun n =>
        (history[n]?).all fun event => event.claimsCurrent (history.take n)) (by decide)
  obtain ⟨hlast, hall⟩ := (Bool.and_eq_true _ _).mp hcheck
  obtain ⟨event, hget, hclaims⟩ := (Option.any_eq_true _ _).mp hlast
  obtain ⟨pre, rfl⟩ := List.getLast?_eq_some_iff.mp hget
  obtain ⟨before, hpre, hstep⟩ := Run.snoc_iff.mp hrun
  refine ⟨pre, event, before, last, hpre, hstep, hclaims, ?_⟩
  refine claims_respect_backoff (fun pre' event' post' hsplit => ?_) pre event [] before last rfl
    hpre hstep
  have hat := List.all_eq_true.mp hall pre'.length (by simp [hsplit])
  simpa [hsplit] using hat

/-- Replica `true` scans at 20 and is held up. Replica `false` scans, claims, is
refused by the runtime and releases the task with a backoff until 120. -/
def sampleRace : List (Action Bool Unit) :=
  [.client 5 (.create sampleRecord),
    .begin true .scan, .store true 20 .delivered, .store true 20 .delivered,
    .begin false .scan, .store false 20 .delivered, .store false 20 .delivered,
    .store false 20 .delivered, .admission false .rejectedProvable, .jitter false 0,
    .store false 20 .delivered, .leases false]

/-- A successful claim of the task at the given store time. -/
def SystemEvent.claimsAt (event : SystemEvent ι Target) (now : DurableUtcTimestamp) (id : TaskId) :
    Bool :=
  match event.storeEvent with
  | some (.body time (.claim input) (.claim (.claimed _))) => time = now && input.taskId = id
  | _ => false

theorem SystemEvent.storeEvent_of_claimsAt {event : SystemEvent ι Target} {id : TaskId}
    (h : event.claimsAt now id = true) :
    ∃ input claimed, input.taskId = id ∧
      event.storeEvent = some (.body now (.claim input) (.claim (.claimed claimed))) := by
  unfold claimsAt at h
  split at h
  case h_1 time input claimed hevent =>
    obtain ⟨htime, hid⟩ := (Bool.and_eq_true _ _).mp h
    exact ⟨input, claimed, of_decide_eq_true hid, of_decide_eq_true htime ▸ hevent⟩
  · cases h

/-- The claim that replica `true` then makes at 21 succeeds. -/
theorem claim_before_stored_backoff :
    ¬ ∀ (config : Bool → SchedulerConfig) (backoff : Bool → RetryBackoffPolicy)
      (pre : List (SystemEvent Bool Unit)) (event : SystemEvent Bool Unit)
      (before after : System Bool Unit),
      Run (Step memoryIds) (init config backoff) pre before →
      before.Step memoryIds event after → before.RespectsBackoff event := by
  intro hclaimed
  obtain ⟨pre, before, hpre, hcheck⟩ := exists_run memoryIds
    (init (fun _ => sampleConfig) (fun _ => sampleBackoff)) sampleRace
    (fun _ before => ((before.store.records.get? ⟨"task-1"⟩).any fun record =>
        record.retryNotBefore = some 120) &&
      (before.step memoryIds (.store true 21 .delivered)).any fun result =>
        result.1.claimsAt 21 ⟨"task-1"⟩) (by decide)
  obtain ⟨hstored, hclaims⟩ := (Bool.and_eq_true _ _).mp hcheck
  obtain ⟨record, hrecord, hbackoff⟩ := (Option.any_eq_true _ _).mp hstored
  obtain ⟨⟨event, after⟩, hstep, hevent⟩ := (Option.any_eq_true _ _).mp hclaims
  obtain ⟨input, claimed, hid, hstoreEvent⟩ := SystemEvent.storeEvent_of_claimsAt hevent
  have hrespects := hclaimed _ _ pre event before after hpre ⟨_, hstep⟩
  have hlate : (120 : Int) ≤ 21 := hrespects 21 input claimed hstoreEvent record 120
    (hid ▸ hrecord) (of_decide_eq_true hbackoff)
  exact absurd hlate (by decide)

end Skiff.Task
