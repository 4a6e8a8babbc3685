import Skiff.Task.Scheduler

/-!
# Several replicas over one store

A scheduler filters its claims on the records its scan returned and claims later,
in a call of its own; the conditional claim does not look at `retryNotBefore`. So
a claim respects the stored backoff exactly as long as what the replica saw is
still true when the claim arrives. The two ways to lose that are stated as one
condition on the claim step: another party has released or recovered the task
since the replica's scan, or the store clock has moved back behind the `now` the
replica filtered with.
-/

namespace Skiff.Task

open Prog Task.Scheduler

variable {ι Target : Type}

structure Replica (Target : Type) where
  config : SchedulerConfig
  backoff : RetryBackoffPolicy
  prog : SchedulerProg Target Unit
  leases : LeaseTable

structure System (ι Target : Type) where
  store : MemoryState Target
  replica : ι → Replica Target

inductive SchedulerLoop where
  | scan
  | recover
  | renew (order : LeaseOrder)

def Replica.loop (replica : Replica Target) : SchedulerLoop → SchedulerProg Target Unit
  | .scan => do
    let _ ← scanOnce replica.config replica.backoff
    return ()
  | .recover => recoverOnce replica.config replica.backoff
  | .renew order => renewActiveLeases replica.config order

/-- What the caller of a store call learns. -/
inductive Delivery where
  | delivered
  | refused (error : TaskStoreError)
  | lost (error : TaskStoreError)

/-- One scheduling choice. Other clients of the store do anything but claim. -/
inductive Action (ι Target : Type) where
  | begin (i : ι) (loop : SchedulerLoop)
  | store (i : ι) (now : DurableUtcTimestamp) (delivery : Delivery)
  | admission (i : ι) (decision : AdmissionDecision)
  | jitter (i : ι) (value : Int)
  | leases (i : ι)
  | client (now : DurableUtcTimestamp) (call : StoreCall Target)

/-- The store events of a run, with the replica that caused them and whether it
received the reply. -/
inductive SystemEvent (ι Target : Type) where
  | replica (i : ι) (event : StoreEvent Target) (delivered : Bool)
  | client (event : StoreEvent Target)
  | quiet

namespace System

section Step

variable [DecidableEq ι] [DecidableEq Target]

def setReplica (sys : System ι Target) (i : ι) (replica : Replica Target) : System ι Target :=
  { sys with replica := Function.update sys.replica i replica }

def setProg (sys : System ι Target) (i : ι) (prog : SchedulerProg Target Unit) : System ι Target :=
  sys.setReplica i { sys.replica i with prog := prog }

/-- Perform the chosen step, if the replica is waiting for it. -/
def step (ids : IdSupply) (sys : System ι Target) :
    Action ι Target → Option (SystemEvent ι Target × System ι Target)
  | .begin i loop =>
    match (sys.replica i).prog with
    | .ret () => some (.quiet, sys.setProg i ((sys.replica i).loop loop))
    | _ => none
  | .store i now delivery =>
    match (sys.replica i).prog with
    | .op (.store call) next =>
      match delivery with
      | .refused error => some (.quiet, sys.setProg i (next (.error error)))
      | .delivered =>
        match sys.store.exec ids now call with
        | .error _ => none
        | .ok (reply, store) =>
          some (.replica i (.body now call reply) true,
            { sys.setProg i (next (.ok reply)) with store := store })
      | .lost error =>
        match sys.store.exec ids now call with
        | .error _ => none
        | .ok (reply, store) =>
          some (.replica i (.body now call reply) false,
            { sys.setProg i (next (.error error)) with store := store })
    | _ => none
  | .admission i decision =>
    match (sys.replica i).prog with
    | .op (.admission _) next => some (.quiet, sys.setProg i (next decision))
    | _ => none
  | .jitter i value =>
    match (sys.replica i).prog with
    | .op (.jitter _) next => some (.quiet, sys.setProg i (next value))
    | _ => none
  | .leases i =>
    match (sys.replica i).prog with
    | .op (.leases update) next =>
      let table := (sys.replica i).leases
      some (.quiet, sys.setReplica i
        { sys.replica i with prog := next table, leases := update table })
    | _ => none
  | .client now call =>
    match call with
    | .claim _ => none
    | call =>
      match sys.store.exec ids now call with
      | .error _ => none
      | .ok (reply, store) => some (.client (.body now call reply), { sys with store := store })

/-- The transition relation of the whole system. -/
def Step (ids : IdSupply) (sys : System ι Target) (event : SystemEvent ι Target)
    (next : System ι Target) : Prop :=
  ∃ action, sys.step ids action = some (event, next)

/-- Take the listed choices one after another. -/
def replay (ids : IdSupply) (sys : System ι Target) :
    List (Action ι Target) → Option (List (SystemEvent ι Target) × System ι Target)
  | [] => some ([], sys)
  | action :: rest =>
    match sys.step ids action with
    | none => none
    | some (event, next) =>
      match next.replay ids rest with
      | none => none
      | some (history, last) => some (event :: history, last)

theorem replay_run {ids : IdSupply} {sys last : System ι Target} {actions : List (Action ι Target)}
    {history : List (SystemEvent ι Target)} (h : sys.replay ids actions = some (history, last)) :
    Run (Step ids) sys history last := by
  induction actions generalizing sys history with
  | nil =>
    cases h
    exact .nil _
  | cons action rest ih =>
    simp only [replay] at h
    split at h
    · cases h
    case h_2 event next hstep =>
      split at h
      · cases h
      case h_2 tail v hrest =>
        cases h
        exact .cons ⟨action, hstep⟩ (ih hrest)

/-- A decidable fact about the end of a replay is a fact about a run. -/
theorem exists_run (ids : IdSupply) (sys : System ι Target) (actions : List (Action ι Target))
    (check : List (SystemEvent ι Target) → System ι Target → Bool)
    (h : (sys.replay ids actions).any (fun result => check result.1 result.2) = true) :
    ∃ history last, Run (Step ids) sys history last ∧ check history last = true := by
  obtain ⟨⟨history, last⟩, hreplay, hcheck⟩ := (Option.any_eq_true _ _).mp h
  exact ⟨history, last, replay_run hreplay, hcheck⟩

end Step

/-- Idle replicas over an empty store. -/
def init (config : ι → SchedulerConfig) (backoff : ι → RetryBackoffPolicy) : System ι Target where
  store := .empty
  replica i := ⟨config i, backoff i, .ret (), ∅⟩

end System

/-! ## What a replica has seen -/

/-- The last store time and the last due scan a replica received. -/
structure View (Target : Type) where
  now : DurableUtcTimestamp
  snapshot : List (TaskRecord Target)

def View.start : View Target := ⟨0, []⟩

def View.seen (view : View Target) : (op : SchedulerOp Target) → op.Answer → View Target
  | .store .now, .ok (.now now) => { view with now := now }
  | .store (.scanDue _), .ok (.records records) => { view with snapshot := records }
  | _, _ => view

/-- A claim is only issued for a record of the last scan whose backoff had passed
at the last time read. -/
def View.Allows (view : View Target) : SchedulerOp Target → Prop
  | .store (.claim input) => ∃ record ∈ view.snapshot, record.taskId = input.taskId ∧
      ∀ notBefore, record.retryNotBefore = some notBefore → notBefore ≤ view.now
  | _ => True

namespace Scheduler

variable {config : SchedulerConfig} {backoff : RetryBackoffPolicy} {now : DurableUtcTimestamp}
variable {view : View Target}

theorem callStore_wp {call : StoreCall Target}
    {post : View Target → Except TaskStoreError (StoreReply Target) → Prop}
    (hallowed : view.Allows (.store call))
    (h : ∀ answer : Except TaskStoreError (StoreReply Target),
      post (view.seen (.store call) answer) answer) :
    (callStore call).wp View.seen View.Allows view post :=
  ⟨hallowed, h⟩

theorem drawDelay_wp {generation : Nat} {post : View Target → Int → Prop}
    (h : ∀ delay, post view delay) :
    (drawDelay backoff generation : SchedulerProg Target Int).wp View.seen View.Allows view post :=
  ⟨trivial, fun _ => h _⟩

theorem updateLeases_wp {update : LeaseTable → LeaseTable} {post : View Target → LeaseTable → Prop}
    (h : ∀ table, post view table) :
    (updateLeases update : SchedulerProg Target LeaseTable).wp View.seen View.Allows view post :=
  ⟨trivial, h⟩

variable {post : View Target → Unit → Prop} {records : List (TaskRecord Target)}

theorem removeActiveLeaseIf_wp {taskId : TaskId} {leaseId : LeaseId} (h : post view ()) :
    (removeActiveLeaseIf taskId leaseId : SchedulerProg Target Unit).wp View.seen View.Allows
      view post :=
  wp_bind (updateLeases_wp fun _ => h)

/-- Whatever the decision, nothing it leads to is a claim or changes the view. -/
theorem handleDecision_wp {record : TaskRecord Target} {decision : AdmissionDecision}
    (h : post view ()) :
    (handleDecision backoff record decision now).wp View.seen View.Allows view post := by
  cases decision with
  | accepted =>
    simp only [handleDecision]
    split
    · exact h
    · exact wp_bind (updateLeases_wp fun _ => h)
  | rejectedProvable =>
    simp only [handleDecision]
    split
    · exact h
    refine wp_bind (drawDelay_wp fun delay => ?_)
    split
    · exact h
    · exact wp_bind (callStore_wp trivial fun _ => removeActiveLeaseIf_wp h)
  | uncertain => exact h
  | permanentFailure reason =>
    simp only [handleDecision]
    split
    · exact h
    · exact wp_bind (callStore_wp trivial fun _ => removeActiveLeaseIf_wp h)

theorem scanLoop_wp (hnow : view.now = now) (hseen : ∀ record ∈ records, record ∈ view.snapshot) :
    (scanLoop config backoff now records).wp View.seen View.Allows view fun _ _ => True := by
  induction records with
  | nil => trivial
  | cons record rest ih =>
    have ih := ih (fun other hmem => hseen other (.tail _ hmem))
    simp only [scanLoop]
    split
    · exact ih
    split
    · exact ih
    case isFalse hpassed =>
      split
      · exact ih
      split
      · exact ih
      refine wp_bind (callStore_wp ?_ fun answer => ?_)
      · refine ⟨record, hseen record (.head _), rfl, fun notBefore hset => ?_⟩
        have : ¬ notBefore > now := by simpa [hset] using hpassed
        rw [hnow]
        exact not_lt.mp this
      split
      · refine wp_bind ⟨trivial, fun decision => ?_⟩
        exact wp_bind (handleDecision_wp ih)
      · exact ih

variable (config : SchedulerConfig)

theorem scanOnce_wp (backoff : RetryBackoffPolicy) (view : View Target) :
    (scanOnce config backoff).wp View.seen View.Allows view fun _ _ => True := by
  refine wp_bind (callStore_wp trivial fun answer => ?_)
  split
  · refine wp_bind (callStore_wp trivial fun answer => ?_)
    split
    · refine wp_bind (wp_mono (scanLoop_wp rfl fun _ hmem => hmem) ?_)
      exact fun _ _ _ => trivial
    · trivial
  · trivial

theorem recoverLoop_wp :
    (recoverLoop backoff now records).wp View.seen View.Allows view fun _ _ => True := by
  induction records with
  | nil => trivial
  | cons record rest ih =>
    simp only [recoverLoop]
    split
    · exact ih
    split
    · exact ih
    refine wp_bind (drawDelay_wp fun delay => ?_)
    split
    · exact ih
    refine wp_bind (callStore_wp trivial fun answer => ?_)
    split
    · exact wp_bind (removeActiveLeaseIf_wp ih)
    · exact ih

theorem recoverOnce_wp (backoff : RetryBackoffPolicy) (view : View Target) :
    (recoverOnce config backoff).wp View.seen View.Allows view fun _ _ => True := by
  refine wp_bind (callStore_wp trivial fun answer => ?_)
  split
  · refine wp_bind (callStore_wp trivial fun answer => ?_)
    split
    · exact recoverLoop_wp
    · trivial
  · trivial

theorem renewLoop_wp {entries : List (TaskId × TaskLease)} :
    (renewLoop now entries : SchedulerProg Target Unit).wp View.seen View.Allows view
      fun _ _ => True := by
  induction entries with
  | nil => trivial
  | cons entry rest ih =>
    refine wp_bind (callStore_wp trivial fun answer => ?_)
    split
    · split
      · exact ih
      · exact wp_bind (updateLeases_wp fun _ => ih)
    · exact ih
    · exact wp_bind (removeActiveLeaseIf_wp ih)
    · exact ih

theorem renewActiveLeases_wp (order : LeaseOrder) (view : View Target) :
    (renewActiveLeases config order).wp View.seen View.Allows view fun _ _ => True := by
  refine wp_bind (callStore_wp trivial fun answer => ?_)
  split
  · split
    · trivial
    · exact wp_bind (updateLeases_wp fun _ => renewLoop_wp)
  · trivial

end Scheduler

/-- No loop issues a claim its view does not allow. -/
theorem Replica.loop_wp (replica : Replica Target) (loop : SchedulerLoop) (view : View Target) :
    (replica.loop loop).wp View.seen View.Allows view fun _ _ => True := by
  cases loop with
  | scan => exact wp_bind (scanOnce_wp ..)
  | recover => exact recoverOnce_wp ..
  | renew order => exact renewActiveLeases_wp ..

end Skiff.Task
