import Mathlib.Data.List.Perm.Basic
import Skiff.Task.MongoHistory
import Skiff.Task.Backoff

/-!
# What a due scan claims

`scan_due` of both stores cuts the due records at the batch limit in the order of their due times.
`scan_once` skips the records of the batch that are held back by `retryNotBefore`, and claims the
others. A full batch of records that are held back so hides every record behind it.
-/

namespace Skiff.Task

open MemoryState List TaskRecord DurableUtcTimestamp
open DocumentServer (Documented)

variable {Target : Type}

namespace TaskRecord

/-- The backoff of the record has not passed. -/
def heldBack (now : DurableUtcTimestamp) (record : TaskRecord Target) : Bool :=
  record.retryNotBefore.any (· > now)

/-- The record can be claimed at `now`, once the scan has made it ready. -/
def claimable (now : DurableUtcTimestamp) (record : TaskRecord Target) : Bool :=
  (record.state = .scheduled || record.state = .ready) && record.dueAt ≤ now && !record.heldBack now

def dueReady (now : DurableUtcTimestamp) (record : TaskRecord Target) : Bool :=
  record.state = .ready ∧ record.dueAt ≤ now

end TaskRecord

/-- The records that a scan of the stored ones makes ready or finds ready, by due time. Records with
one due time may stand in any order. -/
structure DueOrder (now : DurableUtcTimestamp) (stored order : List (TaskRecord Target)) :
    Prop where
  perm : order.Perm ((stored.map (scanRecord now)).filter (·.dueReady now))
  sorted : order.Pairwise fun record other => record.dueAt ≤ other.dueAt

section

variable {now : DurableUtcTimestamp} {stored order other : List (TaskRecord Target)}
  {record : TaskRecord Target}

theorem scanRecord_cases : scanRecord now record = record ∨
    record.state = .scheduled ∧ record.dueAt ≤ now ∧
      scanRecord now record = { record with state := .ready } := by
  cases hadvance : advanceDue record now with
  | none => exact .inl (by rw [scanRecord, hadvance]; rfl)
  | some next =>
    obtain ⟨hstate, hdue, rfl⟩ := advanceDue_eq_some.mp hadvance
    exact .inr ⟨hstate, hdue, by rw [scanRecord, hadvance]; rfl⟩

/-- A record of the scan that is not held back comes from a claimable one of the same task. -/
theorem DueOrder.claimable (horder : DueOrder now stored order) (hrecord : record ∈ order)
    (hpassed : record.heldBack now = false) :
    ∃ source ∈ stored, source.claimable now = true ∧ source.taskId = record.taskId := by
  obtain ⟨hmem, hready⟩ := mem_filter.mp (horder.perm.subset hrecord)
  obtain ⟨source, hsource, rfl⟩ := mem_map.mp hmem
  obtain ⟨hstate, hdue⟩ := of_decide_eq_true hready
  refine ⟨source, hsource, ?_⟩
  obtain heq | ⟨hscheduled, hsourceDue, heq⟩ := @scanRecord_cases _ now source
  · rw [heq] at hstate hdue hpassed ⊢
    simp [claimable, hstate, hdue, hpassed]
  rw [heq] at hpassed ⊢
  have hnot : source.heldBack now = false := hpassed
  simp [claimable, hscheduled, hsourceDue, hnot]

/-- A claimable record stands in the order, ready and with its due time. -/
theorem DueOrder.mem_of_claimable (h : DueOrder now stored order)
    (hmem : record ∈ stored) (hclaimable : record.claimable now = true) :
    ∃ found ∈ order, found.taskId = record.taskId ∧ found.dueAt = record.dueAt ∧
      found.state = .ready ∧ found.heldBack now = false := by
  simp only [TaskRecord.claimable, Bool.and_eq_true, Bool.or_eq_true, Bool.not_eq_true',
    decide_eq_true_eq]
    at hclaimable
  obtain ⟨⟨hstate, hdue⟩, hpassed⟩ := hclaimable
  have hfound : (scanRecord now record).taskId = record.taskId ∧
      (scanRecord now record).dueAt = record.dueAt ∧ (scanRecord now record).state = .ready ∧
      (scanRecord now record).heldBack now = false := by
    obtain hscheduled | hready := hstate
    · rw [scanRecord, advanceDue_eq_some.mpr ⟨hscheduled, hdue, rfl⟩]
      exact ⟨rfl, rfl, rfl, hpassed⟩
    obtain heq | ⟨hscheduled, -⟩ := @scanRecord_cases _ now record
    · rw [heq]
      exact ⟨rfl, rfl, hready, hpassed⟩
    rw [hready] at hscheduled
    cases hscheduled
  obtain ⟨hid, hsame, hready, hheld⟩ := hfound
  refine ⟨_, h.perm.mem_iff.mpr (mem_filter.mpr ⟨mem_map_of_mem hmem, ?_⟩), hid, hsame, hready,
    hheld⟩
  simp [dueReady, hready, hsame, hdue]

theorem DueOrder.nodup (h : DueOrder now stored order) (hids : (stored.map taskId).Nodup) :
    (order.map taskId).Nodup := by
  have hsame : (stored.map (scanRecord now)).map taskId = stored.map taskId := by
    rw [map_map]
    refine map_congr_left fun record _ => ?_
    obtain heq | ⟨-, -, heq⟩ := @scanRecord_cases _ now record <;> rw [Function.comp, heq]
  refine (h.perm.map taskId).nodup_iff.mpr ?_
  exact (hsame ▸ hids).sublist (filter_sublist.map taskId)

theorem DueOrder.dueAt_eq (h : DueOrder now stored order) (h' : DueOrder now stored other) :
    order.map dueAt = other.map dueAt :=
  ((h.perm.trans h'.perm.symm).map dueAt).eq_of_pairwise (fun _ _ _ _ => le_antisymm)
    (pairwise_map.mpr h.sorted) (pairwise_map.mpr h'.sorted)

end

/-! ## The scans of the stores -/

variable {records : List (TaskRecord Target)}

section

variable {now : DurableUtcTimestamp}

theorem MemoryState.scanDue_values (s : MemoryState Target) (input : DueScanInput) :
    (s.scanDue now input).2.records.values = s.records.values.map (scanRecord now) := by
  show (s.records.map (scanRecord now)).values = _
  rw [OrdMap.values, OrdMap.values, OrdMap.map, map_map, map_map]
  rfl

/-- The memory store answers a scan with the first records in the order of due times. -/
theorem MemoryState.scanDue_order (s : MemoryState Target) (input : DueScanInput) :
    ∃ order, DueOrder now s.records.values order ∧
      (s.scanDue now input).1 = order.take input.limit := by
  refine ⟨_, ⟨?_, ?_⟩, rfl⟩
  · rw [← s.scanDue_values input]
    exact perm_insertionSort _ _
  · exact pairwise_insertionSort _ _

namespace Mongo

/-- The documents that `find().limit(..)` lets through. Zero asks for no limit, and a negative
number counts by its absolute value. -/
def limited (limit : Int) (found : List Document) : List Document :=
  if limit = 0 then found else found.take limit.natAbs

/-- `limit as i64`. -/
def limitAsI64 (limit : Nat) : Int := (limit : Int).bmod (2 ^ 64)

theorem limited_eq_take {limit : Nat} (hlimit : limit ∈ Set.Ico 1 (2 ^ 63))
    (found : List Document) : limited (limitAsI64 limit) found = found.take limit := by
  rw [Set.mem_Ico] at hlimit
  have hsame : limitAsI64 limit = limit := by
    refine Int.bmod_eq_of_le ?_ ?_ <;> omega
  have hne : (limit : Int) ≠ 0 := by omega
  rw [hsame, limited, if_neg hne, Int.natAbs_natCast]

variable {codec : DocumentCodec Target}

/-- The document holds the record, which is well formed. -/
def Holds (codec : DocumentCodec Target) (d : Document) (record : TaskRecord Target) : Prop :=
  documentToRecord codec d = .ok record ∧ record.WellFormed

variable {record : TaskRecord Target}

def Decodes (codec : DocumentCodec Target) (d : Document) (record : TaskRecord Target) : Prop :=
  documentToRecord codec d = .ok record

/-- Documents in the order of their due dates hold records in the order of their due times. -/
theorem sorted_of_decodes {order : List Document}
    (h : Forall₂ (Decodes codec) order records) (hsorted : order.Pairwise fun d other =>
      Bson.before (Bson.temporal (other.get? "dueAt")) (Bson.temporal (d.get? "dueAt")) = false) :
    records.Pairwise fun record other => record.dueAt ≤ other.dueAt := by
  induction h with
  | nil => exact .nil
  | @cons d record order records hd hrest ih =>
    obtain ⟨hfirst, hsorted⟩ := pairwise_cons.mp hsorted
    refine pairwise_cons.mpr ⟨fun other hother => ?_, ih hsorted⟩
    obtain ⟨d', hd', hother⟩ := exists_of_mem_right hrest hother
    have hbefore := hfirst d' hd'
    rw [(documentToRecord_eq_ok.mp hd).dueAt, (documentToRecord_eq_ok.mp hother).dueAt] at hbefore
    simpa using hbefore

variable [DocumentServer]

/-- One document after the `update_many` of the scan. -/
def scanDueDocument (now : DurableUtcTimestamp) (d : Document) : Document :=
  match scanDueWrite now d with
  | .updated d' => d'
  | .unmatched => d
  | .rejected => d

/-- `scan_due_once` on a collection: the due documents, in some order of their due dates, up to
the limit. -/
structure ScanDue (codec : DocumentCodec Target) (now : DurableUtcTimestamp) (limit : Nat)
    (tasks : List Document) (order : List Document) (records : List (TaskRecord Target)) :
    Prop where
  perm : order.Perm ((tasks.map (scanDueDocument now)).filter fun d =>
    [Clause.equals ["state"] "ready", dueNow].all (DocumentServer.holds now d))
  sorted : order.Pairwise fun d other =>
    Bson.before (Bson.temporal (other.get? "dueAt")) (Bson.temporal (d.get? "dueAt")) = false
  decoded : (limited (limitAsI64 limit) order).mapM (documentToRecord codec) = .ok records

/-- The update of the scan does to a document what the memory store does to its record. -/
theorem decodes_scanDueDocument [Documented] {d : Document} (h : Holds codec d record) :
    documentToRecord codec (scanDueDocument now d) = .ok (scanRecord now record) := by
  have hagrees := @scanDueWrite_agrees _ codec d record now (documentToRecord_eq_ok.mp h.1) _ _ h.2
  rw [scanDueDocument, scanRecord]
  cases hadvance : advanceDue record now with
  | none =>
    rw [hadvance] at hagrees
    rw [show scanDueWrite now d = .unmatched from hagrees]
    exact h.1
  | some next =>
    rw [hadvance] at hagrees
    obtain ⟨d', hd', hdecodes⟩ := hagrees
    rw [hd']
    obtain ⟨hstate, -, rfl⟩ := advanceDue_eq_some.mp hadvance
    have hterminal := h.2.terminal_eq_none (by simp [hstate, TaskState.isTerminal])
    rw [settledAtServer_of_none (by exact hterminal)] at hdecodes
    exact hdecodes

theorem dueReady_of_decodes [Documented] (now : DurableUtcTimestamp) {d : Document}
    (h : Decodes codec d record) :
    [Clause.equals ["state"] "ready", dueNow].all (DocumentServer.holds now d) = true ↔
      record.dueReady now = true := by
  rw [Documented.holds_eq]
  have hd := documentToRecord_eq_ok.mp h
  have hstate := hd.stateClause now .ready
  rw [all_cons, all_cons, all_nil, hd.dueClause, dueReady,
    show (Clause.equals ["state"] "ready").holds now d = _ from hstate]
  simp

section

variable {limit : Nat} {tasks order : List Document} {stored records : List (TaskRecord Target)}
  [Documented] (htasks : Forall₂ (Holds codec) tasks stored)
include htasks

theorem decodes_scanned : Forall₂ (Decodes codec) (tasks.map (scanDueDocument now))
    (stored.map (scanRecord now)) := by
  rw [forall₂_map_left_iff, forall₂_map_right_iff]
  exact htasks.imp fun d record => decodes_scanDueDocument

/-- The records that the Mongo store answers are the first ones in an order of due times. -/
theorem ScanDue.dueOrder (hlimit : limit ∈ Set.Ico 1 (2 ^ 63))
    (h : ScanDue codec now limit tasks order records) :
    ∃ order', DueOrder now stored order' ∧ records = order'.take limit := by
  have hfilter := rel_filter (fun d record hd => dueReady_of_decodes now hd)
    (@decodes_scanned _ now _ _ _ _ _ htasks)
  obtain ⟨order', horder, hperm⟩ := perm_comp_forall₂ h.perm hfilter
  refine ⟨order', ⟨hperm, sorted_of_decodes horder h.sorted⟩, ?_⟩
  have hdecoded := forall₂_of_mapM h.decoded
  rw [limited_eq_take hlimit] at hdecoded
  have htake := forall₂_take limit horder
  refine right_unique_forall₂' (fun d record other hd hother => ?_) hdecoded htake
  exact Except.ok.inj (hd.symm.trans hother)

end

end Mongo

/-- Both stores hold the same records after a scan. Up to a limit that is a positive `i64` they
answer with the same number of records due at the same times, and with the same ones if no two
are due at one time. -/
theorem scans_agree [DocumentServer] [Documented] {s : MemoryState Target} {input : DueScanInput}
    (hlimit : input.limit ∈ Set.Ico 1 (2 ^ 63)) {tasks found : List Document}
    {records : List (TaskRecord Target)}
    (htasks : Forall₂ (Mongo.Holds codec) tasks s.records.values)
    (h : Mongo.ScanDue codec now input.limit tasks found records) :
    Forall₂ (Mongo.Decodes codec) (tasks.map (Mongo.scanDueDocument now))
        (s.scanDue now input).2.records.values ∧
      records.map dueAt = (s.scanDue now input).1.map dueAt ∧
      ((((s.scanDue now input).2.records.values.filter (·.dueReady now)).map dueAt).Nodup →
        records = (s.scanDue now input).1) := by
  obtain ⟨order, horder, hmemory⟩ := @MemoryState.scanDue_order _ now s input
  obtain ⟨order', horder', rfl⟩ := h.dueOrder htasks hlimit
  have hdue := horder'.dueAt_eq horder
  rw [s.scanDue_values, hmemory, map_take, map_take, hdue]
  refine ⟨?_, rfl, fun hdistinct => ?_⟩
  · rw [forall₂_map_left_iff, forall₂_map_right_iff]
    exact htasks.imp fun d record => Mongo.decodes_scanDueDocument
  have hsame : order'.Perm order := horder'.perm.trans horder.perm.symm
  rw [hsame.eq_of_pairwise (fun a b ha hb hle hge => ?_) horder'.sorted horder.sorted]
  exact inj_on_of_nodup_map hdistinct (horder'.perm.subset ha) (horder.perm.subset hb)
    (le_antisymm hle hge)

end

/-! ## The claims of a scan -/

namespace Scheduler

/-- An operation of a scheduler with the answer to it. -/
abbrev Performed (Target : Type) := (o : SchedulerOp Target) × o.Answer

/-- The tasks that are claimed in a run, whatever comes of it. -/
def claimed (trace : List (Performed Target)) : List TaskId :=
  trace.filterMap fun performed =>
    match performed.1 with
    | .store (.claim input) => some input.taskId
    | _ => none

/-- The store answers at `now`, and scans the records in this order. -/
structure Answers (now : DurableUtcTimestamp) (order : List (TaskRecord Target))
    (trace : List (Performed Target)) : Prop where
  now : ∀ answer, ⟨.store .now, answer⟩ ∈ trace → answer = .ok (.now now)
  scanDue : ∀ input answer, ⟨.store (.scanDue input), answer⟩ ∈ trace →
    answer = .ok (.records (order.take input.limit))

def isClaim : SchedulerOp Target → Bool
  | .store (.claim _) => true
  | _ => false

theorem claimed_append (before after : List (Performed Target)) :
    claimed (before ++ after) = claimed before ++ claimed after :=
  filterMap_append

variable {trace : List (Performed Target)}

theorem claimed_cons_of_not {performed : Performed Target}
    (h : isClaim performed.1 = false) : claimed (performed :: trace) = claimed trace := by
  obtain ⟨op, answer⟩ := performed
  rw [claimed, filterMap_cons]
  split
  case h_1 => rfl
  case h_2 taskId hsome =>
    exfalso
    split at hsome
    case h_1 input heq =>
      cases heq
      cases h
    case h_2 => cases hsome

theorem claimed_eq_nil
    (h : ∀ performed ∈ trace, isClaim performed.1 = false) : claimed trace = [] := by
  induction trace with
  | nil => rfl
  | cons performed rest ih =>
    rw [claimed_cons_of_not (h performed mem_cons_self)]
    exact ih fun performed hmem => h performed (.tail _ hmem)

section

variable {config : SchedulerConfig} {backoff : RetryBackoffPolicy} {now : DurableUtcTimestamp}

theorem removeActiveLeaseIf_quiet (taskId : TaskId) (leaseId : LeaseId) :
    Prog.wp (fun _ _ _ => ()) (fun _ op => isClaim op = false)
      (removeActiveLeaseIf taskId leaseId : SchedulerProg Target Unit) () fun _ _ => True :=
  ⟨rfl, fun _ => trivial⟩

/-- What follows an admission claims nothing. -/
theorem handleDecision_quiet (record : TaskRecord Target) (decision : AdmissionDecision) :
    Prog.wp (fun _ _ _ => ()) (fun _ op => isClaim op = false)
      (handleDecision backoff record decision now) () fun _ _ => True := by
  cases decision with
  | uncertain => exact trivial
  | accepted =>
    rw [handleDecision]
    cases record.activeLease with
    | none => exact trivial
    | some lease => exact ⟨rfl, fun _ => trivial⟩
  | permanentFailure reason =>
    rw [handleDecision]
    cases record.activeLease with
    | none => exact trivial
    | some lease => exact ⟨rfl, fun _ => removeActiveLeaseIf_quiet _ _⟩
  | rejectedProvable =>
    rw [handleDecision]
    cases record.activeLease with
    | none => exact trivial
    | some lease =>
      refine ⟨rfl, fun jitter => ?_⟩
      dsimp only [Prog.bind, pure]
      split
      · exact trivial
      · exact ⟨rfl, fun _ => removeActiveLeaseIf_quiet _ _⟩

/-- The records of a batch that the loop claims. -/
def attempts (config : SchedulerConfig) (now : DurableUtcTimestamp) (record : TaskRecord Target) :
    Bool :=
  record.state = .ready && !record.heldBack now && config.imageActivatable &&
    (checkedAddMillis now config.leaseDuration).isSome

variable {trace : List (Performed Target)}

/-- The loop claims each record that it attempts, in turn. -/
theorem claimed_scanLoop (h : (scanLoop config backoff now records).Runs trace ()) :
    claimed trace = (records.filter (attempts config now)).map taskId := by
  induction records generalizing trace with
  | nil =>
    cases h
    rfl
  | cons record rest ih =>
    rw [scanLoop] at h
    split at h
    case isTrue hstate =>
      rw [filter_cons_of_neg (by simp [attempts, hstate])]
      exact ih h
    case isFalse hstate =>
      split at h
      case isTrue hheld =>
        rw [filter_cons_of_neg (by simp [attempts, heldBack, hheld])]
        exact ih h
      case isFalse hheld =>
        split at h
        case isTrue hinactive =>
          rw [filter_cons_of_neg (by simp_all [attempts])]
          exact ih h
        case isFalse hactive =>
          split at h
          case h_1 hexpiry =>
            rw [filter_cons_of_neg (by simp [attempts, hexpiry])]
            exact ih h
          case h_2 leaseExpiry hexpiry =>
            rw [filter_cons_of_pos (by
              simp_all [attempts, heldBack]), map_cons]
            obtain ⟨answer, after, rfl, hafter⟩ := Prog.runs_op.mp h
            rw [show claimed (_ :: after) = record.taskId :: claimed after from rfl]
            refine congrArg (record.taskId :: ·) ?_
            cases answer with
            | error failure => exact ih hafter
            | ok reply =>
              cases reply with
              | claim outcome =>
                cases outcome with
                | rejected reason => exact ih hafter
                | claimed next =>
                  -- the admission and what it leads to claim nothing
                  obtain ⟨decision, more, rfl, hmore⟩ := Prog.runs_op.mp hafter
                  have hdecide : (handleDecision backoff next decision now >>= fun _ =>
                      scanLoop config backoff now rest).Runs more () := hmore
                  obtain ⟨decided, _, looped, rfl, hdecided, hlooped⟩ := Prog.Runs.of_bind hdecide
                  have hquiet := hdecided.ok_of_wp (handleDecision_quiet next decision)
                  rw [claimed_cons_of_not rfl, claimed_append, claimed_eq_nil hquiet, nil_append]
                  exact ih hlooped
              | _ => exact ih hafter

/-- The claims of a whole scan. -/
theorem claimed_scanOnce {order : List (TaskRecord Target)}
    {more : Bool} (h : (scanOnce config backoff).Runs trace more)
    (hanswers : Answers now order trace) :
    claimed trace = ((order.take config.batchLimit).filter (attempts config now)).map taskId := by
  rw [scanOnce] at h
  obtain ⟨time, afterNow, rfl, hafterNow⟩ := Prog.runs_op.mp h
  have hnow := hanswers.now time (.head _)
  rw [hnow] at hafterNow
  obtain ⟨batch, afterScan, rfl, hafterScan⟩ := Prog.runs_op.mp hafterNow
  have hscan := hanswers.scanDue ⟨config.batchLimit⟩ batch (.tail _ (.head _))
  rw [hscan] at hafterScan
  have hloop : (scanLoop config backoff now (order.take config.batchLimit) >>= fun _ =>
      pure (decide (config.batchLimit ≤ (order.take config.batchLimit).length))).Runs
        afterScan more := hafterScan
  obtain ⟨looped, _, ended, rfl, hlooped, hended⟩ := Prog.Runs.of_bind hloop
  obtain ⟨rfl, -⟩ := Prog.runs_ret.mp hended
  rw [claimed_cons_of_not rfl, claimed_cons_of_not rfl, append_nil]
  exact claimed_scanLoop hlooped

/-- A scan claims each task once, at most as many as the batch, only claimable ones, and none before
a claimable one that is due earlier. -/
theorem scanOnce_in_due_order {stored order : List (TaskRecord Target)} {more : Bool}
 (hids : (stored.map taskId).Nodup)
    (horder : DueOrder now stored order) (h : (scanOnce config backoff).Runs trace more)
    (hanswers : Answers now order trace) :
    (claimed trace).Nodup ∧ (claimed trace).length ≤ config.batchLimit ∧
      ∀ record ∈ stored, record.taskId ∈ claimed trace → record.claimable now = true ∧
        ∀ other ∈ stored, other.claimable now = true → other.dueAt < record.dueAt →
          other.taskId ∈ claimed trace := by
  rw [claimed_scanOnce h hanswers]
  have hsub : ((order.take config.batchLimit).filter (attempts config now)).Sublist order :=
    filter_sublist.trans (take_sublist _ _)
  refine ⟨(horder.nodup hids).sublist (hsub.map taskId), ?_, fun record hmem hclaimed => ?_⟩
  · rw [length_map]
    exact (length_filter_le _ _).trans (length_take_le _ _)
  obtain ⟨found, hfound, hid⟩ := mem_map.mp hclaimed
  obtain ⟨hbatch, hattempts⟩ := mem_filter.mp hfound
  simp only [attempts, Bool.and_eq_true, Bool.not_eq_true'] at hattempts
  obtain ⟨source, hsource, hclaimable, hsame⟩ :=
    horder.claimable (hsub.subset hfound) hattempts.1.1.2
  obtain rfl := inj_on_of_nodup_map hids hsource hmem (hsame.trans hid)
  refine ⟨hclaimable, fun other hother hready hearlier => ?_⟩
  obtain ⟨first, hfirst, hfirstId, hfirstDue, hstate, hheld⟩ :=
    horder.mem_of_claimable hother hready
  obtain ⟨same, hsame', hsameId, hsameDue, -⟩ := horder.mem_of_claimable hsource hclaimable
  obtain rfl := inj_on_of_nodup_map (horder.nodup hids) hsame' (hsub.subset hfound)
    (hsameId.trans hsame)
  refine mem_map.mpr ⟨first, mem_filter.mpr ⟨?_, ?_⟩, hfirstId⟩
  · by_contra hlate
    have hdrop : first ∈ order.drop config.batchLimit := by
      rw [← take_append_drop config.batchLimit order] at hfirst
      exact (mem_append.mp hfirst).resolve_left hlate
    have hsorted := horder.sorted
    rw [← take_append_drop config.batchLimit order] at hsorted
    have hle := (pairwise_append.mp hsorted).2.2 same hbatch first hdrop
    rw [hsameDue, hfirstDue] at hle
    exact absurd hle (not_le.mpr hearlier)
  simp only [attempts, hstate, hheld, hattempts.1.2, hattempts.2]
  rfl

end

/-! ## A batch of three -/

def batchOfThree : SchedulerConfig := ⟨"scheduler", 3, 60000, true⟩

/-- A ready record that is due at 5 and held back until 100. -/
def heldRecord : TaskRecord Unit :=
  { sampleReady with taskId := ⟨"task-1"⟩, dueAt := 5, retryNotBefore := some 100 }

/-- A ready record that is due at 10. -/
def dueRecord : TaskRecord Unit := { sampleReady with taskId := ⟨"task-2"⟩ }

/-- A scheduled record that is due at 7. -/
def earlierRecord : TaskRecord Unit :=
  { sampleReady with taskId := ⟨"task-3"⟩, dueAt := 7, state := .scheduled }

/-- A ready record that is due at 15. -/
def lateRecord : TaskRecord Unit := { sampleReady with taskId := ⟨"task-4"⟩, dueAt := 15 }

def storedRecords : List (TaskRecord Unit) := [heldRecord, dueRecord, earlierRecord, lateRecord]

def scannedRecords : List (TaskRecord Unit) :=
  [heldRecord, { earlierRecord with state := .ready }, dueRecord, lateRecord]

def sampleStore : MemoryState Unit :=
  storedRecords.foldl (fun s record => s.put record.taskId record) empty

theorem scannedRecords_dueOrder : DueOrder 20 storedRecords scannedRecords where
  perm := .cons _ (.swap _ _ _)
  sorted := by decide

def sampleDocument (record : TaskRecord Unit) : Document :=
  (Mongo.recordDocument sampleCodec record).toOption.getD []

theorem sampleDocument_holds :
    Forall₂ (Mongo.Holds sampleCodec) (storedRecords.map sampleDocument) storedRecords := by
  refine .cons ⟨rfl, ?_⟩ (.cons ⟨rfl, ?_⟩ (.cons ⟨rfl, ?_⟩ (.cons ⟨rfl, ?_⟩ .nil))) <;>
    constructor <;> decide

theorem sampleDocument_scanDue :
    Mongo.ScanDue sampleCodec 20 3 (storedRecords.map sampleDocument)
      (scannedRecords.map sampleDocument) (scannedRecords.take 3) where
  perm := .cons _ (.swap _ _ _)
  sorted := by decide
  decoded := by
    rw [Mongo.limited_eq_take (by decide)]
    rfl

theorem scans_agree_several :
    (scannedRecords.take 3).map dueAt = (sampleStore.scanDue 20 ⟨3⟩).1.map dueAt ∧
      (sampleStore.scanDue 20 ⟨3⟩).1 = scannedRecords.take 3 := by
  have hagree := @scans_agree _ 20 sampleCodec _ _ sampleStore ⟨3⟩ (by decide) _ _ _
    sampleDocument_holds sampleDocument_scanDue
  exact ⟨hagree.2.1, (hagree.2.2 (by decide)).symm⟩

/-- The scan of a full batch whose first record is held back; one claim is refused. -/
def claimTrace : List (Performed Unit) :=
  [⟨.store .now, .ok (.now 20)⟩,
    ⟨.store (.scanDue ⟨3⟩), .ok (.records (scannedRecords.take 3))⟩,
    ⟨.store (.claim ⟨⟨"task-3"⟩, "scheduler", 60020, true⟩),
      .ok (.claim (.rejected .alreadyLeased))⟩,
    ⟨.store (.claim ⟨⟨"task-2"⟩, "scheduler", 60020, true⟩),
      .ok (.claim (.rejected .alreadyLeased))⟩]

theorem claimTrace_runs : (scanOnce batchOfThree sampleBackoff).Runs claimTrace true :=
  .op _ (.op _ (.op _ (.op _ (.ret true))))

theorem claimTrace_answers : Answers 20 scannedRecords claimTrace := by
  constructor
  · intro answer hmem
    simp only [claimTrace, mem_cons, not_mem_nil, or_false] at hmem
    obtain heq | heq | heq | heq := hmem <;> cases heq
    rfl
  intro input answer hmem
  simp only [claimTrace, mem_cons, not_mem_nil, or_false] at hmem
  obtain heq | heq | heq | heq := hmem <;> cases heq
  rfl

theorem scanOnce_in_due_order_claimed :
    claimed claimTrace = [⟨"task-3"⟩, ⟨"task-2"⟩] ∧
      (claimed claimTrace).Nodup ∧ (claimed claimTrace).length ≤ 3 ∧
      ∀ record ∈ storedRecords, record.taskId ∈ claimed claimTrace →
        record.claimable 20 = true ∧
          ∀ other ∈ storedRecords, other.claimable 20 = true → other.dueAt < record.dueAt →
            other.taskId ∈ claimed claimTrace :=
  ⟨rfl, scanOnce_in_due_order (by decide) scannedRecords_dueOrder claimTrace_runs
    claimTrace_answers⟩

/-! ## A batch that is held back -/

def batchOfOne : SchedulerConfig := ⟨"scheduler", 1, 60000, true⟩

def heldStore : MemoryState Unit :=
  (empty.put heldRecord.taskId heldRecord).put dueRecord.taskId dueRecord

/-- The scan that is answered with the held record alone. -/
def heldTrace : List (Performed Unit) :=
  [⟨.store .now, .ok (.now 20)⟩, ⟨.store (.scanDue ⟨1⟩), .ok (.records [heldRecord])⟩]

theorem heldTrace_runs : (scanOnce batchOfOne sampleBackoff).Runs heldTrace true :=
  .op _ (.op _ (.ret true))

end Scheduler

end Skiff.Task
