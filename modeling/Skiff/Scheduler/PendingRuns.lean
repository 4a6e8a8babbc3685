import Skiff.Scheduler.PendingTable

/-!
# Runs of the pending registry

The calls of any number of threads, interleaved step by step. `CellHistory` lists the
histories that a cell can have: it is published and settled in either order and then woken
once, or abandoned before it is published. Everything the registry promises is read off
these histories and the conservation laws.
-/

namespace Skiff.Scheduler

open Multiset PendingEvent

namespace PendingRegistry

variable {R S O Q U : Type} {s t : PendingRegistry R S O Q U}
variable {events past : List (PendingEvent R S O Q U)} {label : PendingLabel R S O Q U}
variable {labels : List (PendingLabel R S O Q U)}

/-! ## Histories of one cell -/

/-- The cell to whose history the event belongs. -/
def about : PendingEvent R S O Q U → Option Nat
  | .installed cell .. | .published cell .. | .settled cell _ | .abandoned cell
  | .enqueued cell .. => some cell
  | .escrowed _ | .refused _ | .offered _ | .returned .. | .duplicate .. | .resumed _
  | .terminated .. => none

def history (cell : Nat) (events : List (PendingEvent R S O Q U)) : List (PendingEvent R S O Q U) :=
  events.filter fun event => about event = some cell

@[simp] theorem history_append (cell : Nat) (events more : List (PendingEvent R S O Q U)) :
    history cell (events ++ more) = history cell events ++ history cell more :=
  List.filter_append _ _

variable {cell : Nat} {event : PendingEvent R S O Q U}

theorem mem_history : event ∈ history cell events ↔ event ∈ events ∧ about event = some cell := by
  simp [history]

/-- The wake of the cell that a call in progress is about to enqueue. -/
def owedBy (cell : Nat) : Work R S O Q U → Multiset (Enqueue R S O Q U)
  | .enqueueing _ position queue wake => if position = cell then {(queue, wake)} else 0
  | _ => 0

def owed (cell : Nat) (s : PendingRegistry R S O Q U) : Multiset (Enqueue R S O Q U) :=
  (s.work.map (owedBy cell)).sum

/-- The state of a cell, the wake that is owed and the history so far. -/
inductive CellHistory (cell : Nat) : Option (PendingCell R S O Q U) →
    Multiset (Enqueue R S O Q U) → List (PendingEvent R S O Q U) → Prop
  | absent : CellHistory cell none 0 []
  | opened (ticket : Nat) (roots : PendingRootSet Q) :
      CellHistory cell (some ⟨ticket, .opened roots⟩) 0 [.installed cell ticket roots]
  | waiting (ticket : Nat) (roots : PendingRootSet Q) (draft : PendingOwnerDraft R S) (queue : U) :
      CellHistory cell (some ⟨ticket, .waiting queue (draft.attach ticket roots)⟩) 0
        [.installed cell ticket roots, .published cell draft queue]
  | settled (ticket : Nat) (roots : PendingRootSet Q) (settlement : PendingSettlement O) :
      CellHistory cell (some ⟨ticket, .settled settlement roots⟩) 0
        [.installed cell ticket roots, .settled cell settlement]
  | claimed (ticket : Nat) (roots : PendingRootSet Q) (draft : PendingOwnerDraft R S) (queue : U)
      (settlement : PendingSettlement O) (met : List (PendingEvent R S O Q U)) :
      (met = [.published cell draft queue, .settled cell settlement] ∨
        met = [.settled cell settlement, .published cell draft queue]) →
      CellHistory cell (some ⟨ticket, .claimed⟩)
        {(queue, ⟨draft.attach ticket roots, settlement⟩)}
        (.installed cell ticket roots :: met)
  | woken (ticket : Nat) (roots : PendingRootSet Q) (draft : PendingOwnerDraft R S) (queue : U)
      (settlement : PendingSettlement O) (met : List (PendingEvent R S O Q U)) :
      (met = [.published cell draft queue, .settled cell settlement] ∨
        met = [.settled cell settlement, .published cell draft queue]) →
      CellHistory cell (some ⟨ticket, .claimed⟩) 0
        (.installed cell ticket roots ::
          (met ++ [.enqueued cell queue ⟨draft.attach ticket roots, settlement⟩]))
  | abandoned (ticket : Nat) (roots : PendingRootSet Q) (met : List (PendingEvent R S O Q U)) :
      (met = [] ∨ ∃ settlement, met = [.settled cell settlement]) →
      CellHistory cell (some ⟨ticket, .claimed⟩) 0
        (.installed cell ticket roots :: (met ++ [.abandoned cell]))

/-- Every cell has one of the histories. -/
def Told (past : List (PendingEvent R S O Q U)) (s : PendingRegistry R S O Q U) : Prop :=
  ∀ cell, CellHistory cell s.cells[cell]? (owed cell s) (history cell past)

theorem owed_swap {old new : List (Work R S O Q U)} (hwork : Swaps old new s.work t.work)
    (hsame : (old.map (owedBy cell)).sum = (new.map (owedBy cell)).sum) :
    owed cell t = owed cell s := by
  have hsum := hwork.sum (owedBy cell)
  rw [hsame] at hsum
  exact (add_right_cancel hsum).symm

/-- The step is not about the cell. -/
theorem Told.frame (h : Told past s) (hcell : t.cells[cell]? = s.cells[cell]?)
    (howed : owed cell t = owed cell s) (hevents : history cell events = []) :
    CellHistory cell t.cells[cell]? (owed cell t) (history cell (past ++ events)) := by
  rw [hcell, howed, history_append, hevents, List.append_nil]
  exact h cell

/-- The step is about no cell. -/
theorem Told.quiet {old new : List (Work R S O Q U)} (h : Told past s) (hcells : t.cells = s.cells)
    (hwork : Swaps old new s.work t.work)
    (hsame : ∀ cell, (old.map (owedBy cell)).sum = (new.map (owedBy cell)).sum)
    (hevents : ∀ event ∈ events, about event = none) : Told (past ++ events) t := by
  intro cell
  refine h.frame (by rw [hcells]) (owed_swap hwork (hsame cell)) ?_
  refine List.filter_eq_nil_iff.mpr ?_
  intro event hmem
  simp [hevents event hmem]

/-- The step is about one cell. -/
theorem Told.move {entry : PendingCell R S O Q U} {state : CellState R S O Q U}
    {old new : List (Work R S O Q U)} (h : Told past s) (hcell : s.cells[cell]? = some entry)
    (hcells : t.cells = s.cells.set cell ⟨entry.ticket, state⟩) (hevent : about event = some cell)
    (hwork : Swaps old new s.work t.work)
    (hother : ∀ position ≠ cell, (old.map (owedBy position)).sum = (new.map (owedBy position)).sum)
    (hhere : CellHistory cell (some ⟨entry.ticket, state⟩) (owed cell t)
      (history cell past ++ [event])) : Told (past ++ [event]) t := by
  intro position
  by_cases heq : position = cell
  · obtain rfl := heq
    obtain ⟨hlt, -⟩ := List.getElem?_eq_some_iff.mp hcell
    have hone : history position [event] = [event] := by simp [history, hevent]
    rw [history_append, hone, hcells, List.getElem?_set_self hlt]
    exact hhere
  refine h.frame ?_ (owed_swap hwork (hother position heq)) ?_
  · rw [hcells, List.getElem?_set_ne (Ne.symm heq)]
  · simp [history, hevent, Ne.symm heq]

theorem discardTransferred_about (roots : PendingRootSet Q) (disposition : RootDisposition) :
    ∀ event ∈ discardTransferred (R := R) (S := S) (O := O) (U := U) roots disposition,
      about event = none := by
  unfold discardTransferred
  cases roots.transferred <;> simp [about]

variable {cell ticket : Nat} {roots : PendingRootSet Q}

/-- What the histories say about a cell in a given state. -/
theorem CellHistory.of_opened {owed : Multiset (Enqueue R S O Q U)}
    (h : CellHistory cell (some ⟨ticket, .opened roots⟩) owed past) :
    owed = 0 ∧ past = [.installed cell ticket roots] := by
  cases h
  exact ⟨rfl, rfl⟩

theorem CellHistory.of_settled
    {settlement : PendingSettlement O} {owed : Multiset (Enqueue R S O Q U)}
    (h : CellHistory cell (some ⟨ticket, .settled settlement roots⟩) owed past) :
    owed = 0 ∧ past = [.installed cell ticket roots, .settled cell settlement] := by
  cases h
  exact ⟨rfl, rfl⟩

variable {queue : U}

theorem CellHistory.of_waiting {owner : PendingOwner R S Q}
    {owed : Multiset (Enqueue R S O Q U)}
    (h : CellHistory cell (some ⟨ticket, .waiting queue owner⟩) owed past) :
    owed = 0 ∧ ∃ roots draft, owner = draft.attach ticket roots ∧
      past = [.installed cell ticket roots, .published cell draft queue] := by
  cases h with
  | waiting _ roots draft => exact ⟨rfl, roots, draft, rfl, rfl⟩

variable {entry : Option (PendingCell R S O Q U)}

theorem CellHistory.of_owed {enqueue : Enqueue R S O Q U} {rest : Multiset (Enqueue R S O Q U)}
    (h : CellHistory cell entry (rest + {enqueue}) past) :
    rest = 0 ∧ CellHistory cell entry 0 (past ++ [.enqueued cell enqueue.1 enqueue.2]) := by
  generalize howed : rest + {enqueue} = owed at h
  cases h with
  | claimed ticket roots draft queue settlement met hmet =>
    have hrest : rest = 0 := by
      have hcard := congrArg card howed
      rw [card_add, card_singleton, card_singleton] at hcard
      exact card_eq_zero.mp (by omega)
    rw [hrest, zero_add, singleton_inj] at howed
    refine ⟨hrest, ?_⟩
    rw [howed]
    exact .woken ticket roots draft queue settlement met hmet
  | absent | opened | waiting | settled | woken | abandoned =>
    have hcard := congrArg card howed
    rw [card_add, card_singleton, card_zero] at hcard
    omega

variable {wake : PendingWake R S O Q}

/-- A call claims the cell and owes its wake. -/
theorem owed_enqueueing {old : List (Work R S O Q U)}
    (hold : ∀ position, (old.map (owedBy position)).sum = 0)
    (hwork : Swaps old [.enqueueing ticket cell queue wake] s.work t.work)
    (hnone : owed cell s = 0) :
    owed cell t = {(queue, wake)} := by
  have hsum := hwork.sum (owedBy cell)
  have hnew : ([Work.enqueueing ticket cell queue wake].map (owedBy cell)).sum =
      ({(queue, wake)} : Multiset (Enqueue R S O Q U)) := by simp [owedBy]
  rw [hold, add_zero, hnew] at hsum
  unfold owed at hnone ⊢
  rw [← hsum, hnone, zero_add]

theorem owed_enqueueing_other {cell position ticket : Nat} (hne : position ≠ cell) (queue : U)
    (wake : PendingWake R S O Q) :
    ([Work.enqueueing ticket cell queue wake].map (owedBy position)).sum = 0 := by
  simp [owedBy, Ne.symm hne]

/-- The owed wake is enqueued. -/
theorem Told.enqueue (h : Told past s) (hcells : t.cells = s.cells)
    (hwork : Swaps [.enqueueing ticket cell queue wake] [.removing ticket cell] s.work t.work) :
    Told (past ++ [.enqueued cell queue wake]) t := by
  intro position
  by_cases heq : position = cell
  · obtain rfl := heq
    have hsum := hwork.sum (owedBy position)
    have hold : ([Work.enqueueing ticket position queue wake].map (owedBy position)).sum =
        ({(queue, wake)} : Multiset (Enqueue R S O Q U)) := by simp [owedBy]
    have hnew : ([Work.removing ticket position].map (owedBy position)).sum =
        (0 : Multiset (Enqueue R S O Q U)) := rfl
    rw [hold, hnew, add_zero] at hsum
    have hthere := h position
    rw [owed, hsum] at hthere
    obtain ⟨hrest, hwoken⟩ := hthere.of_owed
    have hone : history position [enqueued position queue wake] =
        [(.enqueued position queue wake : PendingEvent R S O Q U)] := by simp [history, about]
    rw [history_append, hone, hcells, owed, hrest]
    exact hwoken
  refine h.frame (by rw [hcells]) (owed_swap hwork ?_) ?_
  · exact owed_enqueueing_other heq queue wake
  · simp [history, about, Ne.symm heq]

/-- A cell begins its history. -/
theorem Told.install {ticket : Nat} {old new : List (Work R S O Q U)}
    (h : Told past s) (hcells : t.cells = s.cells ++ [⟨ticket, .opened roots⟩])
    (hwork : Swaps old new s.work t.work)
    (hsame : ∀ {cell}, (old.map (owedBy cell)).sum = (new.map (owedBy cell)).sum) :
    Told (past ++ [.installed s.cells.length ticket roots]) t := by
  intro cell
  have howed : owed cell t = owed cell s := owed_swap hwork hsame
  by_cases heq : cell = s.cells.length
  · obtain rfl := heq
    have hthere := h s.cells.length
    rw [List.getElem?_eq_none (le_refl _), ← howed] at hthere
    have hone : history s.cells.length [installed s.cells.length ticket roots] =
        [(.installed s.cells.length ticket roots : PendingEvent R S O Q U)] := by
      simp [history, about]
    rw [history_append, hone, hcells, List.getElem?_concat_length]
    generalize history s.cells.length past = told at hthere
    generalize owed s.cells.length t = wakes at hthere
    cases hthere
    exact .opened ticket roots
  refine h.frame ?_ howed ?_
  · rw [hcells]
    by_cases hlt : cell < s.cells.length
    · exact List.getElem?_append_left hlt
    · rw [List.getElem?_eq_none (by simp; omega), List.getElem?_eq_none (by omega)]
  · simp [history, about, Ne.symm heq]

theorem Effect.told (h : Effect s events t) (hs : Told past s) : Told (past ++ events) t := by
  cases h with
  | idle => exact hs.quiet rfl .refl (fun _ => rfl) (by simp)
  | begun _ _ _ begun _ hkind hwork =>
    refine hs.quiet rfl hwork ?_ (by simp [about])
    intro cell
    obtain ⟨⟨_, rfl⟩, -⟩ | ⟨rfl, -⟩ := hkind <;> rfl
  | spurned _ _ _ _ hwork => exact hs.quiet rfl hwork (fun _ => rfl) (by simp)
  | installed ticket roots work hwork _ => exact hs.install rfl hwork rfl
  | discarded roots reason _ hwork =>
    refine hs.quiet rfl hwork (fun _ => rfl) ?_
    intro event hmem
    obtain hmem | hmem := List.mem_append.mp hmem
    · exact discardTransferred_about roots _ event hmem
    obtain rfl := List.mem_singleton.mp hmem
    rfl
  | unknown | duplicate | kept => exact hs.quiet rfl .refl (fun _ => rfl) (by simp [about])
  | dangling _ _ _ _ _ hwork | spared _ _ _ hwork | released _ hwork | sought _ _ _ _ hwork
  | left _ _ _ hwork => exact hs.quiet rfl hwork (fun _ => rfl) (by simp)
  | offered _ _ _ _ _ _ hwork | returned _ _ _ _ _ _ hwork =>
    exact hs.quiet rfl hwork (fun _ => rfl) (by simp [about])
  | resumed _ _ _ _ _ _ hwork => exact hs.quiet rfl hwork (fun _ => rfl) (by simp [about])
  | dropped wake _ _ _ hwork | terminalized _ _ roots _ hwork =>
    exact hs.quiet rfl hwork (fun _ => rfl) (discardTransferred_about _ _)
  | removed ticket cell _ hwork =>
    exact hs.quiet (removeExact_eq s ticket cell).1 hwork (fun _ => rfl) (by simp)
  | published ticket cell entry draft queue roots work hwork hcell hstate =>
    obtain ⟨serial, state⟩ := entry
    obtain rfl : state = .opened roots := hstate
    have hthere := hs cell
    rw [hcell] at hthere
    obtain ⟨howed, hpast⟩ := hthere.of_opened
    refine hs.move hcell rfl rfl hwork (fun _ _ => rfl) ?_
    rw [owed_swap hwork (by rfl), howed, hpast]
    exact .waiting serial roots draft queue
  | precompleted ticket cell entry draft queue settlement roots work hwork hcell hstate =>
    obtain ⟨serial, state⟩ := entry
    obtain rfl : state = .settled settlement roots := hstate
    have hthere := hs cell
    rw [hcell] at hthere
    obtain ⟨howed, hpast⟩ := hthere.of_settled
    refine hs.move hcell rfl rfl hwork (fun _ hne => (owed_enqueueing_other hne _ _).symm) ?_
    rw [owed_enqueueing (fun _ => rfl) hwork howed, hpast]
    exact .claimed serial roots draft queue settlement _ (.inr rfl)
  | abandoned ticket cell entry roots work hwork hcell hstate =>
    obtain ⟨serial, state⟩ := entry
    have hthere := hs cell
    rw [hcell] at hthere
    refine hs.move hcell rfl rfl hwork (fun _ _ => rfl) ?_
    rw [owed_swap hwork (by rfl)]
    obtain hopen | ⟨settlement, hsettled⟩ := hstate
    · obtain rfl : state = .opened roots := hopen
      obtain ⟨howed, hpast⟩ := hthere.of_opened
      rw [howed, hpast]
      exact .abandoned serial roots [] (.inl rfl)
    obtain rfl : state = .settled settlement roots := hsettled
    obtain ⟨howed, hpast⟩ := hthere.of_settled
    rw [howed, hpast]
    exact .abandoned serial roots _ (.inr ⟨settlement, rfl⟩)
  | enqueued ticket cell queue wake work hwork => exact hs.enqueue rfl hwork
  | stored cell entry settlement roots hcell hstate =>
    obtain ⟨serial, state⟩ := entry
    obtain rfl : state = .opened roots := hstate
    have hthere := hs cell
    rw [hcell] at hthere
    obtain ⟨howed, hpast⟩ := hthere.of_opened
    refine hs.move hcell rfl rfl .refl (fun _ _ => rfl) ?_
    show CellHistory cell _ (owed cell s) _
    rw [howed, hpast]
    exact .settled serial roots settlement
  | completed cell entry settlement queue owner work hcell hstate hwork =>
    obtain ⟨serial, state⟩ := entry
    obtain rfl : state = .waiting queue owner := hstate
    have hthere := hs cell
    rw [hcell] at hthere
    obtain ⟨howed, roots, draft, rfl, hpast⟩ := hthere.of_waiting
    refine hs.move hcell rfl rfl hwork (fun _ hne => (owed_enqueueing_other hne _ _).symm) ?_
    rw [owed_enqueueing (fun _ => rfl) hwork howed, hpast]
    exact .claimed serial roots draft queue settlement _ (.inl rfl)

/-! ## Wakes and escrows along a run -/

/-- The wakes that still have their escrow are the ones that were enqueued. -/
def Queued (past : List (PendingEvent R S O Q U)) (s : PendingRegistry R S O Q U) : Prop :=
  ∀ wake ∈ s.wakes, wake.owner.roots.transferred ≠ none →
    ∃ cell queue, .enqueued cell queue wake ∈ past

theorem Effect.queued (h : Effect s events t) (hs : Queued past s) : Queued (past ++ events) t := by
  have hkeep : ∀ wake ∈ s.wakes, wake.owner.roots.transferred ≠ none →
      ∃ cell queue, .enqueued cell queue wake ∈ past ++ events := by
    intro wake hmem hescrow
    obtain ⟨cell, queue, hpast⟩ := hs wake hmem hescrow
    exact ⟨cell, queue, List.mem_append_left _ hpast⟩
  cases h with
  | enqueued ticket cell queue wake work hwork =>
    intro other hmem hescrow
    obtain hmem | hmem := List.mem_append.mp hmem
    · exact hkeep other hmem hescrow
    obtain rfl := List.mem_singleton.mp hmem
    exact ⟨cell, queue, by simp⟩
  | resumed wake escrow wakes work _ hwakes | dropped wake wakes work hwakes =>
    intro other hmem hescrow
    obtain hmem | hmem := hwakes.mem_after hmem
    · cases hmem
    · exact hkeep other hmem hescrow
  | kept wake escrow wakes _ hwakes =>
    intro other hmem hescrow
    obtain hmem | hmem := hwakes.mem_after hmem
    · obtain rfl := List.mem_singleton.mp hmem
      exact absurd rfl hescrow
    · exact hkeep other hmem hescrow
  | removed ticket cell =>
    intro other hmem hescrow
    have hmem' : other ∈ (s.removeExact ticket cell).wakes := hmem
    rw [(removeExact_eq s ticket cell).2.1] at hmem'
    exact hkeep other hmem' hescrow
  | _ => exact hkeep

/-- An escrow is restored by the resumption of a completed wake, and every resumption ends
the escrow of its wake by its source. -/
structure Ended (past : List (PendingEvent R S O Q U)) : Prop where
  restored : ∀ escrow, .terminated escrow .restored ∈ past → ∃ wake, .resumed wake ∈ past ∧
    wake.settlement.source = .hostCompletion ∧ wake.owner.roots.transferred = some escrow
  resumed : ∀ wake, .resumed wake ∈ past → ∃ escrow cell queue,
    wake.owner.roots.transferred = some escrow ∧ .enqueued cell queue wake ∈ past ∧
      .terminated escrow wake.settlement.source.terminal ∈ past

theorem terminal_restored {source : SettlementSource} (h : source.terminal = .restored) :
    source = .hostCompletion := by
  cases source <;> first | rfl | cases h

/-- What the events of a step say about the escrows of the wakes before it. -/
def Ends (s : PendingRegistry R S O Q U) (events : List (PendingEvent R S O Q U)) : Prop :=
  (∀ escrow, .terminated escrow .restored ∈ events → ∃ wake, .resumed wake ∈ events ∧
      wake.settlement.source = .hostCompletion ∧ wake.owner.roots.transferred = some escrow) ∧
    ∀ wake, .resumed wake ∈ events → wake ∈ s.wakes ∧ ∃ escrow,
      wake.owner.roots.transferred = some escrow ∧
        .terminated escrow wake.settlement.source.terminal ∈ events

theorem ends_of_resume {escrow : Q}
    (hescrow : wake.owner.roots.transferred = some escrow) (hwake : wake ∈ s.wakes) :
    Ends s [.resumed wake, .terminated escrow wake.settlement.source.terminal] := by
  constructor
  · intro other hmem
    simp only [List.mem_cons, reduceCtorEq, terminated.injEq, List.not_mem_nil,
      or_false, false_or] at hmem
    obtain ⟨rfl, hterminal⟩ := hmem
    exact ⟨wake, by simp, terminal_restored hterminal.symm, hescrow⟩
  intro other hmem
  simp only [List.mem_cons, resumed.injEq, reduceCtorEq, List.not_mem_nil, or_false] at hmem
  obtain rfl := hmem
  exact ⟨hwake, escrow, hescrow, by simp⟩

theorem Effect.ends (h : Effect s events t) : Ends s events := by
  cases h with
  | resumed wake escrow wakes work hescrow hwakes | kept wake escrow wakes hescrow hwakes =>
    exact ends_of_resume hescrow (hwakes.old_mem (List.mem_singleton.mpr rfl))
  | discarded | terminalized | dropped => simp [Ends, discardTransferred]
  | _ => simp [Ends]

theorem Ended.append (h : Ended past) (hends : Ends s events) (hqueued : Queued past s) :
    Ended (past ++ events) := by
  constructor
  · intro escrow hmem
    obtain hmem | hmem := List.mem_append.mp hmem
    · obtain ⟨wake, hwake, hsource, hescrow⟩ := h.restored escrow hmem
      exact ⟨wake, List.mem_append_left _ hwake, hsource, hescrow⟩
    obtain ⟨wake, hwake, hsource, hescrow⟩ := hends.1 escrow hmem
    exact ⟨wake, List.mem_append_right _ hwake, hsource, hescrow⟩
  intro wake hmem
  obtain hmem | hmem := List.mem_append.mp hmem
  · obtain ⟨escrow, cell, queue, hescrow, henqueued, hterminated⟩ := h.resumed wake hmem
    exact ⟨escrow, cell, queue, hescrow, List.mem_append_left _ henqueued,
      List.mem_append_left _ hterminated⟩
  obtain ⟨hwake, escrow, hescrow, hterminated⟩ := hends.2 wake hmem
  obtain ⟨cell, queue, henqueued⟩ := hqueued wake hwake (by simp [hescrow])
  exact ⟨escrow, cell, queue, hescrow, List.mem_append_left _ henqueued,
    List.mem_append_right _ hterminated⟩

/-! ## The invariant -/

def eventsOf (labels : List (PendingLabel R S O Q U)) : List (PendingEvent R S O Q U) :=
  labels.flatMap PendingLabel.events

/-- Everything that a step keeps. -/
structure Sound (past : List (PendingEvent R S O Q U)) (s : PendingRegistry R S O Q U) : Prop where
  linked : s.Linked
  tabled : s.Tabled
  fresh : s.Fresh
  told : Told past s
  queued : Queued past s
  ended : Ended past
  counted : s.current = s.leases
  escrows : (past.map escrowedIn).sum = s.escrows + (past.map terminatedIn).sum
  drafts : (past.map offeredIn).sum = s.drafts + (past.map settledIn).sum

theorem sound_new (inventory nextTicket : Nat) :
    Sound [] (new inventory nextTicket : PendingRegistry R S O Q U) where
  linked := ⟨by simp [new], by simp [new]⟩
  tabled := ⟨by simp [new], by simp [new], by simp [new]⟩
  fresh := ⟨by simp [drawn, tickets, new], by simp [drawn, tickets, new]⟩
  told := fun _ => .absent
  queued := by simp [Queued, new]
  ended := ⟨by simp, by simp⟩
  counted := rfl
  escrows := rfl
  drafts := rfl

theorem Effect.sound (h : Effect s events t) (hs : Sound past s) : Sound (past ++ events) t := by
  obtain ⟨old, new, minted, dropped, hexchange⟩ := h.exchanges hs.linked.anchored
  refine ⟨h.linked hs.linked, h.tabled hs.linked hs.tabled, h.fresh hs.fresh, h.told hs.told,
    h.queued hs.queued, hs.ended.append h.ends hs.queued, h.leases hs.linked.anchored hs.counted,
    ?_, ?_⟩
  · have hstep : s.escrows + (events.map escrowedIn).sum =
        t.escrows + (events.map terminatedIn).sum := hexchange.total _ _ _ hexchange.rule.escrows
    rw [List.map_append, List.map_append, List.sum_append, List.sum_append, hs.escrows,
      add_right_comm, hstep]
    abel
  have hstep : s.drafts + (events.map offeredIn).sum =
      t.drafts + (events.map settledIn).sum := hexchange.total _ _ _ hexchange.rule.drafts
  rw [List.map_append, List.map_append, List.sum_append, List.sum_append, hs.drafts,
    add_right_comm, hstep]
  abel

theorem sound_run {inventory nextTicket : Nat}
    (hrun : Run Step (new inventory nextTicket) labels t) : Sound (eventsOf labels) t := by
  refine Run.history (P := fun labels t => Sound (eventsOf labels) t) ?_ ?_ hrun
  · exact sound_new inventory nextTicket
  intro labels s label t _ hsound hstep
  have hevents : eventsOf (labels ++ [label]) = eventsOf labels ++ label.events := by
    simp [eventsOf]
  rw [hevents]
  exact (step_effect hstep).sound hsound

/-! ## What the registry promises -/

def isWake : PendingEvent R S O Q U → Bool
  | .enqueued .. => true
  | _ => false

def isSettlement : PendingEvent R S O Q U → Bool
  | .settled .. => true
  | _ => false

/-- The laws of the registry after the events `past`. -/
structure Laws (past : List (PendingEvent R S O Q U)) (t : PendingRegistry R S O Q U) : Prop where
  /-- A ticket has one cell. -/
  tickets : t.tickets.Nodup
  /-- At most one wake is enqueued for it, and at most one settlement wins. -/
  once : ∀ cell, (history cell past).countP isWake ≤ 1 ∧ (history cell past).countP isSettlement ≤ 1
  /-- Unless a call is about to do it, one is enqueued exactly when the ticket was published
  and settled and not abandoned. -/
  woken : ∀ cell, owed cell t = 0 → ((∃ queue wake, .enqueued cell queue wake ∈ past) ↔
    (∃ draft queue, .published cell draft queue ∈ past) ∧
      (∃ settlement, .settled cell settlement ∈ past) ∧ .abandoned cell ∉ past)
  /-- It carries what was installed, published and settled first. -/
  carries : ∀ cell queue wake, .enqueued cell queue wake ∈ past →
    ∃ ticket roots draft settlement, .installed cell ticket roots ∈ past ∧
      .published cell draft queue ∈ past ∧ .settled cell settlement ∈ past ∧
      wake = ⟨draft.attach ticket roots, settlement⟩
  /-- A draft is published, handed back, or with a publication in progress. -/
  drafts : (past.map offeredIn).sum = t.drafts + (past.map settledIn).sum
  /-- An escrow took one terminal, or is held in one place. -/
  escrows : (past.map escrowedIn).sum = t.escrows + (past.map terminatedIn).sum
  /-- It is restored exactly by the resumption of a host completion. -/
  ended : Ended past
  /-- A cell that is not claimed can be found. -/
  listed : ∀ cell entry, t.cells[cell]? = some entry → entry.state ≠ .claimed →
    t.table.get? entry.ticket = some cell
  /-- When every call has returned, the owners are the cells and the wakes, and no claimed
  cell is in the table. -/
  returned : t.work = [] →
    t.current = (t.states.filter fun state => cellLeases state = 1).length + t.wakes.length ∧
      ∀ ticket cell, t.table.get? ticket = some cell → t.states[cell]? ≠ some .claimed

/-- The first settlement of a cell that was not abandoned wins; every other is handed back. -/
def SettlesOnce (past : List (PendingEvent R S O Q U)) (t : PendingRegistry R S O Q U) : Prop :=
  ∀ cell settlement label u, Step t label u → label.action = .settle cell settlement →
    label.events = [.settled cell settlement] ∧ (∀ other, .settled cell other ∉ past) ∧
        .abandoned cell ∉ past ∨
      label.events = [.duplicate cell settlement] ∧
        ((∃ other, .settled cell other ∈ past) ∨ .abandoned cell ∈ past)

theorem mem_past_iff (h : about event = some cell) : event ∈ past ↔ event ∈ history cell past := by
  rw [mem_history]
  simp [h]

theorem CellHistory.once
    {owed : Multiset (Enqueue R S O Q U)} (h : CellHistory cell entry owed past) :
    past.countP isWake ≤ 1 ∧ past.countP isSettlement ≤ 1 := by
  cases h with
  | absent | opened | waiting | settled => simp [List.countP_cons, isWake, isSettlement]
  | claimed _ _ _ _ _ met hmet | woken _ _ _ _ _ met hmet =>
    obtain rfl | rfl := hmet <;> simp [List.countP_cons, isWake, isSettlement]
  | abandoned _ _ met hmet =>
    obtain rfl | ⟨_, rfl⟩ := hmet <;> simp [List.countP_cons, isWake, isSettlement]

theorem CellHistory.woken_iff (h : CellHistory cell entry 0 past) :
    (∃ queue wake, .enqueued cell queue wake ∈ past) ↔
      (∃ draft queue, .published cell draft queue ∈ past) ∧
        (∃ settlement, .settled cell settlement ∈ past) ∧ .abandoned cell ∉ past := by
  generalize howed : (0 : Multiset (Enqueue R S O Q U)) = owed at h
  cases h with
  | absent | opened | waiting | settled => simp
  | claimed => exact absurd howed.symm (singleton_ne_zero _)
  | woken _ _ _ _ _ met hmet => obtain rfl | rfl := hmet <;> simp
  | abandoned _ _ met hmet => obtain rfl | ⟨_, rfl⟩ := hmet <;> simp

theorem CellHistory.carries {owed : Multiset (Enqueue R S O Q U)}
    (h : CellHistory cell entry owed past) (hwake : .enqueued cell queue wake ∈ past) :
    ∃ ticket roots draft settlement, .installed cell ticket roots ∈ past ∧
      .published cell draft queue ∈ past ∧ .settled cell settlement ∈ past ∧
      wake = ⟨draft.attach ticket roots, settlement⟩ := by
  cases h with
  | absent | opened | waiting | settled => simp at hwake
  | claimed _ _ _ _ _ met hmet => obtain rfl | rfl := hmet <;> simp at hwake
  | woken ticket roots draft queue settlement met hmet =>
    refine ⟨ticket, roots, draft, settlement, ?_⟩
    obtain rfl | rfl := hmet
    all_goals
      simp only [List.mem_cons, List.mem_append, reduceCtorEq, List.not_mem_nil, or_false,
        false_or, enqueued.injEq, true_and] at hwake
      obtain ⟨rfl, rfl⟩ := hwake
      simp
  | abandoned _ _ met hmet => obtain rfl | ⟨_, rfl⟩ := hmet <;> simp at hwake

/-- A cell that can still be settled was neither settled nor abandoned. -/
theorem CellHistory.settles {entry : PendingCell R S O Q U}
    {owed : Multiset (Enqueue R S O Q U)} (h : CellHistory cell (some entry) owed past) :
    ((∃ roots, entry.state = .opened roots) ∨ (∃ queue owner, entry.state = .waiting queue owner) →
      (∀ other, .settled cell other ∉ past) ∧ .abandoned cell ∉ past) ∧
    ((entry.state = .claimed ∨ ∃ first roots, entry.state = .settled first roots) →
      (∃ other, .settled cell other ∈ past) ∨ .abandoned cell ∈ past) := by
  cases h with
  | opened | waiting | settled => simp
  | claimed _ _ _ _ _ met hmet | woken _ _ _ _ _ met hmet => obtain rfl | rfl := hmet <;> simp
  | abandoned _ _ met hmet => obtain rfl | ⟨_, rfl⟩ := hmet <;> simp

theorem leases_of_returned (hwork : t.work = []) :
    t.leases = (t.states.filter fun state => cellLeases state = 1).length + t.wakes.length := by
  have hcells : ∀ states : List (CellState R S O Q U),
      (states.map cellLeases).sum = (states.filter fun state => cellLeases state = 1).length := by
    intro states
    induction states with
    | nil => rfl
    | cons state rest ih =>
      rw [List.map_cons, List.sum_cons, ih]
      cases state <;> simp [cellLeases] <;> omega
  unfold leases total Entries.total
  rw [hcells, hwork]
  simp

theorem Sound.laws (h : Sound past t) : Laws past t where
  tickets := by
    have hnodup := h.fresh.1
    exact coe_nodup.mp (nodup_of_le (le_add_right _ _) hnodup)
  once := fun cell => (h.told cell).once
  woken := by
    intro cell howed
    have hcell := h.told cell
    rw [howed] at hcell
    have hiff := hcell.woken_iff
    simp only [mem_history, about, and_true] at hiff
    exact hiff
  carries := by
    intro cell queue wake hwake
    obtain ⟨ticket, roots, draft, settlement, hinstalled, hpublished, hsettled, hwake⟩ :=
      (h.told cell).carries ((mem_past_iff rfl).mp hwake)
    exact ⟨ticket, roots, draft, settlement, (mem_past_iff rfl).mpr hinstalled,
      (mem_past_iff rfl).mpr hpublished, (mem_past_iff rfl).mpr hsettled, hwake⟩
  drafts := h.drafts
  escrows := h.escrows
  ended := h.ended
  listed := h.tabled.listed
  returned := by
    intro hwork
    constructor
    · rw [h.counted, leases_of_returned hwork]
    intro ticket cell hcell hclaimed
    obtain ⟨work, hmem, -⟩ := h.tabled.due ticket cell hcell hclaimed
    rw [hwork] at hmem
    cases hmem

theorem Sound.settlesOnce (h : Sound past t) : SettlesOnce past t := by
  rintro cell settlement ⟨action, events⟩ u hstep rfl
  obtain ⟨entry, hcell, hsettle⟩ := Option.map_eq_some_iff.mp hstep
  have hhistory := h.told cell
  rw [hcell] at hhistory
  obtain ⟨hfirst, hlater⟩ := hhistory.settles
  simp only [mem_history, about, and_true] at hfirst hlater
  unfold settle PendingCell.settle at hsettle
  cases hstate : entry.state with
  | opened roots =>
    simp only [hstate] at hsettle
    cases hsettle
    exact .inl ⟨rfl, hfirst (.inl ⟨roots, hstate⟩)⟩
  | waiting queue owner =>
    simp only [hstate] at hsettle
    cases hsettle
    exact .inl ⟨rfl, hfirst (.inr ⟨queue, owner, hstate⟩)⟩
  | settled first roots =>
    simp only [hstate] at hsettle
    cases hsettle
    exact .inr ⟨rfl, hlater (.inr ⟨first, roots, hstate⟩)⟩
  | claimed =>
    simp only [hstate] at hsettle
    cases hsettle
    exact .inr ⟨rfl, hlater (.inl hstate)⟩

/-- Whatever the threads do, and in whatever order their steps interleave. -/
theorem pending_lawful {inventory nextTicket : Nat}
    (hrun : Run Step (new inventory nextTicket) labels t) :
    Laws (eventsOf labels) t ∧ SettlesOnce (eventsOf labels) t :=
  ⟨(sound_run hrun).laws, (sound_run hrun).settlesOnce⟩

/-- The steps taken one after the other; a step that is not there changes nothing. -/
def play (s : PendingRegistry R S O Q U) : List (PendingAction R S O Q U) →
    List (PendingLabel R S O Q U) × PendingRegistry R S O Q U
  | [] => ([], s)
  | action :: rest =>
    match s.step action with
    | none => s.play rest
    | some (events, next) => (⟨action, events⟩ :: (next.play rest).1, (next.play rest).2)

theorem run_play (s : PendingRegistry R S O Q U) (actions : List (PendingAction R S O Q U)) :
    Run Step s (s.play actions).1 (s.play actions).2 := by
  induction actions generalizing s with
  | nil => exact .nil s
  | cons action rest ih =>
    unfold play
    split
    · exact ih s
    rename_i events next hstep
    exact .cons hstep (ih next)

/-- A publication between two settlements; the abandonment comes too late. -/
def raced : List (PendingAction Nat Nat Nat Nat Nat) :=
  [.begin 7 none, .proceed 0, .publish 1 ⟨20, 21⟩ 5, .abandon 1, .settle 0 ⟨.deadline, 30⟩,
    .settle 0 ⟨.hostCompletion, 31⟩, .proceed 0, .proceed 0, .proceed 0, .proceed 0, .resume 0 true,
    .proceed 0]

theorem pending_lawful_raced :
    Laws (eventsOf ((new 0 1).play raced).1) ((new 0 1).play raced).2 ∧
      ((new 0 1).play raced).2.current = 0 ∧
      eventsOf ((new 0 1).play raced).1 =
        [.escrowed 7, .installed 0 1 ⟨some 7, none⟩, .offered ⟨20, 21⟩,
          .settled 0 ⟨.deadline, 30⟩, .duplicate 0 ⟨.hostCompletion, 31⟩,
          .published 0 ⟨20, 21⟩ 5,
          .enqueued 0 5 ⟨⟨1, ⟨some 7, none⟩, some 20, 21⟩, ⟨.deadline, 30⟩⟩,
          .resumed ⟨⟨1, ⟨some 7, none⟩, some 20, 21⟩, ⟨.deadline, 30⟩⟩,
          .terminated 7 (.discarded .deadline)] :=
  ⟨(pending_lawful (run_play (new 0 1) raced)).1, by decide, by decide⟩

end PendingRegistry
end Skiff.Scheduler
