import Skiff.Scheduler.Pending
import Mathlib.Algebra.Order.Group.Multiset

/-!
# What the pending registry holds

A step exchanges entries of three bags, the cells, the calls in progress and the wakes; the
rules of this exchange conserve leases, escrows and drafts, each of which is in one place
at a time. The table lists the cells that are not claimed and those whose removal is due.
-/

namespace Skiff.Scheduler

open List

namespace PendingRegistry

variable {R S O Q U : Type} {s t : PendingRegistry R S O Q U}
variable {events : List (PendingEvent R S O Q U)}

/-! ## Conservation -/

/-- Entries of the three bags of a registry. -/
structure Entries (R S O Q U : Type) where
  cells : List (CellState R S O Q U) := []
  work : List (Work R S O Q U) := []
  wakes : List (PendingWake R S O Q) := []

/-- What a step takes out and puts in, with the leases it mints and drops. -/
inductive Rule : Entries R S O Q U → List (PendingEvent R S O Q U) → Entries R S O Q U →
    Nat → Nat → Prop
  | idle : Rule {} [] {} 0 0
  | refusing (escrow : Q) (retained : Option RequestResourceRootPin) (reason : BeginPendingError) :
      Rule {} [.escrowed escrow] { work := [.discarding ⟨some escrow, retained⟩ reason] } 0 0
  | beginning (escrow : Q) (retained : Option RequestResourceRootPin) (ticket : Nat) :
      Rule {} [.escrowed escrow] { work := [.installing ticket ⟨some escrow, retained⟩] } 0 0
  | spurned (ticket : Nat) (roots : PendingRootSet Q) (reason : BeginPendingError) :
      Rule { work := [.installing ticket roots] } [] { work := [.discarding roots reason] } 0 0
  | installed (cell ticket : Nat) (roots : PendingRootSet Q) :
      Rule { work := [.installing ticket roots] } [.installed cell ticket roots]
        { cells := [.opened roots] } 1 0
  | discarded (roots : PendingRootSet Q) (reason : BeginPendingError) :
      Rule { work := [.discarding roots reason] }
        (discardTransferred roots .publicationFailed ++ [.refused reason]) {} 0 0
  | unknown (draft : PendingOwnerDraft R S) (reason : PendingPublicationFailure) :
      Rule {} [.offered draft, .returned draft reason] {} 0 0
  | offered (ticket cell : Nat) (draft : PendingOwnerDraft R S) (queue : U) :
      Rule {} [.offered draft] { work := [.publishing ticket cell draft queue] } 0 0
  | returned (ticket cell : Nat) (draft : PendingOwnerDraft R S) (queue : U)
      (reason : PendingPublicationFailure) :
      Rule { work := [.publishing ticket cell draft queue] } [.returned draft reason] {} 0 0
  | published (ticket cell : Nat) (draft : PendingOwnerDraft R S) (queue : U)
      (roots : PendingRootSet Q) (serial : Nat) :
      Rule { cells := [.opened roots], work := [.publishing ticket cell draft queue] }
        [.published cell draft queue]
        { cells := [.waiting queue (draft.attach serial roots)] } 0 0
  | precompleted (ticket cell : Nat) (draft : PendingOwnerDraft R S) (queue : U)
      (settlement : PendingSettlement O) (roots : PendingRootSet Q) (serial : Nat) :
      Rule { cells := [.settled settlement roots], work := [.publishing ticket cell draft queue] }
        [.published cell draft queue]
        { cells := [.claimed]
          work := [.enqueueing ticket cell queue ⟨draft.attach serial roots, settlement⟩] } 0 0
  | sought (ticket cell : Nat) : Rule {} [] { work := [.abandoning ticket cell] } 0 0
  | spared (ticket cell : Nat) : Rule { work := [.abandoning ticket cell] } [] {} 0 0
  | abandoned (ticket cell : Nat) (roots : PendingRootSet Q) :
      Rule { cells := [.opened roots], work := [.abandoning ticket cell] } [.abandoned cell]
        { cells := [.claimed], work := [.terminalizing ticket cell roots] } 0 0
  | abandonedSettled (ticket cell : Nat) (settlement : PendingSettlement O)
      (roots : PendingRootSet Q) :
      Rule { cells := [.settled settlement roots], work := [.abandoning ticket cell] }
        [.abandoned cell]
        { cells := [.claimed], work := [.terminalizing ticket cell roots] } 0 0
  | terminalized (ticket cell : Nat) (roots : PendingRootSet Q) :
      Rule { work := [.terminalizing ticket cell roots] }
        (discardTransferred roots .publicationFailed) { work := [.leaving ticket cell] } 0 0
  | left (ticket cell : Nat) :
      Rule { work := [.leaving ticket cell] } [] { work := [.removing ticket cell] } 0 1
  | enqueued (ticket cell : Nat) (queue : U) (wake : PendingWake R S O Q) :
      Rule { work := [.enqueueing ticket cell queue wake] } [.enqueued cell queue wake]
        { work := [.removing ticket cell], wakes := [wake] } 0 0
  | removed (ticket cell : Nat) : Rule { work := [.removing ticket cell] } [] {} 0 0
  | released : Rule { work := [.releasing] } [] {} 0 1
  | duplicate (cell : Nat) (settlement : PendingSettlement O) :
      Rule {} [.duplicate cell settlement] {} 0 0
  | stored (cell : Nat) (settlement : PendingSettlement O) (roots : PendingRootSet Q) :
      Rule { cells := [.opened roots] } [.settled cell settlement]
        { cells := [.settled settlement roots] } 0 0
  | completed (ticket cell : Nat) (settlement : PendingSettlement O) (queue : U)
      (owner : PendingOwner R S Q) :
      Rule { cells := [.waiting queue owner] } [.settled cell settlement]
        { cells := [.claimed], work := [.enqueueing ticket cell queue ⟨owner, settlement⟩] } 0 0
  | resumed (wake : PendingWake R S O Q) (escrow : Q) :
      wake.owner.roots.transferred = some escrow →
      Rule { wakes := [wake] }
        [.resumed wake, .terminated escrow wake.settlement.source.terminal]
        { work := [.releasing] } 0 0
  | kept (wake : PendingWake R S O Q) (escrow : Q) :
      wake.owner.roots.transferred = some escrow →
      Rule { wakes := [wake] }
        [.resumed wake, .terminated escrow wake.settlement.source.terminal]
        { wakes := [{ wake with owner.roots.transferred := none }] } 0 0
  | dropped (wake : PendingWake R S O Q) :
      Rule { wakes := [wake] } (discardTransferred wake.owner.roots .ownerAbandoned)
        { work := [.releasing] } 0 0

/-- The states of the cells, in the order of the arena. -/
def states (s : PendingRegistry R S O Q U) : List (CellState R S O Q U) :=
  s.cells.map PendingCell.state

/-- The step is an instance of a rule. -/
structure Exchanges (s : PendingRegistry R S O Q U) (events : List (PendingEvent R S O Q U))
    (t : PendingRegistry R S O Q U) (old new : Entries R S O Q U) (minted dropped : Nat) :
    Prop where
  rule : Rule old events new minted dropped
  cells : Swaps old.cells new.cells s.states t.states
  work : Swaps old.work new.work s.work t.work
  wakes : Swaps old.wakes new.wakes s.wakes t.wakes
  current : t.current = s.current + minted - dropped

/-- The cells that calls in progress point to exist. -/
def Anchored (s : PendingRegistry R S O Q U) : Prop :=
  ∀ ticket cell draft queue, .publishing ticket cell draft queue ∈ s.work → cell < s.cells.length

variable {entry : PendingCell R S O Q U} {cell : Nat}

theorem swaps_states {old : CellState R S O Q U}
    (hcell : s.cells[cell]? = some entry) (hstate : entry.state = old) (ticket : Nat)
    (state : CellState R S O Q U) :
    Swaps [old] [state] s.states ((s.cells.set cell ⟨ticket, state⟩).map PendingCell.state) := by
  have hold : s.states[cell]? = some old := by simp [states, hcell, hstate]
  rw [List.map_set]
  exact Swaps.set hold state

theorem removeExact_eq (s : PendingRegistry R S O Q U) (ticket cell : Nat) :
    (s.removeExact ticket cell).cells = s.cells ∧ (s.removeExact ticket cell).wakes = s.wakes ∧
      (s.removeExact ticket cell).current = s.current := by
  unfold removeExact
  split <;> exact ⟨rfl, rfl, rfl⟩

/-- What is left in the table was there, and is not the entry that was removed. -/
theorem removeExact_table {ticket cell key position : Nat}
    (h : (s.removeExact ticket cell).table.get? key = some position) :
    s.table.get? key = some position ∧ ¬ (key = ticket ∧ position = cell) := by
  unfold removeExact at h
  split at h
  · obtain ⟨hne, h⟩ := OrdMap.get?_erase_eq_some.mp h
    exact ⟨h, fun heq => hne heq.1⟩
  rename_i hno
  refine ⟨h, ?_⟩
  rintro ⟨rfl, rfl⟩
  exact hno h

theorem Effect.exchanges (h : Effect s events t) (hs : s.Anchored) :
    ∃ old new minted dropped, Exchanges s events t old new minted dropped := by
  cases h with
  | idle => exact ⟨_, _, _, _, .idle, .refl, .refl, .refl, rfl⟩
  | begun escrow retained next begun work hkind hwork =>
    obtain ⟨⟨reason, rfl⟩, -⟩ | ⟨rfl, -⟩ := hkind
    · exact ⟨_, _, _, _, .refusing escrow retained reason, .refl, hwork, .refl, rfl⟩
    · exact ⟨_, _, _, _, .beginning escrow retained _, .refl, hwork, .refl, rfl⟩
  | spurned ticket roots reason work hwork =>
    exact ⟨_, _, _, _, .spurned ticket roots reason, .refl, hwork, .refl, rfl⟩
  | installed ticket roots work hwork _ =>
    refine ⟨_, _, _, _, .installed _ ticket roots, ?_, hwork, .refl, rfl⟩
    unfold states
    rw [map_append]
    exact Swaps.append _ _
  | discarded roots reason work hwork =>
    exact ⟨_, _, _, _, .discarded roots reason, .refl, hwork, .refl, rfl⟩
  | unknown draft reason => exact ⟨_, _, _, _, .unknown draft reason, .refl, .refl, .refl, rfl⟩
  | offered ticket cell draft queue work _ hwork =>
    exact ⟨_, _, _, _, .offered ticket cell draft queue, .refl, hwork, .refl, rfl⟩
  | dangling ticket cell draft queue work hwork hcell =>
    have hlt := hs ticket cell draft queue (hwork.old_mem (mem_singleton.mpr rfl))
    rw [getElem?_eq_none_iff] at hcell
    omega
  | returned ticket cell draft queue reason work hwork =>
    exact ⟨_, _, _, _, .returned ticket cell draft queue reason, .refl, hwork, .refl, rfl⟩
  | published ticket cell entry draft queue roots work hwork hcell hstate =>
    exact ⟨_, _, _, _, .published ticket cell draft queue roots entry.ticket,
      swaps_states hcell hstate _ _, hwork, .refl, rfl⟩
  | precompleted ticket cell entry draft queue settlement roots work hwork hcell hstate =>
    exact ⟨_, _, _, _, .precompleted ticket cell draft queue settlement roots entry.ticket,
      swaps_states hcell hstate _ _, hwork, .refl, rfl⟩
  | sought ticket cell work _ hwork =>
    exact ⟨_, _, _, _, .sought ticket cell, .refl, hwork, .refl, rfl⟩
  | spared ticket cell work hwork =>
    exact ⟨_, _, _, _, .spared ticket cell, .refl, hwork, .refl, rfl⟩
  | abandoned ticket cell entry roots work hwork hcell hstate =>
    obtain hopen | ⟨settlement, hsettled⟩ := hstate
    · exact ⟨_, _, _, _, .abandoned ticket cell roots, swaps_states hcell hopen _ _, hwork, .refl,
        rfl⟩
    exact ⟨_, _, _, _, .abandonedSettled ticket cell settlement roots,
      swaps_states hcell hsettled _ _, hwork, .refl, rfl⟩
  | terminalized ticket cell roots work hwork =>
    exact ⟨_, _, _, _, .terminalized ticket cell roots, .refl, hwork, .refl, rfl⟩
  | left ticket cell work hwork => exact ⟨_, _, _, _, .left ticket cell, .refl, hwork, .refl, rfl⟩
  | enqueued ticket cell queue wake work hwork =>
    exact ⟨_, _, _, _, .enqueued ticket cell queue wake, .refl, hwork, .append _ _, rfl⟩
  | removed ticket cell work hwork =>
    obtain ⟨hcells, hwakes, hcurrent⟩ := removeExact_eq s ticket cell
    refine ⟨_, _, _, _, .removed ticket cell, ?_, hwork, ?_, hcurrent⟩
    · simp only [states, hcells]
      exact .refl
    simp only [hwakes]
    exact .refl
  | released work hwork => exact ⟨_, _, _, _, .released, .refl, hwork, .refl, rfl⟩
  | duplicate cell entry settlement =>
    exact ⟨_, _, _, _, .duplicate cell settlement, .refl, .refl, .refl, rfl⟩
  | stored cell entry settlement roots hcell hstate =>
    exact ⟨_, _, _, _, .stored cell settlement roots, swaps_states hcell hstate _ _, .refl, .refl,
      rfl⟩
  | completed cell entry settlement queue owner work hcell hstate hwork =>
    exact ⟨_, _, _, _, .completed entry.ticket cell settlement queue owner,
      swaps_states hcell hstate _ _, hwork, .refl, rfl⟩
  | resumed wake escrow wakes work hescrow hwakes hwork =>
    exact ⟨_, _, _, _, .resumed wake escrow hescrow, .refl, hwork, hwakes, rfl⟩
  | kept wake escrow wakes hescrow hwakes =>
    exact ⟨_, _, _, _, .kept wake escrow hescrow, .refl, .refl, hwakes, rfl⟩
  | dropped wake wakes work hwakes hwork =>
    exact ⟨_, _, _, _, .dropped wake, .refl, hwork, hwakes, rfl⟩

section Total

variable {M : Type} [AddCancelCommMonoid M] (ofCell : CellState R S O Q U → M)
  (ofWork : Work R S O Q U → M) (ofWake : PendingWake R S O Q → M)

def Entries.total (entries : Entries R S O Q U) : M :=
  (entries.cells.map ofCell).sum + (entries.work.map ofWork).sum + (entries.wakes.map ofWake).sum

/-- What the cells, the calls in progress and the wakes hold together. -/
def total (s : PendingRegistry R S O Q U) : M :=
  Entries.total ofCell ofWork ofWake ⟨s.states, s.work, s.wakes⟩

/-- A step conserves what its rule conserves. -/
theorem Exchanges.total {old new : Entries R S O Q U} {minted dropped : Nat} {gain loss : M}
    (h : Exchanges s events t old new minted dropped)
    (hrule : old.total ofCell ofWork ofWake + gain = new.total ofCell ofWork ofWake + loss) :
    total ofCell ofWork ofWake s + gain = total ofCell ofWork ofWake t + loss := by
  have hc := h.cells.sum ofCell
  have hw := h.work.sum ofWork
  have hk := h.wakes.sum ofWake
  simp only [PendingRegistry.total, Entries.total] at hrule ⊢
  generalize (s.states.map ofCell).sum = a at *
  generalize (t.states.map ofCell).sum = a' at *
  generalize (s.work.map ofWork).sum = b at *
  generalize (t.work.map ofWork).sum = b' at *
  generalize (s.wakes.map ofWake).sum = c at *
  generalize (t.wakes.map ofWake).sum = c' at *
  generalize (old.cells.map ofCell).sum = u at *
  generalize (new.cells.map ofCell).sum = u' at *
  generalize (old.work.map ofWork).sum = v at *
  generalize (new.work.map ofWork).sum = v' at *
  generalize (old.wakes.map ofWake).sum = w at *
  generalize (new.wakes.map ofWake).sum = w' at *
  refine add_right_cancel (b := u' + v' + w') ?_
  calc a + b + c + gain + (u' + v' + w') = (a + u') + (b + v') + (c + w') + gain := by abel
    _ = (a' + u) + (b' + v) + (c' + w) + gain := by rw [hc, hw, hk]
    _ = (a' + b' + c') + (u + v + w + gain) := by abel
    _ = (a' + b' + c') + (u' + v' + w' + loss) := by rw [hrule]
    _ = a' + b' + c' + loss + (u' + v' + w') := by abel

end Total

/-! ### Leases -/

def cellLeases : CellState R S O Q U → Nat
  | .claimed => 0
  | .opened _ | .waiting .. | .settled .. => 1

def workLeases : Work R S O Q U → Nat
  | .terminalizing .. | .leaving .. | .enqueueing .. | .releasing => 1
  | .installing .. | .discarding .. | .publishing .. | .abandoning .. | .removing .. => 0

/-- The leases that are somewhere. -/
def leases (s : PendingRegistry R S O Q U) : Nat := total cellLeases workLeases (fun _ => 1) s

variable {old new : Entries R S O Q U} {minted dropped : Nat}

theorem Rule.leases (h : Rule old events new minted dropped) :
    old.total cellLeases workLeases (fun _ => 1) + minted =
      new.total cellLeases workLeases (fun _ => 1) + dropped := by
  cases h <;> rfl

theorem Effect.leases (h : Effect s events t) (hs : s.Anchored) (hcurrent : s.current = s.leases) :
    t.current = t.leases := by
  obtain ⟨old, new, minted, dropped, hexchange⟩ := h.exchanges hs
  have htotal : s.leases + minted = t.leases + dropped :=
    hexchange.total _ _ _ hexchange.rule.leases
  have hmove := hexchange.current
  omega

/-! ### Escrows and drafts -/

/-- The escrow of a root set, if it is still there. -/
def rootEscrow (roots : PendingRootSet Q) : Multiset Q := roots.transferred.toList

def cellEscrow : CellState R S O Q U → Multiset Q
  | .opened roots | .settled _ roots => rootEscrow roots
  | .waiting _ owner => rootEscrow owner.roots
  | .claimed => 0

def workEscrow : Work R S O Q U → Multiset Q
  | .installing _ roots | .discarding roots _ | .terminalizing _ _ roots => rootEscrow roots
  | .enqueueing _ _ _ wake => rootEscrow wake.owner.roots
  | .publishing .. | .abandoning .. | .leaving .. | .removing .. | .releasing => 0

/-- The escrows that took no terminal yet. -/
def escrows (s : PendingRegistry R S O Q U) : Multiset Q :=
  total cellEscrow workEscrow (fun wake => rootEscrow wake.owner.roots) s

def escrowedIn : PendingEvent R S O Q U → Multiset Q
  | .escrowed escrow => {escrow}
  | _ => 0

def terminatedIn : PendingEvent R S O Q U → Multiset Q
  | .terminated escrow _ => {escrow}
  | _ => 0

def workDraft : Work R S O Q U → Multiset (PendingOwnerDraft R S)
  | .publishing _ _ draft _ => {draft}
  | _ => 0

/-- The drafts of publications in progress. -/
def drafts (s : PendingRegistry R S O Q U) : Multiset (PendingOwnerDraft R S) :=
  total (fun _ => 0) workDraft (fun _ => 0) s

def offeredIn : PendingEvent R S O Q U → Multiset (PendingOwnerDraft R S)
  | .offered draft => {draft}
  | _ => 0

def settledIn : PendingEvent R S O Q U → Multiset (PendingOwnerDraft R S)
  | .returned draft _ | .published _ draft _ => {draft}
  | _ => 0

variable (roots : PendingRootSet Q)

/-- A discard is a terminal and nothing else. -/
theorem discardTransferred_sum {M : Type} [AddCommMonoid M]
    (disposition : RootDisposition) (f : PendingEvent R S O Q U → M)
    (h : ∀ escrow terminal, f (.terminated escrow terminal) = 0) :
    ((discardTransferred roots disposition).map f).sum = 0 := by
  unfold discardTransferred
  cases roots.transferred <;> simp [h]

theorem discardTransferred_terminated (disposition : RootDisposition) :
    ((discardTransferred (R := R) (S := S) (O := O) (U := U) roots disposition).map
      terminatedIn).sum = (rootEscrow roots) := by
  unfold discardTransferred rootEscrow
  cases roots.transferred <;> rfl

theorem Rule.escrows (h : Rule old events new minted dropped) :
    old.total cellEscrow workEscrow (fun wake => rootEscrow wake.owner.roots) +
        (events.map escrowedIn).sum =
      new.total cellEscrow workEscrow (fun wake => rootEscrow wake.owner.roots) +
        (events.map terminatedIn).sum := by
  cases h with
  | refusing | beginning => rfl
  | resumed wake escrow hescrow | kept wake escrow hescrow =>
    simp [Entries.total, workEscrow, escrowedIn, terminatedIn, rootEscrow, hescrow]
  | _ =>
    simp [Entries.total, cellEscrow, workEscrow, escrowedIn, terminatedIn,
      PendingOwnerDraft.attach, discardTransferred_sum _ _ escrowedIn (fun _ _ => rfl),
      discardTransferred_terminated]

theorem Rule.drafts (h : Rule old events new minted dropped) :
    old.total (fun _ => 0) workDraft (fun _ => 0) + (events.map offeredIn).sum =
      new.total (fun _ => 0) workDraft (fun _ => 0) + (events.map settledIn).sum := by
  cases h with
  | discarded | terminalized | dropped =>
    simp [Entries.total, workDraft, discardTransferred_sum _ _ offeredIn (fun _ _ => rfl),
      discardTransferred_sum _ _ settledIn (fun _ _ => rfl), offeredIn, settledIn]
  | _ => simp [Entries.total, workDraft, offeredIn, settledIn]

/-! ## The registry table -/

/-- The ticket and the cell that a call in progress is about. -/
def target : Work R S O Q U → Option (Nat × Nat)
  | .publishing ticket cell .. | .abandoning ticket cell | .terminalizing ticket cell _
  | .leaving ticket cell | .enqueueing ticket cell .. | .removing ticket cell => some (ticket, cell)
  | .installing .. | .discarding .. | .releasing => none

/-- The call claimed its cell, and removes it from the table at its end. -/
def finishing : Work R S O Q U → Bool
  | .terminalizing .. | .leaving .. | .enqueueing .. | .removing .. => true
  | .installing .. | .discarding .. | .publishing .. | .abandoning .. | .releasing => false

def tickets (s : PendingRegistry R S O Q U) : List Nat := s.cells.map PendingCell.ticket

/-- Positions and tickets go together, wherever a call or the table keeps them. -/
structure Linked (s : PendingRegistry R S O Q U) : Prop where
  work : ∀ work ∈ s.work, ∀ ticket cell, target work = some (ticket, cell) →
    s.tickets[cell]? = some ticket
  table : ∀ ticket cell, s.table.get? ticket = some cell → s.tickets[cell]? = some ticket

theorem Linked.anchored (h : s.Linked) : s.Anchored := by
  intro ticket cell draft queue hmem
  have hticket := h.work _ hmem ticket cell rfl
  obtain ⟨hlt, -⟩ := List.getElem?_eq_some_iff.mp hticket
  simpa [tickets] using hlt

theorem tickets_set (hcell : s.cells[cell]? = some entry) (state : CellState R S O Q U) :
    (s.cells.set cell ⟨entry.ticket, state⟩).map PendingCell.ticket = s.tickets := by
  obtain ⟨hlt, rfl⟩ := List.getElem?_eq_some_iff.mp hcell
  rw [List.map_set, tickets]
  refine List.ext_getElem (by simp) ?_
  intro i _ hi
  rw [getElem_set]
  split
  · rename_i heq
    simp [heq]
  · rfl

theorem tickets_le_set (hcell : s.cells[cell]? = some entry) (state : CellState R S O Q U) :
    s.tickets <+: (s.cells.set cell ⟨entry.ticket, state⟩).map PendingCell.ticket := by
  exact (tickets_set hcell state).symm ▸ prefix_refl _

theorem tickets_of_cell
    (hcell : s.cells[cell]? = some entry) : s.tickets[cell]? = some entry.ticket := by
  simp [tickets, hcell]

variable {old new : List (Work R S O Q U)}

/-- Calls that go on with what they were about. -/
theorem Linked.extend (hs : s.Linked) (hwork : Swaps old new s.work t.work)
    (hnew : ∀ work ∈ new, ∀ ticket cell, target work = some (ticket, cell) →
      s.tickets[cell]? = some ticket) (htickets : s.tickets <+: t.tickets)
    (htable : ∀ ticket cell, t.table.get? ticket = some cell → s.table.get? ticket = some cell ∨
      t.tickets[cell]? = some ticket) : t.Linked := by
  have hkeep : ∀ {cell ticket : Nat}, s.tickets[cell]? = some ticket →
      t.tickets[cell]? = some ticket := by
    intro cell ticket hticket
    obtain ⟨more, hmore⟩ := htickets
    obtain ⟨hlt, -⟩ := List.getElem?_eq_some_iff.mp hticket
    rw [← hmore, List.getElem?_append_left hlt]
    exact hticket
  constructor
  · intro work hmem ticket cell htarget
    obtain hmem | hmem := hwork.mem_after hmem
    · exact hkeep (hnew work hmem ticket cell htarget)
    · exact hkeep (hs.work work hmem ticket cell htarget)
  intro ticket cell hcell
  obtain hold | hnow := htable ticket cell hcell
  · exact hkeep (hs.table ticket cell hold)
  · exact hnow

theorem Effect.linked (h : Effect s events t) (hs : s.Linked) : t.Linked := by
  cases h with
  | idle => exact ⟨hs.work, hs.table⟩
  | begun _ _ _ begun _ hkind hwork =>
    refine hs.extend hwork ?_ (prefix_refl _) (fun _ _ => .inl)
    intro work hmem ticket cell htarget
    obtain rfl := mem_singleton.mp hmem
    obtain ⟨⟨_, rfl⟩, -⟩ | ⟨rfl, -⟩ := hkind <;> cases htarget
  | spurned _ _ _ _ hwork =>
    refine hs.extend hwork ?_ (prefix_refl _) (fun _ _ => .inl)
    simp [target]
  | installed ticket roots work hwork _ =>
    refine hs.extend hwork (by simp) ⟨[ticket], by simp [tickets]⟩ ?_
    intro key cell hcell
    obtain ⟨heq, rfl⟩ | ⟨-, hcell⟩ := OrdMap.get?_insert_eq_some.mp hcell
    · refine .inr ?_
      simp [tickets, heq]
    · exact .inl hcell
  | discarded _ _ _ hwork | dangling _ _ _ _ _ hwork | returned _ _ _ _ _ _ hwork
  | spared _ _ _ hwork | released _ hwork =>
    exact hs.extend hwork (by simp) (prefix_refl _) (fun _ _ => .inl)
  | unknown | duplicate | kept => exact ⟨hs.work, hs.table⟩
  | offered _ _ _ _ _ htable hwork | sought _ _ _ htable hwork =>
    refine hs.extend hwork ?_ (prefix_refl _) (fun _ _ => .inl)
    simp only [mem_singleton, forall_eq, target, Option.some.injEq, Prod.mk.injEq, and_imp]
    rintro ticket cell rfl rfl
    exact hs.table _ _ htable
  | published _ _ entry _ _ _ _ hwork hcell =>
    exact hs.extend hwork (by simp) (tickets_le_set hcell _) (fun _ _ => .inl)
  | precompleted ticket cell entry _ _ _ _ _ hwork hcell
  | abandoned ticket cell entry roots work hwork hcell =>
    refine hs.extend hwork ?_ (tickets_le_set hcell _) (fun _ _ => .inl)
    have hold := hs.work _ (hwork.old_mem (mem_singleton.mpr rfl)) ticket cell rfl
    simpa [target] using hold
  | terminalized ticket cell _ _ hwork | left ticket cell _ hwork
  | enqueued ticket cell _ _ _ hwork =>
    refine hs.extend hwork ?_ (prefix_refl _) (fun _ _ => .inl)
    have hold := hs.work _ (hwork.old_mem (mem_singleton.mpr rfl)) ticket cell rfl
    simpa [target] using hold
  | removed ticket cell work hwork =>
    refine hs.extend hwork (by simp) ?_ ?_
    · have htickets : (s.removeExact ticket cell).tickets = s.tickets := by
        rw [tickets, tickets, (removeExact_eq s ticket cell).1]
      exact htickets.symm ▸ prefix_refl _
    intro key position hposition
    exact .inl (removeExact_table hposition).1
  | stored cell entry _ _ hcell =>
    exact hs.extend .refl (by simp) (tickets_le_set hcell _) (fun _ _ => .inl)
  | completed cell entry _ _ _ _ hcell _ hwork =>
    refine hs.extend hwork ?_ (tickets_le_set hcell _) (fun _ _ => .inl)
    simpa [target] using tickets_of_cell hcell
  | resumed _ _ _ _ _ _ hwork | dropped _ _ _ _ hwork =>
    exact hs.extend hwork (by simp [target]) (prefix_refl _) (fun _ _ => .inl)

/-- The table lists the cells that are not claimed, and those whose removal is due. -/
structure Tabled (s : PendingRegistry R S O Q U) : Prop where
  listed : ∀ cell entry, s.cells[cell]? = some entry → entry.state ≠ .claimed →
    s.table.get? entry.ticket = some cell
  due : ∀ ticket cell, s.table.get? ticket = some cell → s.states[cell]? = some .claimed →
    ∃ work ∈ s.work, finishing work = true ∧ target work = some (ticket, cell)
  claimed : ∀ work ∈ s.work, finishing work = true → ∀ ticket cell,
    target work = some (ticket, cell) → s.states[cell]? = some .claimed

/-- Calls that go on without touching a cell or the table. -/
theorem Tabled.swap (hs : s.Tabled) (hcells : t.cells = s.cells)
    (htable : t.table = s.table) (hwork : Swaps old new s.work t.work)
    (hforth : ∀ work ∈ old, finishing work = true →
      ∃ work' ∈ new, finishing work' = true ∧ target work' = target work)
    (hback : ∀ work ∈ new, finishing work = true →
      ∃ work' ∈ old, finishing work' = true ∧ target work' = target work) : t.Tabled := by
  have hstates : t.states = s.states := by rw [states, states, hcells]
  refine ⟨?_, ?_, ?_⟩
  · rw [hcells, htable]
    exact hs.listed
  · rw [htable, hstates]
    intro ticket cell hcell hclaimed
    obtain ⟨work, hmem, hfinishing, htarget⟩ := hs.due ticket cell hcell hclaimed
    obtain hold | hkept := hwork.mem_before hmem
    · obtain ⟨work', hnew, hfinishing', htarget'⟩ := hforth work hold hfinishing
      exact ⟨work', hwork.new_mem hnew, hfinishing', htarget'.trans htarget⟩
    · exact ⟨work, hkept, hfinishing, htarget⟩
  rw [hstates]
  intro work hmem hfinishing ticket cell htarget
  obtain hnew | hkept := hwork.mem_after hmem
  · obtain ⟨work', hold, hfinishing', htarget'⟩ := hback work hnew hfinishing
    exact hs.claimed work' (hwork.old_mem hold) hfinishing' ticket cell (htarget'.trans htarget)
  · exact hs.claimed work hkept hfinishing ticket cell htarget

/-- A cell that is not claimed moves on; if it is claimed now, its removal is due. -/
theorem Tabled.set {state : CellState R S O Q U} (hs : s.Tabled) (hlinked : s.Linked)
    (hcell : s.cells[cell]? = some entry) (hopen : entry.state ≠ .claimed)
    (hcells : t.cells = s.cells.set cell ⟨entry.ticket, state⟩) (htable : t.table = s.table)
    (hwork : Swaps old new s.work t.work) (hold : ∀ work ∈ old, finishing work = false)
    (hnew : state ≠ .claimed ∧ new = [] ∨ state = .claimed ∧ ∃ work, new = [work] ∧
      finishing work = true ∧ target work = some (entry.ticket, cell)) : t.Tabled := by
  obtain ⟨hlt, hentry⟩ := List.getElem?_eq_some_iff.mp hcell
  have hstates : t.states = s.states.set cell state := by rw [states, states, hcells, List.map_set]
  have hother : ∀ {position}, position ≠ cell → t.states[position]? = s.states[position]? := by
    intro position hne
    rw [hstates, getElem?_set_ne (Ne.symm hne)]
  have hhere : t.states[cell]? = some state := by
    rw [hstates, getElem?_set_self (by simpa [states] using hlt)]
  have hbefore : s.states[cell]? = some entry.state := by simp [states, hcell]
  -- no call was about to remove the cell
  have hnone : ∀ work ∈ s.work, finishing work = true →
    ∀ ticket, target work ≠ some (ticket, cell) := by
    intro work hmem hfinishing ticket htarget
    have hclaimed := hs.claimed work hmem hfinishing ticket cell htarget
    rw [hbefore] at hclaimed
    exact hopen (Option.some.inj hclaimed)
  refine ⟨?_, ?_, ?_⟩
  · intro position entry' hposition hopen'
    rw [hcells] at hposition
    rw [htable]
    by_cases heq : position = cell
    · obtain rfl := heq
      rw [getElem?_set_self hlt] at hposition
      cases hposition
      exact hs.listed position entry hcell hopen
    rw [getElem?_set_ne (Ne.symm heq)] at hposition
    exact hs.listed position entry' hposition hopen'
  · rw [htable]
    intro ticket position hposition hclaimed
    by_cases heq : position = cell
    · obtain rfl := heq
      obtain ⟨hno, -⟩ | ⟨-, work, rfl, hfinishing, htarget⟩ := hnew
      · rw [hhere] at hclaimed
        exact absurd (Option.some.inj hclaimed) hno
      have hticket := hlinked.table ticket position hposition
      rw [tickets_of_cell hcell] at hticket
      cases hticket
      exact ⟨work, hwork.new_mem (mem_singleton.mpr rfl), hfinishing, htarget⟩
    rw [hother heq] at hclaimed
    obtain ⟨work, hmem, hfinishing, htarget⟩ := hs.due ticket position hposition hclaimed
    obtain hgone | hkept := hwork.mem_before hmem
    · rw [hold work hgone] at hfinishing
      cases hfinishing
    · exact ⟨work, hkept, hfinishing, htarget⟩
  intro work hmem hfinishing ticket position htarget
  obtain hmem | hmem := hwork.mem_after hmem
  · obtain ⟨-, rfl⟩ | ⟨rfl, work', rfl, -, htarget'⟩ := hnew
    · cases hmem
    obtain rfl := mem_singleton.mp hmem
    rw [htarget] at htarget'
    cases htarget'
    exact hhere
  have hclaimed := hs.claimed work hmem hfinishing ticket position htarget
  by_cases heq : position = cell
  · obtain rfl := heq
    exact absurd htarget (hnone work hmem hfinishing ticket)
  rw [hother heq]
  exact hclaimed

theorem Tabled.install {ticket : Nat} {roots : PendingRootSet Q} {old : List (Work R S O Q U)}
    (hs : s.Tabled) (hlinked : s.Linked) (hfree : s.table.get? ticket = none)
    (hcells : t.cells = s.cells ++ [⟨ticket, .opened roots⟩])
    (htable : t.table = s.table.insert ticket s.cells.length)
    (hwork : Swaps old [] s.work t.work) (hold : ∀ work ∈ old, finishing work = false) :
    t.Tabled := by
  have hstates : t.states = s.states ++ [.opened roots] := by
    rw [states, states, hcells, map_append]
    rfl
  have hlength : s.states.length = s.cells.length := by simp [states]
  refine ⟨?_, ?_, ?_⟩
  · intro position entry hposition hopen
    rw [hcells] at hposition
    rw [htable, OrdMap.get?_insert]
    by_cases hlt : position < s.cells.length
    · rw [List.getElem?_append_left hlt] at hposition
      have hlisted := hs.listed position entry hposition hopen
      split
      · rename_i heq
        rw [heq, hfree] at hlisted
        cases hlisted
      · exact hlisted
    rw [List.getElem?_append_right (by omega)] at hposition
    obtain ⟨hzero, rfl⟩ := List.getElem?_eq_some_iff.mp hposition
    have heq : position = s.cells.length := by
      rw [List.length_singleton] at hzero
      omega
    simp [heq]
  · intro key position hposition hclaimed
    rw [htable] at hposition
    obtain ⟨-, rfl⟩ | ⟨-, hposition⟩ := OrdMap.get?_insert_eq_some.mp hposition
    · rw [hstates, ← hlength, getElem?_concat_length] at hclaimed
      cases hclaimed
    have hticket := hlinked.table key position hposition
    obtain ⟨hlt, -⟩ := List.getElem?_eq_some_iff.mp hticket
    have hlt' : position < s.states.length := by simpa [tickets, states] using hlt
    rw [hstates, List.getElem?_append_left hlt'] at hclaimed
    obtain ⟨work, hmem, hfinishing, htarget⟩ := hs.due key position hposition hclaimed
    obtain hgone | hkept := hwork.mem_before hmem
    · rw [hold work hgone] at hfinishing
      cases hfinishing
    · exact ⟨work, hkept, hfinishing, htarget⟩
  intro work hmem hfinishing key position htarget
  obtain hmem | hmem := hwork.mem_after hmem
  · cases hmem
  have hclaimed := hs.claimed work hmem hfinishing key position htarget
  obtain ⟨hlt, -⟩ := List.getElem?_eq_some_iff.mp hclaimed
  rw [hstates, List.getElem?_append_left hlt]
  exact hclaimed

theorem Tabled.remove {ticket cell : Nat} {work : List (Work R S O Q U)} (hs : s.Tabled)
    (hlinked : s.Linked) (hwork : Swaps [.removing ticket cell] [] s.work work) :
    Tabled { s.removeExact ticket cell with work := work } := by
  have hcells := (removeExact_eq s ticket cell).1
  have hmine := hwork.old_mem (mem_singleton.mpr rfl)
  have hticket := hlinked.work _ hmine ticket cell rfl
  have hclaimed := hs.claimed _ hmine rfl ticket cell rfl
  have hstates : (s.removeExact ticket cell).states = s.states := by rw [states, states, hcells]
  refine ⟨?_, ?_, ?_⟩
  · intro position entry hposition hopen
    simp only [hcells] at hposition
    have hlisted := hs.listed position entry hposition hopen
    simp only [removeExact]
    split
    · rename_i hexact
      simp only [OrdMap.get?_erase]
      split
      · rename_i heq
        rw [heq, hexact] at hlisted
        cases hlisted
        simp only [states, getElem?_map, hposition, Option.map_some, Option.some.injEq] at hclaimed
        exact absurd hclaimed hopen
      · exact hlisted
    · exact hlisted
  · intro key position hposition hclaimed'
    obtain ⟨hold, hne⟩ := removeExact_table hposition
    have hclaimed'' : s.states[position]? = some .claimed := by
      rw [← hstates]
      exact hclaimed'
    obtain ⟨other, hmem, hfinishing, htarget⟩ := hs.due key position hold hclaimed''
    obtain hgone | hkept := hwork.mem_before hmem
    · obtain rfl := mem_singleton.mp hgone
      cases htarget
      exact absurd ⟨rfl, rfl⟩ hne
    · exact ⟨other, hkept, hfinishing, htarget⟩
  intro other hmem hfinishing key position htarget
  obtain hmem | hmem := hwork.mem_after hmem
  · cases hmem
  have hclaimed' := hs.claimed other hmem hfinishing key position htarget
  rw [← hstates] at hclaimed'
  exact hclaimed'

theorem Effect.tabled (h : Effect s events t) (hlinked : s.Linked) (hs : s.Tabled) : t.Tabled := by
  cases h with
  | idle => exact ⟨hs.listed, hs.due, hs.claimed⟩
  | begun _ _ _ begun _ hkind hwork =>
    refine hs.swap rfl rfl hwork (by simp) ?_
    intro work hmem hfinishing
    obtain rfl := mem_singleton.mp hmem
    obtain ⟨⟨_, rfl⟩, -⟩ | ⟨rfl, -⟩ := hkind <;> cases hfinishing
  | spurned _ _ _ _ hwork => exact hs.swap rfl rfl hwork (by simp [finishing]) (by simp [finishing])
  | installed ticket roots work hwork hfree =>
    exact hs.install hlinked hfree rfl rfl hwork (by simp [finishing])
  | discarded _ _ _ hwork | dangling _ _ _ _ _ hwork | returned _ _ _ _ _ _ hwork
  | spared _ _ _ hwork | released _ hwork =>
    exact hs.swap rfl rfl hwork (by simp [finishing]) (by simp)
  | unknown | duplicate | kept => exact ⟨hs.listed, hs.due, hs.claimed⟩
  | offered _ _ _ _ _ _ hwork | sought _ _ _ _ hwork | resumed _ _ _ _ _ _ hwork
  | dropped _ _ _ _ hwork => exact hs.swap rfl rfl hwork (by simp) (by simp [finishing])
  | published ticket cell entry draft queue roots work hwork hcell hstate =>
    exact hs.set hlinked hcell (by simp [hstate]) rfl rfl hwork (by simp [finishing])
      (.inl ⟨by simp, rfl⟩)
  | precompleted ticket cell entry _ _ _ _ _ hwork hcell hstate =>
    have hticket := hlinked.work _ (hwork.old_mem (mem_singleton.mpr rfl)) ticket cell rfl
    rw [tickets_of_cell hcell] at hticket
    cases hticket
    exact hs.set hlinked hcell (by simp [hstate]) rfl rfl hwork (by simp [finishing])
      (.inr ⟨rfl, _, rfl, rfl, rfl⟩)
  | abandoned ticket cell entry roots work hwork hcell hstate =>
    have hticket := hlinked.work _ (hwork.old_mem (mem_singleton.mpr rfl)) ticket cell rfl
    rw [tickets_of_cell hcell] at hticket
    cases hticket
    have hopen : entry.state ≠ .claimed := by
      obtain hopen | ⟨_, hsettled⟩ := hstate
      · simp [hopen]
      · simp [hsettled]
    exact hs.set hlinked hcell hopen rfl rfl hwork (by simp [finishing])
      (.inr ⟨rfl, _, rfl, rfl, rfl⟩)
  | terminalized ticket cell roots work hwork | left ticket cell work hwork
  | enqueued ticket cell queue wake work hwork =>
    exact hs.swap rfl rfl hwork (by simp [finishing, target]) (by simp [finishing, target])
  | removed ticket cell work hwork => exact hs.remove hlinked hwork
  | stored cell entry settlement roots hcell hstate =>
    exact hs.set hlinked hcell (by simp [hstate]) rfl rfl .refl (by simp) (.inl ⟨by simp, rfl⟩)
  | completed cell entry settlement queue owner work hcell hstate hwork =>
    exact hs.set hlinked hcell (by simp [hstate]) rfl rfl hwork (by simp)
      (.inr ⟨rfl, _, rfl, rfl, rfl⟩)

/-! ## Tickets -/

def workTicket : Work R S O Q U → Multiset Nat
  | .installing ticket _ => {ticket}
  | _ => 0

/-- The tickets that cells carry or are about to. -/
def drawn (s : PendingRegistry R S O Q U) : Multiset Nat :=
  (s.tickets : Multiset Nat) + (s.work.map workTicket).sum

/-- The counter is ahead of every ticket, and no ticket was drawn twice. -/
def Fresh (s : PendingRegistry R S O Q U) : Prop :=
  s.drawn.Nodup ∧ ∀ ticket ∈ s.drawn, ticket < s.nextTicket

theorem Fresh.of_le (h : s.Fresh) (hdrawn : t.drawn ≤ s.drawn)
    (hnext : s.nextTicket ≤ t.nextTicket) :
    t.Fresh := by
  refine ⟨Multiset.nodup_of_le hdrawn h.1, ?_⟩
  intro ticket hmem
  exact lt_of_lt_of_le (h.2 ticket (Multiset.mem_of_le hdrawn hmem)) hnext

theorem Fresh.of_eq (h : s.Fresh) (hdrawn : t.drawn = s.drawn)
    (hnext : s.nextTicket ≤ t.nextTicket) :
    t.Fresh := h.of_le hdrawn.le hnext

/-- Calls that go on without drawing or spending a ticket. -/
theorem drawn_swap (htickets : t.tickets = s.tickets) (hwork : Swaps old new s.work t.work)
    (hnone : (old.map workTicket).sum = (new.map workTicket).sum) : t.drawn = s.drawn := by
  have hsum := hwork.sum workTicket
  rw [hnone] at hsum
  rw [drawn, drawn, htickets, add_right_cancel hsum]

theorem Effect.fresh (h : Effect s events t) (hs : s.Fresh) : t.Fresh := by
  cases h with
  | idle _ _ hle => exact hs.of_eq rfl hle
  | begun escrow retained next begun work hkind hwork =>
    obtain ⟨⟨_, rfl⟩, rfl⟩ | ⟨rfl, rfl⟩ := hkind
    · exact hs.of_eq (drawn_swap rfl hwork rfl) le_rfl
    have hsum := hwork.sum workTicket
    have hdrawn : drawn { s with nextTicket := s.nextTicket + 1, work := work } =
        s.nextTicket ::ₘ s.drawn := by
      simp only [map_nil, map_cons, sum_nil, sum_cons, add_zero, workTicket] at hsum
      rw [drawn, drawn, ← hsum, ← Multiset.singleton_add, tickets, tickets]
      abel
    constructor
    · rw [hdrawn, Multiset.nodup_cons]
      refine ⟨?_, hs.1⟩
      intro hmem
      exact lt_irrefl _ (hs.2 _ hmem)
    rw [hdrawn]
    intro ticket hmem
    obtain rfl | hmem := Multiset.mem_cons.mp hmem
    · exact Nat.lt_succ_self _
    · exact lt_trans (hs.2 ticket hmem) (Nat.lt_succ_self _)
  | installed ticket roots work hwork _ =>
    refine hs.of_eq ?_ le_rfl
    have hsum := hwork.sum workTicket
    simp only [map_nil, map_cons, sum_nil, sum_cons, add_zero, workTicket] at hsum
    rw [drawn, drawn, hsum]
    simp only [tickets, map_append, map_cons, map_nil, ← Multiset.coe_add, Multiset.coe_singleton]
    abel
  | spurned ticket _ _ _ hwork =>
    refine hs.of_le ?_ le_rfl
    have hsum := hwork.sum workTicket
    simp only [map_nil, map_cons, sum_nil, sum_cons, add_zero, workTicket] at hsum
    rw [drawn, drawn, hsum, ← add_assoc]
    exact Multiset.le_add_right _ _
  | discarded _ _ _ hwork | dangling _ _ _ _ _ hwork | returned _ _ _ _ _ _ hwork
  | spared _ _ _ hwork | released _ hwork | offered _ _ _ _ _ _ hwork | sought _ _ _ _ hwork
  | resumed _ _ _ _ _ _ hwork | dropped _ _ _ _ hwork | terminalized _ _ _ _ hwork
  | left _ _ _ hwork | enqueued _ _ _ _ _ hwork => exact hs.of_eq (drawn_swap rfl hwork rfl) le_rfl
  | unknown | duplicate | kept => exact hs
  | published _ _ _ _ _ _ _ hwork hcell | precompleted _ _ _ _ _ _ _ _ hwork hcell
  | abandoned _ _ _ _ _ hwork hcell | completed _ _ _ _ _ _ hcell _ hwork =>
    exact hs.of_eq (drawn_swap (tickets_set hcell _) hwork rfl) le_rfl
  | removed ticket cell _ hwork =>
    have hcells := (removeExact_eq s ticket cell).1
    refine hs.of_eq (drawn_swap ?_ hwork rfl) ?_
    · rw [tickets, tickets, hcells]
    unfold removeExact
    split <;> exact le_rfl
  | stored _ _ _ _ hcell => exact hs.of_eq (drawn_swap (tickets_set hcell _) .refl rfl) le_rfl

end PendingRegistry
end Skiff.Scheduler
