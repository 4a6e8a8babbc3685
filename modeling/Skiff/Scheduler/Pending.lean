import Skiff.Data.OrdMap
import Skiff.Data.Run
import Skiff.Data.Swaps

/-!
# Pending operations

A pending cell joins two events that may come in either order: the fiber that publishes
its suspended owner, and the first of the completion, cancellation, deadline and internal
stop that settles it. Whoever comes second claims the cell and enqueues the wake.

Cells are behind mutexes of their own, the registry table behind another, and roots are
discarded, leases released and wakes enqueued outside both. `Work` is what a call in
progress still has to do, and every piece of it is a step of its own, so that a run is any
interleaving of any number of callers. An `Arc` to a cell is its position in `cells`.

The owner lease of a cell is armed before the table lock that installs it is released;
every state but `claimed` carries one, so it is not a field of its own.
-/

namespace Skiff.Scheduler

open Swaps Option

inductive SettlementSource where
  | hostCompletion
  | cancellation
  | deadline
  | internalStop
deriving DecidableEq

inductive RootDisposition where
  | cancelled
  | deadline
  | internalStop
  | publicationFailed
  | ownerAbandoned
deriving DecidableEq

/-- How an escrow ends: `restore` or `discard`. -/
inductive EscrowTerminal where
  | restored
  | discarded (disposition : RootDisposition)
deriving DecidableEq

/-- The retained pin knows the owner inventory it was minted for. -/
structure RequestResourceRootPin where
  inventory : Nat
  pin : Nat
deriving DecidableEq

structure PendingRootSet (Q : Type) where
  transferred : Option Q
  retained : Option RequestResourceRootPin
deriving DecidableEq

structure PendingOwnerDraft (R S : Type) where
  resume : R
  suspended : S
deriving DecidableEq

structure PendingOwner (R S Q : Type) where
  ticket : Nat
  roots : PendingRootSet Q
  resume : Option R
  suspended : S
deriving DecidableEq

def PendingOwnerDraft.attach {R S Q : Type} (draft : PendingOwnerDraft R S) (ticket : Nat)
    (roots : PendingRootSet Q) : PendingOwner R S Q :=
  ⟨ticket, roots, some draft.resume, draft.suspended⟩

structure PendingSettlement (O : Type) where
  source : SettlementSource
  outcome : O
deriving DecidableEq

structure PendingWake (R S O Q : Type) where
  owner : PendingOwner R S Q
  settlement : PendingSettlement O
deriving DecidableEq

inductive PendingPublicationFailure where
  | unknownOrAlreadyPublishedTicket
  | cellAlreadyWaiting
  | cellAlreadyClaimed
deriving DecidableEq

inductive BeginPendingError where
  | ticketSpaceExhausted
  | ticketCollision
  | ownerCreation
  | resourceOwnerMismatch
deriving DecidableEq

/-- `settle_transferred`: what becomes of the escrow when the wake is resumed. -/
def SettlementSource.terminal : SettlementSource → EscrowTerminal
  | .hostCompletion => .restored
  | .cancellation => .discarded .cancelled
  | .deadline => .discarded .deadline
  | .internalStop => .discarded .internalStop

inductive CellState (R S O Q U : Type) where
  | opened (roots : PendingRootSet Q)
  | waiting (queue : U) (owner : PendingOwner R S Q)
  | settled (settlement : PendingSettlement O) (roots : PendingRootSet Q)
  | claimed

structure PendingCell (R S O Q U : Type) where
  ticket : Nat
  state : CellState R S O Q U

/-- The wake that a call took out of a cell, and the queue it goes to. -/
abbrev Enqueue (R S O Q U : Type) := U × PendingWake R S O Q

section CellTransitions

variable {R S O Q U : Type}

/-- `PendingCell::publish` up to the enqueue. -/
def PendingCell.publish (cell : PendingCell R S O Q U) (draft : PendingOwnerDraft R S) (queue : U) :
    Except PendingPublicationFailure (Option (Enqueue R S O Q U) × CellState R S O Q U) :=
  match cell.state with
  | .opened roots => .ok (none, .waiting queue (draft.attach cell.ticket roots))
  | .settled settlement roots =>
    .ok (some (queue, ⟨draft.attach cell.ticket roots, settlement⟩), .claimed)
  | .waiting .. => .error .cellAlreadyWaiting
  | .claimed => .error .cellAlreadyClaimed

/-- `PendingCell::settle` up to the enqueue; `none` hands the settlement back. -/
def PendingCell.settle (cell : PendingCell R S O Q U) (settlement : PendingSettlement O) :
    Option (Option (Enqueue R S O Q U) × CellState R S O Q U) :=
  match cell.state with
  | .opened roots => some (none, .settled settlement roots)
  | .waiting queue owner => some (some (queue, ⟨owner, settlement⟩), .claimed)
  | .settled .. | .claimed => none

/-- `abandon_before_publication`: the roots to discard. -/
def PendingCell.abandonBeforePublication (cell : PendingCell R S O Q U) :
    Option (PendingRootSet Q) :=
  match cell.state with
  | .opened roots | .settled _ roots => some roots
  | .waiting .. | .claimed => none

end CellTransitions

/-- What a call in progress still has to do. -/
inductive Work (R S O Q U : Type) where
  /-- `begin` with its ticket, before `prepare`. -/
  | installing (ticket : Nat) (roots : PendingRootSet Q)
  /-- `begin` that failed. -/
  | discarding (roots : PendingRootSet Q) (reason : BeginPendingError)
  /-- `publish` and `abandon` after the table lookup. -/
  | publishing (ticket cell : Nat) (draft : PendingOwnerDraft R S) (queue : U)
  | abandoning (ticket cell : Nat)
  /-- `abandon` that claimed the cell: the roots first, the lease next. -/
  | terminalizing (ticket cell : Nat) (roots : PendingRootSet Q)
  | leaving (ticket cell : Nat)
  | enqueueing (ticket cell : Nat) (queue : U) (wake : PendingWake R S O Q)
  | removing (ticket cell : Nat)
  /-- The lease of a wake that was resumed or dropped. -/
  | releasing

/-- What an observer sees of a step. -/
inductive PendingEvent (R S O Q U : Type) where
  | escrowed (escrow : Q)
  | installed (cell ticket : Nat) (roots : PendingRootSet Q)
  | refused (reason : BeginPendingError)
  | offered (draft : PendingOwnerDraft R S)
  | published (cell : Nat) (draft : PendingOwnerDraft R S) (queue : U)
  | returned (draft : PendingOwnerDraft R S) (reason : PendingPublicationFailure)
  | settled (cell : Nat) (settlement : PendingSettlement O)
  | duplicate (cell : Nat) (settlement : PendingSettlement O)
  | abandoned (cell : Nat)
  | enqueued (cell : Nat) (queue : U) (wake : PendingWake R S O Q)
  | resumed (wake : PendingWake R S O Q)
  | terminated (escrow : Q) (terminal : EscrowTerminal)
deriving DecidableEq

/-- The registry with its cells, the pending part of the owner inventory, the calls in
progress and the wakes that a queue or a resumer holds. -/
structure PendingRegistry (R S O Q U : Type) where
  inventory : Nat
  frozen : Bool
  current : Nat
  nextTicket : Nat
  cells : List (PendingCell R S O Q U)
  table : OrdMap Nat Nat
  work : List (Work R S O Q U)
  wakes : List (PendingWake R S O Q)

inductive PendingAction (R S O Q U : Type) where
  | freeze
  /-- Another registry of the process draws a ticket. -/
  | drawElsewhere
  | begin (escrow : Q) (retained : Option RequestResourceRootPin)
  | publish (ticket : Nat) (draft : PendingOwnerDraft R S) (queue : U)
  | abandon (ticket : Nat)
  /-- A clone of the completion handle of a cell. -/
  | settle (cell : Nat) (settlement : PendingSettlement O)
  /-- Some call in progress goes on. -/
  | proceed (position : Nat)
  | resume (position : Nat) (accepted : Bool)
  | dropWake (position : Nat)

namespace PendingRegistry

variable {R S O Q U : Type}

def maxU64 : Nat := 2 ^ 64 - 1

def new (inventory nextTicket : Nat) : PendingRegistry R S O Q U :=
  ⟨inventory, false, 0, nextTicket, [], ∅, [], []⟩

variable (registry : PendingRegistry R S O Q U)

/-- A call begins, or goes on, with this left to do. -/
def push (work : List (Work R S O Q U)) : PendingRegistry R S O Q U :=
  { registry with work := registry.work ++ work }

def setCell (cell : Nat) (value : PendingCell R S O Q U) : PendingRegistry R S O Q U :=
  { registry with cells := registry.cells.set cell value }

/-- `matches_resource_root_pin`. -/
def matchesPin (retained : Option RequestResourceRootPin) : Bool :=
  retained.all fun pin => pin.inventory == registry.inventory

/-- `begin` and `begin_with_resource_roots` up to the inventory. -/
def begin (escrow : Q) (retained : Option RequestResourceRootPin) :
    List (PendingEvent R S O Q U) × PendingRegistry R S O Q U :=
  let roots := ⟨some escrow, retained⟩
  if registry.matchesPin retained = false then
    ([.escrowed escrow], registry.push [.discarding roots .resourceOwnerMismatch])
  else if registry.nextTicket = maxU64 then
    ([.escrowed escrow], registry.push [.discarding roots .ticketSpaceExhausted])
  else
    ([.escrowed escrow],
      { registry with nextTicket := registry.nextTicket + 1 }.push
        [.installing registry.nextTicket roots])

/-- `prepare` and `install_with_guard`, which hold the inventory lock and the table lock. -/
def install (ticket : Nat) (roots : PendingRootSet Q) :
    List (PendingEvent R S O Q U) × PendingRegistry R S O Q U :=
  if registry.frozen ∨ registry.current = maxU64 then
    ([], registry.push [.discarding roots .ownerCreation])
  else if registry.table.contains ticket then
    ([], registry.push [.discarding roots .ticketCollision])
  else
    ([.installed registry.cells.length ticket roots],
      { registry with
        cells := registry.cells ++ [⟨ticket, .opened roots⟩]
        table := registry.table.insert ticket registry.cells.length
        current := registry.current + 1 })

/-- `discard_transferred`. -/
def discardTransferred (roots : PendingRootSet Q) (disposition : RootDisposition) :
    List (PendingEvent R S O Q U) :=
  roots.transferred.toList.map fun escrow => .terminated escrow (.discarded disposition)

/-- `RegistryInner::remove_exact`. -/
def removeExact (ticket cell : Nat) : PendingRegistry R S O Q U :=
  if registry.table.get? ticket = some cell then
    { registry with table := registry.table.erase ticket }
  else registry

/-- The enqueue that a transition leaves to its caller, and the removal after it. -/
def enqueueWork (ticket cell : Nat) : Option (Enqueue R S O Q U) → List (Work R S O Q U)
  | none => []
  | some (queue, wake) => [.enqueueing ticket cell queue wake]

/-- One piece of work, already taken off the list. -/
def perform : Work R S O Q U → List (PendingEvent R S O Q U) × PendingRegistry R S O Q U
  | .installing ticket roots => registry.install ticket roots
  | .discarding roots reason =>
    (discardTransferred roots .publicationFailed ++ [.refused reason], registry)
  | .publishing ticket cell draft queue =>
    match registry.cells[cell]? with
    | none => ([], registry)
    | some entry =>
      match entry.publish draft queue with
      | .error reason => ([.returned draft reason], registry)
      | .ok (wake, state) =>
        ([.published cell draft queue],
          (registry.setCell cell ⟨entry.ticket, state⟩).push (enqueueWork ticket cell wake))
  | .abandoning ticket cell =>
    match registry.cells[cell]? with
    | none => ([], registry)
    | some entry =>
      match entry.abandonBeforePublication with
      | none => ([], registry)
      | some roots =>
        ([.abandoned cell],
          (registry.setCell cell ⟨entry.ticket, .claimed⟩).push [.terminalizing ticket cell roots])
  | .terminalizing ticket cell roots =>
    (discardTransferred roots .publicationFailed, registry.push [.leaving ticket cell])
  | .leaving ticket cell =>
    ([], { registry with current := registry.current - 1 }.push [.removing ticket cell])
  | .enqueueing ticket cell queue wake =>
    ([.enqueued cell queue wake],
      { registry with wakes := registry.wakes ++ [wake] }.push [.removing ticket cell])
  | .removing ticket cell => ([], registry.removeExact ticket cell)
  | .releasing => ([], { registry with current := registry.current - 1 })

def publish (ticket : Nat) (draft : PendingOwnerDraft R S) (queue : U) :
    List (PendingEvent R S O Q U) × PendingRegistry R S O Q U :=
  match registry.table.get? ticket with
  | none => ([.offered draft, .returned draft .unknownOrAlreadyPublishedTicket], registry)
  | some cell => ([.offered draft], registry.push [.publishing ticket cell draft queue])

def abandon (ticket : Nat) : List (PendingEvent R S O Q U) × PendingRegistry R S O Q U :=
  match registry.table.get? ticket with
  | none => ([], registry)
  | some cell => ([], registry.push [.abandoning ticket cell])

/-- `CompletionHandle::settle`, with the cell that the handle points to. -/
def settle (cell : Nat) (entry : PendingCell R S O Q U) (settlement : PendingSettlement O) :
    List (PendingEvent R S O Q U) × PendingRegistry R S O Q U :=
  match entry.settle settlement with
  | none => ([.duplicate cell settlement], registry)
  | some (wake, state) =>
    ([.settled cell settlement],
      (registry.setCell cell ⟨entry.ticket, state⟩).push (enqueueWork entry.ticket cell wake))

/-- `resume_and_commit`: the escrow is settled by the source of the wake, then the callback
accepts or keeps the guard with the rest. A guard without its escrow is not resumed again. -/
def resume (position : Nat) (wake : PendingWake R S O Q) (escrow : Q) (accepted : Bool) :
    List (PendingEvent R S O Q U) × PendingRegistry R S O Q U :=
  let events := [.resumed wake, .terminated escrow wake.settlement.source.terminal]
  let rest := { registry with wakes := registry.wakes.eraseIdx position }
  if accepted then (events, rest.push [.releasing])
  else
    (events,
      { rest with
        wakes := rest.wakes ++ [{ wake with owner.roots.transferred := none }] })

/-- A wake, or a guard that was not resumed, is dropped: its escrow, then its lease. -/
def dropWake (position : Nat) (wake : PendingWake R S O Q) :
    List (PendingEvent R S O Q U) × PendingRegistry R S O Q U :=
  (discardTransferred wake.owner.roots .ownerAbandoned,
    { registry with wakes := registry.wakes.eraseIdx position }.push [.releasing])

/-- One step of some caller; `none` if there is no such call, handle or wake. -/
def step : PendingAction R S O Q U →
    Option (List (PendingEvent R S O Q U) × PendingRegistry R S O Q U)
  | .freeze => some ([], { registry with frozen := true })
  | .drawElsewhere =>
    if registry.nextTicket = maxU64 then none
    else some ([], { registry with nextTicket := registry.nextTicket + 1 })
  | .begin escrow retained => some (registry.begin escrow retained)
  | .publish ticket draft queue => some (registry.publish ticket draft queue)
  | .abandon ticket => some (registry.abandon ticket)
  | .settle cell settlement =>
    registry.cells[cell]?.map fun entry => registry.settle cell entry settlement
  | .proceed position =>
    registry.work[position]?.map fun work =>
      { registry with work := registry.work.eraseIdx position }.perform work
  | .resume position accepted =>
    registry.wakes[position]?.bind fun wake =>
      wake.owner.roots.transferred.map fun escrow => registry.resume position wake escrow accepted
  | .dropWake position => registry.wakes[position]?.map fun wake => registry.dropWake position wake

end PendingRegistry

/-- A step as an observer sees it. -/
structure PendingLabel (R S O Q U : Type) where
  action : PendingAction R S O Q U
  events : List (PendingEvent R S O Q U)

namespace PendingRegistry

variable {R S O Q U : Type}

def Step (s : PendingRegistry R S O Q U) (label : PendingLabel R S O Q U)
    (t : PendingRegistry R S O Q U) : Prop :=
  s.step label.action = some (label.events, t)

/-- What a step can do. The calls in progress are a bag, so only what was exchanged in it
matters. -/
inductive Effect (s : PendingRegistry R S O Q U) :
    List (PendingEvent R S O Q U) → PendingRegistry R S O Q U → Prop
  | idle (frozen : Bool) (next : Nat) : s.nextTicket ≤ next →
      Effect s [] { s with frozen := frozen, nextTicket := next }
  | begun (escrow : Q) (retained : Option RequestResourceRootPin) (next : Nat)
      (begun : Work R S O Q U) (work : List (Work R S O Q U)) :
      ((∃ reason, begun = .discarding ⟨some escrow, retained⟩ reason) ∧ next = s.nextTicket ∨
        begun = .installing s.nextTicket ⟨some escrow, retained⟩ ∧ next = s.nextTicket + 1) →
      Swaps [] [begun] s.work work →
      Effect s [.escrowed escrow] { s with nextTicket := next, work := work }
  | spurned (ticket : Nat) (roots : PendingRootSet Q) (reason : BeginPendingError)
      (work : List (Work R S O Q U)) :
      Swaps [.installing ticket roots] [.discarding roots reason] s.work work →
      Effect s [] { s with work := work }
  | installed (ticket : Nat) (roots : PendingRootSet Q) (work : List (Work R S O Q U)) :
      Swaps [.installing ticket roots] [] s.work work → s.table.get? ticket = none →
      Effect s [.installed s.cells.length ticket roots]
        { s with
          cells := s.cells ++ [⟨ticket, .opened roots⟩]
          table := s.table.insert ticket s.cells.length
          current := s.current + 1
          work := work }
  | discarded (roots : PendingRootSet Q) (reason : BeginPendingError)
      (work : List (Work R S O Q U)) :
      Swaps [.discarding roots reason] [] s.work work →
      Effect s (discardTransferred roots .publicationFailed ++ [.refused reason])
        { s with work := work }
  | unknown (draft : PendingOwnerDraft R S) (reason : PendingPublicationFailure) :
      Effect s [.offered draft, .returned draft reason] s
  | offered (ticket cell : Nat) (draft : PendingOwnerDraft R S) (queue : U)
      (work : List (Work R S O Q U)) :
      s.table.get? ticket = some cell →
      Swaps [] [.publishing ticket cell draft queue] s.work work →
      Effect s [.offered draft] { s with work := work }
  | dangling (ticket cell : Nat) (draft : PendingOwnerDraft R S) (queue : U)
      (work : List (Work R S O Q U)) :
      Swaps [.publishing ticket cell draft queue] [] s.work work → s.cells[cell]? = none →
      Effect s [] { s with work := work }
  | returned (ticket cell : Nat) (draft : PendingOwnerDraft R S) (queue : U)
      (reason : PendingPublicationFailure) (work : List (Work R S O Q U)) :
      Swaps [.publishing ticket cell draft queue] [] s.work work →
      Effect s [.returned draft reason] { s with work := work }
  | published (ticket cell : Nat) (entry : PendingCell R S O Q U) (draft : PendingOwnerDraft R S)
      (queue : U) (roots : PendingRootSet Q) (work : List (Work R S O Q U)) :
      Swaps [.publishing ticket cell draft queue] [] s.work work →
      s.cells[cell]? = some entry → entry.state = .opened roots →
      Effect s [.published cell draft queue]
        { s with
          cells := s.cells.set cell ⟨entry.ticket, .waiting queue (draft.attach entry.ticket roots)⟩
          work := work }
  | precompleted (ticket cell : Nat) (entry : PendingCell R S O Q U)
      (draft : PendingOwnerDraft R S) (queue : U) (settlement : PendingSettlement O)
      (roots : PendingRootSet Q) (work : List (Work R S O Q U)) :
      Swaps [.publishing ticket cell draft queue]
        [.enqueueing ticket cell queue ⟨draft.attach entry.ticket roots, settlement⟩] s.work work →
      s.cells[cell]? = some entry → entry.state = .settled settlement roots →
      Effect s [.published cell draft queue]
        { s with cells := s.cells.set cell ⟨entry.ticket, .claimed⟩, work := work }
  | sought (ticket cell : Nat) (work : List (Work R S O Q U)) :
      s.table.get? ticket = some cell → Swaps [] [.abandoning ticket cell] s.work work →
      Effect s [] { s with work := work }
  | spared (ticket cell : Nat) (work : List (Work R S O Q U)) :
      Swaps [.abandoning ticket cell] [] s.work work → Effect s [] { s with work := work }
  | abandoned (ticket cell : Nat) (entry : PendingCell R S O Q U) (roots : PendingRootSet Q)
      (work : List (Work R S O Q U)) :
      Swaps [.abandoning ticket cell] [.terminalizing ticket cell roots] s.work work →
      s.cells[cell]? = some entry →
      (entry.state = .opened roots ∨ ∃ settlement, entry.state = .settled settlement roots) →
      Effect s [.abandoned cell]
        { s with cells := s.cells.set cell ⟨entry.ticket, .claimed⟩, work := work }
  | terminalized (ticket cell : Nat) (roots : PendingRootSet Q) (work : List (Work R S O Q U)) :
      Swaps [.terminalizing ticket cell roots] [.leaving ticket cell] s.work work →
      Effect s (discardTransferred roots .publicationFailed) { s with work := work }
  | left (ticket cell : Nat) (work : List (Work R S O Q U)) :
      Swaps [.leaving ticket cell] [.removing ticket cell] s.work work →
      Effect s [] { s with current := s.current - 1, work := work }
  | enqueued (ticket cell : Nat) (queue : U) (wake : PendingWake R S O Q)
      (work : List (Work R S O Q U)) :
      Swaps [.enqueueing ticket cell queue wake] [.removing ticket cell] s.work work →
      Effect s [.enqueued cell queue wake]
        { s with wakes := s.wakes ++ [wake], work := work }
  | removed (ticket cell : Nat) (work : List (Work R S O Q U)) :
      Swaps [.removing ticket cell] [] s.work work →
      Effect s [] { s.removeExact ticket cell with work := work }
  | released (work : List (Work R S O Q U)) :
      Swaps [.releasing] [] s.work work →
      Effect s [] { s with current := s.current - 1, work := work }
  | duplicate (cell : Nat) (entry : PendingCell R S O Q U) (settlement : PendingSettlement O) :
      s.cells[cell]? = some entry →
      (entry.state = .claimed ∨ ∃ first roots, entry.state = .settled first roots) →
      Effect s [.duplicate cell settlement] s
  | stored (cell : Nat) (entry : PendingCell R S O Q U) (settlement : PendingSettlement O)
      (roots : PendingRootSet Q) :
      s.cells[cell]? = some entry → entry.state = .opened roots →
      Effect s [.settled cell settlement]
        { s with cells := s.cells.set cell ⟨entry.ticket, .settled settlement roots⟩ }
  | completed (cell : Nat) (entry : PendingCell R S O Q U) (settlement : PendingSettlement O)
      (queue : U) (owner : PendingOwner R S Q) (work : List (Work R S O Q U)) :
      s.cells[cell]? = some entry → entry.state = .waiting queue owner →
      Swaps [] [.enqueueing entry.ticket cell queue ⟨owner, settlement⟩] s.work work →
      Effect s [.settled cell settlement]
        { s with cells := s.cells.set cell ⟨entry.ticket, .claimed⟩, work := work }
  | resumed (wake : PendingWake R S O Q) (escrow : Q) (wakes : List (PendingWake R S O Q))
      (work : List (Work R S O Q U)) :
      wake.owner.roots.transferred = some escrow → Swaps [wake] [] s.wakes wakes →
      Swaps [] [.releasing] s.work work →
      Effect s [.resumed wake, .terminated escrow wake.settlement.source.terminal]
        { s with wakes := wakes, work := work }
  | kept (wake : PendingWake R S O Q) (escrow : Q) (wakes : List (PendingWake R S O Q)) :
      wake.owner.roots.transferred = some escrow →
      Swaps [wake] [{ wake with owner.roots.transferred := none }] s.wakes wakes →
      Effect s [.resumed wake, .terminated escrow wake.settlement.source.terminal]
        { s with wakes := wakes }
  | dropped (wake : PendingWake R S O Q) (wakes : List (PendingWake R S O Q))
      (work : List (Work R S O Q U)) :
      Swaps [wake] [] s.wakes wakes → Swaps [] [.releasing] s.work work →
      Effect s (discardTransferred wake.owner.roots .ownerAbandoned)
        { s with wakes := wakes, work := work }

variable {s t : PendingRegistry R S O Q U} {label : PendingLabel R S O Q U}
variable {events : List (PendingEvent R S O Q U)}

theorem effect_begin (escrow : Q) (retained : Option RequestResourceRootPin) :
    Effect s (s.begin escrow retained).1 (s.begin escrow retained).2 := by
  unfold begin
  simp only
  split
  · exact .begun escrow retained s.nextTicket _ _ (.inl ⟨⟨_, rfl⟩, rfl⟩) (append _ _)
  split
  · exact .begun escrow retained s.nextTicket _ _ (.inl ⟨⟨_, rfl⟩, rfl⟩) (append _ _)
  · exact .begun escrow retained (s.nextTicket + 1) _ _ (.inr ⟨rfl, rfl⟩) (append _ _)

/-- The work that a step takes off the list and the work it leaves. -/
theorem effect_perform {position : Nat} {work : Work R S O Q U}
    (hwork : s.work[position]? = some work) :
    Effect s ({ s with work := s.work.eraseIdx position }.perform work).1
      ({ s with work := s.work.eraseIdx position }.perform work).2 := by
  have hswap := fun new => eraseIdx hwork new
  have hgone : Swaps [work] [] s.work (s.work.eraseIdx position) := by
    simpa using hswap []
  cases work with
  | installing ticket roots =>
    simp only [perform, install]
    split
    · exact .spurned ticket roots _ _ (hswap _)
    split
    · exact .spurned ticket roots _ _ (hswap _)
    rename_i hfree
    refine .installed ticket roots _ hgone ?_
    rw [OrdMap.contains_iff, not_exists] at hfree
    exact eq_none_iff_forall_ne_some.mpr hfree
  | discarding roots reason => exact .discarded roots reason _ hgone
  | publishing ticket cell draft queue =>
    simp only [perform]
    split
    · rename_i hcell
      exact .dangling ticket cell draft queue _ hgone hcell
    rename_i entry hcell
    split
    · exact .returned ticket cell draft queue _ _ hgone
    rename_i wake state hpublish
    unfold PendingCell.publish at hpublish
    split at hpublish
    · rename_i roots hopen
      cases hpublish
      exact .published ticket cell entry draft queue roots _ (hswap []) hcell hopen
    · rename_i settlement roots hsettled
      cases hpublish
      exact .precompleted ticket cell entry draft queue settlement roots _ (hswap _) hcell hsettled
    all_goals cases hpublish
  | abandoning ticket cell =>
    simp only [perform]
    split
    · exact .spared ticket cell _ hgone
    rename_i entry hcell
    split
    · exact .spared ticket cell _ hgone
    rename_i roots habandon
    refine .abandoned ticket cell entry roots _ (hswap _) hcell ?_
    unfold PendingCell.abandonBeforePublication at habandon
    split at habandon
    · rename_i hopen
      cases habandon
      exact .inl hopen
    · rename_i settlement _ hsettled
      cases habandon
      exact .inr ⟨settlement, hsettled⟩
    all_goals cases habandon
  | terminalizing ticket cell roots => exact .terminalized ticket cell roots _ (hswap _)
  | leaving ticket cell => exact .left ticket cell _ (hswap _)
  | enqueueing ticket cell queue wake => exact .enqueued ticket cell queue wake _ (hswap _)
  | removing ticket cell =>
    have hremoved := Effect.removed ticket cell (s.work.eraseIdx position) hgone
    by_cases hexact : s.table.get? ticket = some cell
    · simpa [perform, removeExact, hexact] using hremoved
    · simpa [perform, removeExact, hexact] using hremoved
  | releasing => exact .released _ hgone

theorem effect_settle {cell : Nat} {entry : PendingCell R S O Q U}
    (hcell : s.cells[cell]? = some entry) (settlement : PendingSettlement O) :
    Effect s (s.settle cell entry settlement).1 (s.settle cell entry settlement).2 := by
  unfold settle PendingCell.settle
  cases hstate : entry.state with
  | opened roots =>
    have hstored := Effect.stored cell entry settlement roots hcell hstate
    simpa [push, setCell, enqueueWork] using hstored
  | waiting queue owner =>
    exact .completed cell entry settlement queue owner _ hcell hstate (append _ _)
  | settled first roots =>
    exact .duplicate cell entry settlement hcell (.inr ⟨first, roots, hstate⟩)
  | claimed => exact .duplicate cell entry settlement hcell (.inl hstate)

theorem effect_resume {position : Nat} {wake : PendingWake R S O Q} {escrow : Q}
    (hwake : s.wakes[position]? = some wake) (hescrow : wake.owner.roots.transferred = some escrow)
    (accepted : Bool) :
    Effect s (s.resume position wake escrow accepted).1
      (s.resume position wake escrow accepted).2 := by
  unfold resume
  cases accepted with
  | true => exact .resumed wake escrow _ _ hescrow (by simpa using eraseIdx hwake []) (append _ _)
  | false => exact .kept wake escrow _ hescrow (eraseIdx hwake _)

theorem step_effect (hstep : Step s label t) : Effect s label.events t := by
  obtain ⟨action, events⟩ := label
  cases action with
  | freeze =>
    cases hstep
    exact .idle true s.nextTicket le_rfl
  | drawElsewhere =>
    simp only [Step, step] at hstep
    split at hstep
    · cases hstep
    cases hstep
    exact .idle s.frozen (s.nextTicket + 1) (by omega)
  | begin escrow retained =>
    have heffect := effect_begin (s := s) escrow retained
    rw [some.inj hstep] at heffect
    exact heffect
  | publish ticket draft queue =>
    have hpublish : s.publish ticket draft queue = (events, t) := some.inj hstep
    unfold publish at hpublish
    split at hpublish
    · cases hpublish
      exact .unknown draft _
    rename_i cell hcell
    cases hpublish
    exact .offered ticket cell draft queue _ hcell (append _ _)
  | abandon ticket =>
    have habandon : s.abandon ticket = (events, t) := some.inj hstep
    unfold abandon at habandon
    split at habandon
    · cases habandon
      exact .idle s.frozen s.nextTicket le_rfl
    rename_i cell hcell
    cases habandon
    exact .sought ticket cell _ hcell (append _ _)
  | settle cell settlement =>
    obtain ⟨entry, hcell, hsettle⟩ := map_eq_some_iff.mp hstep
    have heffect := effect_settle hcell settlement
    rw [hsettle] at heffect
    exact heffect
  | proceed position =>
    obtain ⟨work, hwork, hperform⟩ := map_eq_some_iff.mp hstep
    have heffect := effect_perform hwork
    rw [hperform] at heffect
    exact heffect
  | resume position accepted =>
    obtain ⟨wake, hwake, hbind⟩ := bind_eq_some_iff.mp hstep
    obtain ⟨escrow, hescrow, hresume⟩ := map_eq_some_iff.mp hbind
    have heffect := effect_resume hwake hescrow accepted
    rw [hresume] at heffect
    exact heffect
  | dropWake position =>
    obtain ⟨wake, hwake, hdrop⟩ := map_eq_some_iff.mp hstep
    cases hdrop
    exact .dropped wake _ _ (by simpa using eraseIdx hwake []) (append _ _)

end PendingRegistry
end Skiff.Scheduler
