import Skiff.Scheduler.HeapCarrier

/-!
# The flat trampoline

`FlatTrampoline` (`runtime/scheduler/src/trampoline.rs`) keeps a chain of execution units
without recursion: entering a child moves the active unit, its heap carrier and a resume
token into the list of blocked parents, and completing the active unit takes the last
parent out again. A suspended trampoline has the same parts and no operation but `resume`.

Units, resume tokens, results, outcomes and finish continuations are opaque. The capacity
of the list and the owner inventory answer each entry. While a parent is blocked, its heap
can be written through `parent_heap_mut`, and the active unit and its carrier can change
freely. A carrier that cannot release its roots panics when it is dropped. The list of
blocked parents is kept with the last one first.
-/

namespace Skiff.Scheduler

open Skiff.Runtime (VmHeapError)
open ChildHeapCarrier List

inductive EnterChildError where
  | capacityExceeded
  | ownerCreation (kind : OwnerCreationErrorKind)

/-- One parent that is blocked on its child. -/
structure BlockedUnit (U R F H : Type) where
  parent : U
  resume : R
  ownerLease : Bool
  parentHeap : Option (ChildHeapCarrier H)
  finish : Option F

structure FlatTrampoline (U R F H : Type) where
  active : U
  activeHeap : Option (ChildHeapCarrier H) := none
  blocked : List (BlockedUnit U R F H) := []

structure SuspendedTrampoline (U R F H : Type) where
  active : U
  activeHeap : Option (ChildHeapCarrier H)
  blocked : List (BlockedUnit U R F H)

/-- What `finish_continue` decides. -/
inductive ChildFinishResult (U O E F : Type) where
  | resumeParent (outcome : O)
  | continueChild (unit : U) (finish : F)
  | failed (error : E)

/-- The trait of finish continuations. `finish_continue` may change the continuation, the
active unit, the child's carrier and the heap of the parent. -/
structure ChildFinish (U R V O E F H : Type) where
  finishContinue : F → R → V → U → ChildHeapCarrier H → H →
    ChildFinishResult U O E F × F × U × ChildHeapCarrier H × H
  suspend : F → F
  resume : F → F

inductive ChildFinishError (V E : Type) where
  | unsupportedChild (result : V)
  | finish (error : E)

inductive TrampolineCompletion (U R O F H : Type) where
  | resumeParent (trampoline : FlatTrampoline U R F H) (resume : R) (outcome : O)
  | continueChild (trampoline : FlatTrampoline U R F H)
  | rootComplete (outcome : O)
  | panicked

variable {U R V O E F H : Type}

/-- Dropping a carrier releases its roots, and panics if that fails. -/
def dropHeap (ops : VmHeap H) : Option (ChildHeapCarrier H) → Except VmHeapError Unit
  | none => .ok ()
  | some carrier => (carrier.releasePublishedRoots ops).1

namespace BlockedUnit

/-- Apply a change to the finish continuation. -/
def notify (change : F → F) (unit : BlockedUnit U R F H) : BlockedUnit U R F H :=
  { unit with finish := unit.finish.map change }

/-- Write to the heap of a blocked parent, through its carrier. -/
def editHeap (edit : H → H) (unit : BlockedUnit U R F H) : BlockedUnit U R F H :=
  { unit with parentHeap :=
      unit.parentHeap.map fun carrier => { carrier with heap := edit carrier.heap } }

end BlockedUnit

namespace FlatTrampoline

variable (trampoline : FlatTrampoline U R F H)

def enterChild (child : U) (resume : R) (reserved : Bool)
    (prepared : Except OwnerCreationErrorKind Unit) :
    Except EnterChildError Unit × FlatTrampoline U R F H :=
  if reserved = false then (.error .capacityExceeded, trampoline)
  else
    match prepared with
    | .error kind => (.error (.ownerCreation kind), trampoline)
    | .ok () =>
      (.ok (), {
        active := child
        activeHeap := none
        blocked := {
          parent := trampoline.active
          resume := resume
          ownerLease := true
          parentHeap := trampoline.activeHeap
          finish := none } :: trampoline.blocked })

def enterChildWithHeap (child : U) (resume : R) (childHeap : ChildHeapCarrier H)
    (reserved : Bool) (prepared : Except OwnerCreationErrorKind Unit) :
    Except EnterChildError Unit × FlatTrampoline U R F H :=
  match trampoline.enterChild child resume reserved prepared with
  | (.error error, trampoline) => (.error error, trampoline)
  | (.ok (), trampoline) => (.ok (), { trampoline with activeHeap := some childHeap })

/-- A rejected entry hands its arguments back. -/
def enterChildWithFinish (child : U) (resume : R) (childHeap : ChildHeapCarrier H) (finish : F)
    (reserved : Bool) (prepared : Except OwnerCreationErrorKind Unit) :
    Except (EnterChildError × U × R × ChildHeapCarrier H × F) Unit × FlatTrampoline U R F H :=
  if reserved = false then
    (.error (.capacityExceeded, child, resume, childHeap, finish), trampoline)
  else
    match prepared with
    | .error kind => (.error (.ownerCreation kind, child, resume, childHeap, finish), trampoline)
    | .ok () =>
      (.ok (), {
        active := child
        activeHeap := some childHeap
        blocked := {
          parent := trampoline.active
          resume := resume
          ownerLease := true
          parentHeap := trampoline.activeHeap
          finish := some finish } :: trampoline.blocked })

/-- The trampoline with its last parent active again. -/
def restore (ops : VmHeap H) (parent : BlockedUnit U R F H)
    (blocked : List (BlockedUnit U R F H)) (outcome : O) : TrampolineCompletion U R O F H :=
  match dropHeap ops trampoline.activeHeap with
  | .error _ => .panicked
  | .ok () =>
    .resumeParent
      { active := parent.parent, activeHeap := parent.parentHeap, blocked := blocked }
      parent.resume outcome

def completeActive (ops : VmHeap H) (outcome : O) : TrampolineCompletion U R O F H :=
  match trampoline.blocked with
  | parent :: blocked => trampoline.restore ops parent blocked outcome
  | [] =>
    match dropHeap ops trampoline.activeHeap with
    | .error _ => .panicked
    | .ok () => .rootComplete outcome

/-- `complete_active_child`. A failed finish gives the trampoline back. -/
def completeActiveChild (ops : VmHeap H) (finishes : ChildFinish U R V O E F H) (result : V)
    (fallbackHeap : H) :
    Except (ChildFinishError V E × FlatTrampoline U R F H) (TrampolineCompletion U R O F H) :=
  match trampoline.blocked with
  | [] => .ok .panicked
  | parent :: blocked =>
    match parent.finish, trampoline.activeHeap with
    | none, _ => .error (.unsupportedChild result, trampoline)
    | some _, none => .ok .panicked
    | some finish, some childHeap =>
      let parentHeap := (parent.parentHeap.map heap).getD fallbackHeap
      match finishes.finishContinue finish parent.resume result trampoline.active childHeap
          parentHeap with
      | (.resumeParent outcome, _, _, childHeap, parentHeap) =>
        .ok (restore { trampoline with activeHeap := some childHeap } ops
          (parent.editHeap fun _ => parentHeap) blocked outcome)
      | (.continueChild unit finish, _, _, childHeap, parentHeap) =>
        .ok (.continueChild {
          active := unit
          activeHeap := some childHeap
          blocked :=
            { parent.editHeap fun _ => parentHeap with finish := some finish } :: blocked })
      | (.failed error, finish, active, childHeap, parentHeap) =>
        .error (.finish error, {
          active := active
          activeHeap := some childHeap
          blocked :=
            { parent.editHeap fun _ => parentHeap with finish := some finish } :: blocked })

/-- The list of blocked parents with its last one changed. -/
def mapLast (change : BlockedUnit U R F H → BlockedUnit U R F H) :
    List (BlockedUnit U R F H) → List (BlockedUnit U R F H)
  | [] => []
  | parent :: blocked => change parent :: blocked

def suspend (finishes : ChildFinish U R V O E F H) : SuspendedTrampoline U R F H where
  active := trampoline.active
  activeHeap := trampoline.activeHeap
  blocked := mapLast (BlockedUnit.notify finishes.suspend) trampoline.blocked

end FlatTrampoline

def SuspendedTrampoline.resume (trampoline : SuspendedTrampoline U R F H)
    (finishes : ChildFinish U R V O E F H) : FlatTrampoline U R F H where
  active := trampoline.active
  activeHeap := trampoline.activeHeap
  blocked := FlatTrampoline.mapLast (BlockedUnit.notify finishes.resume) trampoline.blocked

/-! ## Runs -/

/-- An invocation chain: runnable, or moved into a pending owner. -/
inductive Chain (U R F H : Type) where
  | running (trampoline : FlatTrampoline U R F H)
  | suspended (trampoline : SuspendedTrampoline U R F H)

inductive TrampolineEvent (U R V O F H : Type) where
  | enterChild (child : U) (resume : R) (reserved : Bool)
      (prepared : Except OwnerCreationErrorKind Unit)
  | enterChildWithHeap (child : U) (resume : R) (childHeap : ChildHeapCarrier H)
      (reserved : Bool) (prepared : Except OwnerCreationErrorKind Unit)
  | enterChildWithFinish (child : U) (resume : R) (childHeap : ChildHeapCarrier H) (finish : F)
      (reserved : Bool) (prepared : Except OwnerCreationErrorKind Unit)
  | completeActive (outcome : O)
  | completeActiveChild (result : V) (fallbackHeap : H)
  | suspend
  | resume
  | runActive (edit : U → U) (editHeap : ChildHeapCarrier H → ChildHeapCarrier H)
  | editParentHeap (edit : H → H)

/-- What the caller sees of an event: a child was entered, a parent was handed back with its
token, the call was rejected, or the chain has the same parents. -/
inductive Effect (R O : Type) where
  | entered (resume : R)
  | returned (resume : R) (outcome : O)
  | rejected
  | kept

namespace Chain

/-- An entry is accepted or rejected. -/
def enter (resume : R) {ε : Type} :
    Except ε Unit × FlatTrampoline U R F H → Effect R O × Chain U R F H
  | (.ok (), trampoline) => (.entered resume, .running trampoline)
  | (.error _, trampoline) => (.rejected, .running trampoline)

/-- A completion; a root that completes and a panic end the chain. -/
def complete : TrampolineCompletion U R O F H → Option (Effect R O × Chain U R F H)
  | .resumeParent trampoline resume outcome => some (.returned resume outcome, .running trampoline)
  | .continueChild trampoline => some (.kept, .running trampoline)
  | .rootComplete _ | .panicked => none

/-- A completion of a child. A finish that fails gives the chain back. -/
def completeChild :
    Except (ChildFinishError V E × FlatTrampoline U R F H) (TrampolineCompletion U R O F H) →
      Option (Effect R O × Chain U R F H)
  | .ok completion => complete completion
  | .error (.unsupportedChild _, trampoline) => some (.rejected, .running trampoline)
  | .error (.finish _, trampoline) => some (.kept, .running trampoline)

/-- The events that are possible in a chain, and what they do. -/
def apply (ops : VmHeap H) (finishes : ChildFinish U R V O E F H) :
    Chain U R F H → TrampolineEvent U R V O F H → Option (Effect R O × Chain U R F H)
  | .running trampoline, .enterChild child resume reserved prepared =>
    some (enter resume (trampoline.enterChild child resume reserved prepared))
  | .running trampoline, .enterChildWithHeap child resume childHeap reserved prepared =>
    some (enter resume (trampoline.enterChildWithHeap child resume childHeap reserved prepared))
  | .running trampoline, .enterChildWithFinish child resume childHeap finish reserved prepared =>
    some (enter resume
      (trampoline.enterChildWithFinish child resume childHeap finish reserved prepared))
  | .running trampoline, .completeActive outcome => complete (trampoline.completeActive ops outcome)
  | .running trampoline, .completeActiveChild result fallbackHeap =>
    completeChild (trampoline.completeActiveChild ops finishes result fallbackHeap)
  | .running trampoline, .suspend => some (.kept, .suspended (trampoline.suspend finishes))
  | .suspended trampoline, .resume => some (.kept, .running (trampoline.resume finishes))
  | .running trampoline, .runActive edit editHeap =>
    some (.kept, .running { trampoline with
      active := edit trampoline.active
      activeHeap := trampoline.activeHeap.map editHeap })
  | .running trampoline, .editParentHeap edit =>
    some (.kept, .running { trampoline with
      blocked := FlatTrampoline.mapLast (BlockedUnit.editHeap edit) trampoline.blocked })
  | .running _, .resume => none
  -- A suspended chain can only be resumed.
  | .suspended _, _ => none

def Step (ops : VmHeap H) (finishes : ChildFinish U R V O E F H) (chain : Chain U R F H)
    (label : TrampolineEvent U R V O F H × Effect R O) (next : Chain U R F H) : Prop :=
  chain.apply ops finishes label.1 = some (label.2, next)

def active : Chain U R F H → U
  | .running trampoline => trampoline.active
  | .suspended trampoline => trampoline.active

def activeHeap : Chain U R F H → Option (ChildHeapCarrier H)
  | .running trampoline => trampoline.activeHeap
  | .suspended trampoline => trampoline.activeHeap

def blocked : Chain U R F H → List (BlockedUnit U R F H)
  | .running trampoline => trampoline.blocked
  | .suspended trampoline => trampoline.blocked

end Chain

/-! ## Entries and completions -/

namespace Effect

def entries : Effect R O → Nat
  | entered _ => 1
  | returned _ _ | rejected | kept => 0

def returns : Effect R O → Nat
  | returned _ _ => 1
  | entered _ | rejected | kept => 0

end Effect

/-- The labels of a run: what was called, and its effect. -/
abbrev Labels (U R V O F H : Type) := List (TrampolineEvent U R V O F H × Effect R O)

namespace Labels

def entries (labels : Labels U R V O F H) : Nat := (labels.map fun l => l.2.entries).sum

def returns (labels : Labels U R V O F H) : Nat := (labels.map fun l => l.2.returns).sum

/-- Well bracketed labels: each entry is followed by its completion, with well bracketed
labels between the two. -/
inductive Balanced : Labels U R V O F H → Prop where
  | nil : Balanced []
  | same {labels} (h : Balanced labels) (event : TrampolineEvent U R V O F H)
      {effect : Effect R O} (heffect : effect = .kept ∨ effect = .rejected) :
      Balanced (labels ++ [(event, effect)])
  | call {labels inner} (h : Balanced labels) (hinner : Balanced inner)
      (entry : TrampolineEvent U R V O F H) (resume : R)
      (completion : TrampolineEvent U R V O F H) (resume' : R) (outcome : O) :
      Balanced (labels ++ ((entry, .entered resume) :: inner ++
        [(completion, .returned resume' outcome)]))

variable {labels more : Labels U R V O F H}

theorem Balanced.append (h : labels.Balanced) (h' : more.Balanced) : Balanced (labels ++ more) := by
  induction h' with
  | nil =>
    rw [append_nil]
    exact h
  | same _ event heffect ih =>
    rw [← append_assoc]
    exact ih.same event heffect
  | call _ hinner entry resume completion resume' outcome ih _ =>
    rw [← append_assoc]
    exact ih.call hinner entry resume completion resume' outcome

@[simp] theorem entries_append :
    Labels.entries (labels ++ more) = labels.entries + more.entries := by
  simp [entries]

@[simp] theorem returns_append :
    Labels.returns (labels ++ more) = labels.returns + more.returns := by
  simp [returns]

@[simp] theorem entries_cons {l : TrampolineEvent U R V O F H × Effect R O} :
    Labels.entries (l :: labels) = l.2.entries + labels.entries := by
  simp [entries]

@[simp] theorem returns_cons {l : TrampolineEvent U R V O F H × Effect R O} :
    Labels.returns (l :: labels) = l.2.returns + labels.returns := by
  simp [returns]

@[simp] theorem entries_nil : Labels.entries ([] : Labels U R V O F H) = 0 := rfl

@[simp] theorem returns_nil : Labels.returns ([] : Labels U R V O F H) = 0 := rfl

theorem Balanced.total (h : labels.Balanced) : labels.entries = labels.returns := by
  induction h with
  | nil => rfl
  | same _ event heffect ih =>
    obtain rfl | rfl := heffect
    · simpa [Effect.entries, Effect.returns] using ih
    · simpa [Effect.entries, Effect.returns] using ih
  | call _ _ entry resume completion resume' outcome ih ihinner =>
    simp [Effect.entries, Effect.returns, ih, ihinner]
    omega

end Labels

/-! ## What a step does to the parents -/

/-- A carrier without the contents of its heap. -/
def ChildHeapCarrier.bundle (carrier : ChildHeapCarrier H) : ChildHeapCarrier Unit where
  heap := ()
  domain := carrier.domain
  epoch := carrier.epoch
  boundaryOwnerRegistration := carrier.boundaryOwnerRegistration
  boundaryOwnerLease := carrier.boundaryOwnerLease
  staging := carrier.staging

/-- The calls that cannot write to the heap of a blocked parent. -/
def TrampolineEvent.KeepsParentHeaps : TrampolineEvent U R V O F H → Prop
  | .completeActiveChild _ _ | .editParentHeap _ => False
  | .enterChild .. | .enterChildWithHeap .. | .enterChildWithFinish .. | .completeActive _
  | .suspend | .resume | .runActive _ _ => True

/-- The same carrier, up to the contents of its heap if the event can write there. -/
def SameHeap (event : TrampolineEvent U R V O F H)
    (before after : Option (ChildHeapCarrier H)) : Prop :=
  after.map bundle = before.map bundle ∧ (event.KeepsParentHeaps → after = before)

theorem SameHeap.refl (event : TrampolineEvent U R V O F H)
    (heap : Option (ChildHeapCarrier H)) : SameHeap event heap heap :=
  ⟨rfl, fun _ => rfl⟩

namespace BlockedUnit

/-- What the entry gave to the frame, without the carrier. -/
def frame (unit : BlockedUnit U R F H) : U × R := (unit.parent, unit.resume)

/-- A change of a frame that only touches its continuation and the contents of its heap. -/
def Keeps (event : TrampolineEvent U R V O F H)
    (change : BlockedUnit U R F H → BlockedUnit U R F H) : Prop :=
  ∀ unit, (change unit).frame = unit.frame ∧ SameHeap event unit.parentHeap (change unit).parentHeap

theorem sameHeap_editHeap (edit : H → H) {event : TrampolineEvent U R V O F H}
    (hevent : ¬ event.KeepsParentHeaps) (unit : BlockedUnit U R F H) :
    SameHeap event unit.parentHeap (unit.editHeap edit).parentHeap := by
  refine ⟨?_, fun h => absurd h hevent⟩
  show (Option.map _ unit.parentHeap).map _ = _
  rw [Option.map_map]
  rfl

theorem keeps_notify (change : F → F) (event : TrampolineEvent U R V O F H) :
    Keeps event (notify change : BlockedUnit U R F H → BlockedUnit U R F H) := by
  intro unit
  exact ⟨rfl, .refl _ _⟩

end BlockedUnit

namespace Chain

variable {ops : VmHeap H} {finishes : ChildFinish U R V O E F H}
variable {chain next : Chain U R F H} {event : TrampolineEvent U R V O F H}

/-- What a step does, by its effect. -/
inductive Moves (event : TrampolineEvent U R V O F H) (chain : Chain U R F H) :
    Effect R O → Chain U R F H → Prop where
  | entered {after : Chain U R F H} (parent : BlockedUnit U R F H)
      (hparent : parent.parent = chain.active) (hheap : parent.parentHeap = chain.activeHeap)
      (hblocked : after.blocked = parent :: chain.blocked) :
      Moves event chain (.entered parent.resume) after
  | returned {after : Chain U R F H} (parent : BlockedUnit U R F H) (outcome : O)
      (hblocked : chain.blocked = parent :: after.blocked) (hactive : after.active = parent.parent)
      (hheap : SameHeap event parent.parentHeap after.activeHeap) :
      Moves event chain (.returned parent.resume outcome) after
  | rejected : Moves event chain .rejected chain
  | kept {after : Chain U R F H} (change : BlockedUnit U R F H → BlockedUnit U R F H)
      (hchange : BlockedUnit.Keeps event change)
      (hblocked : after.blocked = FlatTrampoline.mapLast change chain.blocked) :
      Moves event chain .kept after

variable {trampoline : FlatTrampoline U R F H} {effect : Effect R O}
variable {prepared : Except OwnerCreationErrorKind Unit} {resume : R}

variable {reserved : Bool} {childHeap : ChildHeapCarrier H}

theorem moves_enterChild {child : U}
    (h : enter resume (trampoline.enterChild child resume reserved prepared) = (effect, next)) :
    Moves event (.running trampoline) effect next := by
  unfold FlatTrampoline.enterChild at h
  split at h
  case isTrue =>
    cases h
    exact .rejected
  case isFalse =>
    cases prepared with
    | error kind =>
      cases h
      exact .rejected
    | ok =>
      cases h
      exact .entered ⟨trampoline.active, resume, true, trampoline.activeHeap, none⟩ rfl rfl rfl

theorem moves_enterChildWithHeap {child : U}
    (h : enter resume (trampoline.enterChildWithHeap child resume childHeap reserved prepared) =
      (effect, next)) :
    Moves event (.running trampoline) effect next := by
  unfold FlatTrampoline.enterChildWithHeap FlatTrampoline.enterChild at h
  cases reserved with
  | false =>
    cases h
    exact .rejected
  | true =>
    cases prepared with
    | error kind =>
      cases h
      exact .rejected
    | ok =>
      cases h
      exact .entered ⟨trampoline.active, resume, true, trampoline.activeHeap, none⟩ rfl rfl rfl

theorem moves_enterChildWithFinish {child : U} {finish : F}
    (h : enter resume (trampoline.enterChildWithFinish child resume childHeap finish reserved
      prepared) = (effect, next)) :
    Moves event (.running trampoline) effect next := by
  unfold FlatTrampoline.enterChildWithFinish at h
  split at h
  case isTrue =>
    cases h
    exact .rejected
  case isFalse =>
    cases prepared with
    | error kind =>
      cases h
      exact .rejected
    | ok =>
      cases h
      exact .entered ⟨trampoline.active, resume, true, trampoline.activeHeap, some finish⟩
        rfl rfl rfl

/-- A parent that is restored comes back with its token. -/
theorem moves_restore {parent moved : BlockedUnit U R F H} {blocked : List (BlockedUnit U R F H)}
    {child : FlatTrampoline U R F H} {outcome : O}
    (hblocked : trampoline.blocked = parent :: blocked) (hframe : moved.frame = parent.frame)
    (hheap : SameHeap event parent.parentHeap moved.parentHeap)
    (h : complete (child.restore ops moved blocked outcome) = some (effect, next)) :
    Moves event (.running trampoline) effect next := by
  unfold FlatTrampoline.restore at h
  obtain ⟨hparent, hresume⟩ := Prod.mk.inj hframe
  split at h
  case h_1 => cases h
  case h_2 =>
    cases h
    rw [hresume]
    exact .returned parent outcome hblocked hparent hheap

theorem moves_completeActive {outcome : O}
    (h : complete (trampoline.completeActive ops outcome) = some (effect, next)) :
    Moves event (.running trampoline) effect next := by
  unfold FlatTrampoline.completeActive at h
  split at h
  case h_1 parent blocked hblocked => exact moves_restore hblocked rfl (.refl _ _) h
  case h_2 =>
    split at h
    case h_1 | h_2 => cases h

/-- A finish that keeps the child keeps the frame of its parent. -/
theorem moves_continue {parent : BlockedUnit U R F H} {blocked : List (BlockedUnit U R F H)}
    {finish : F} {heap : H} (hevent : ¬ event.KeepsParentHeaps)
    (hblocked : trampoline.blocked = parent :: blocked) (hnext : next.blocked =
      { parent.editHeap fun _ => heap with finish := some finish } :: blocked) :
    Moves event (.running trampoline) (.kept (R := R) (O := O)) next := by
  refine .kept (fun unit => { unit.editHeap fun _ => heap with finish := some finish }) ?_ ?_
  · intro unit
    exact ⟨rfl, BlockedUnit.sameHeap_editHeap (fun _ => heap) hevent unit⟩
  rw [hnext]
  show _ = FlatTrampoline.mapLast _ trampoline.blocked
  rw [hblocked]
  rfl

theorem moves_completeActiveChild {result : V} {fallbackHeap : H}
    (h : completeChild (trampoline.completeActiveChild ops finishes result fallbackHeap) =
      some (effect, next)) :
    Moves (.completeActiveChild result fallbackHeap) (.running trampoline) effect next := by
  have hevent : ¬ (TrampolineEvent.completeActiveChild result fallbackHeap :
      TrampolineEvent U R V O F H).KeepsParentHeaps := not_false
  obtain ⟨active, activeHeap, blocked⟩ := trampoline
  cases blocked with
  | nil => cases h
  | cons parent blocked =>
    obtain ⟨unit, resume, ownerLease, parentHeap, finish⟩ := parent
    cases finish with
    | none =>
      cases h
      exact .rejected
    | some finish =>
      cases activeHeap with
      | none => cases h
      | some childHeap =>
        dsimp only [FlatTrampoline.completeActiveChild] at h
        split at h
        case h_1 =>
          refine moves_restore rfl ?_ ?_ h
          · rfl
          · exact BlockedUnit.sameHeap_editHeap _ hevent _
        case h_2 | h_3 =>
          cases h
          exact moves_continue hevent rfl rfl

/-- Every step is one of the moves. -/
theorem step_moves (h : chain.Step ops finishes (event, effect) next) :
    chain.Moves event effect next := by
  have happly : chain.apply ops finishes event = some (effect, next) := h
  cases chain with
  | suspended trampoline =>
    cases event with
    | resume =>
      cases happly
      exact .kept _ (BlockedUnit.keeps_notify finishes.resume _) rfl
    | _ => cases happly
  | running trampoline =>
    cases event with
    | enterChild child resume reserved prepared => exact moves_enterChild (Option.some.inj happly)
    | enterChildWithHeap child resume childHeap reserved prepared =>
      exact moves_enterChildWithHeap (Option.some.inj happly)
    | enterChildWithFinish child resume childHeap finish reserved prepared =>
      exact moves_enterChildWithFinish (Option.some.inj happly)
    | completeActive outcome => exact moves_completeActive happly
    | completeActiveChild result fallbackHeap => exact moves_completeActiveChild happly
    | suspend =>
      cases happly
      exact .kept _ (BlockedUnit.keeps_notify finishes.suspend _) rfl
    | resume => cases happly
    | runActive edit editHeap =>
      cases happly
      refine .kept id ?_ ?_
      · intro unit
        exact ⟨rfl, .refl _ _⟩
      show trampoline.blocked = FlatTrampoline.mapLast id trampoline.blocked
      cases trampoline.blocked with
      | nil | cons parent blocked => rfl
    | editParentHeap edit =>
      cases happly
      refine .kept _ ?_ rfl
      intro unit
      have hevent : ¬ (TrampolineEvent.editParentHeap edit :
          TrampolineEvent U R V O F H).KeepsParentHeaps := not_false
      exact ⟨rfl, BlockedUnit.sameHeap_editHeap edit hevent unit⟩

/-! ## Every run -/

/-- The entry of a blocked parent: the chain as it was before, and well bracketed labels
since. -/
structure EnteredAt (ops : VmHeap H) (finishes : ChildFinish U R V O E F H)
    (start : Chain U R F H) (labels : Labels U R V O F H) (active : U) (resume : R)
    (heap : Option (ChildHeapCarrier H)) (frames : List (U × R))
    (before inner : Labels U R V O F H) (entry : TrampolineEvent U R V O F H)
    (entered : Chain U R F H) : Prop where
  split : labels = before ++ (entry, .entered resume) :: inner
  balanced : inner.Balanced
  run : Run (Step ops finishes) start before entered
  active_eq : active = entered.active
  frames_eq : frames = entered.blocked.map BlockedUnit.frame
  bundle_eq : heap.map bundle = entered.activeHeap.map bundle
  heap_eq : (∀ l ∈ inner, l.1.KeepsParentHeaps) → heap = entered.activeHeap

/-- Each blocked parent has its entry, and the parents below it were entered before. -/
inductive Opens (ops : VmHeap H) (finishes : ChildFinish U R V O E F H)
    (start : Chain U R F H) : Labels U R V O F H → List (BlockedUnit U R F H) → Prop where
  | nil {labels} (h : labels.Balanced) : Opens ops finishes start labels []
  | cons {labels parent blocked before inner entry entered}
      (h : EnteredAt ops finishes start labels parent.parent parent.resume parent.parentHeap
        (blocked.map BlockedUnit.frame) before inner entry entered)
      (hbelow : Opens ops finishes start before blocked) :
      Opens ops finishes start labels (parent :: blocked)

variable {start : Chain U R F H} {labels more : Labels U R V O F H}
variable {blocked : List (BlockedUnit U R F H)}

theorem Opens.depth (h : Opens ops finishes start labels blocked) :
    blocked.length + labels.returns = labels.entries := by
  induction h with
  | nil h => rw [h.total, length_nil, Nat.zero_add]
  | cons h _ ih =>
    rw [h.split]
    have hinner := h.balanced.total
    simp only [Labels.entries_append, Labels.returns_append, Labels.entries_cons,
      Labels.returns_cons, Effect.entries, Effect.returns, length_cons]
    omega

variable {heap : Option (ChildHeapCarrier H)}

variable {before inner : Labels U R V O F H} {entry : TrampolineEvent U R V O F H}

theorem EnteredAt.append {active : U} {frames : List (U × R)} {entered : Chain U R F H}
    (h : EnteredAt ops finishes start labels active resume heap frames before inner entry entered)
    (hmore : more.Balanced) :
    EnteredAt ops finishes start (labels ++ more) active resume heap frames before
      (inner ++ more) entry entered where
  split := by rw [h.split, append_assoc, cons_append]
  balanced := h.balanced.append hmore
  run := h.run
  active_eq := h.active_eq
  frames_eq := h.frames_eq
  bundle_eq := h.bundle_eq
  heap_eq := by
    intro hkeeps
    exact h.heap_eq fun l hl => hkeeps l (mem_append_left _ hl)

/-- Well bracketed labels leave the parents as they are. -/
theorem Opens.append (h : Opens ops finishes start labels blocked) (hmore : more.Balanced) :
    Opens ops finishes start (labels ++ more) blocked := by
  cases h with
  | nil h => exact .nil (h.append hmore)
  | cons h hbelow => exact .cons (h.append hmore) hbelow

/-- The carrier of a parent whose heap was written to is the one it was entered with. -/
theorem EnteredAt.sameHeap {active : U}
    {heap heap' : Option (ChildHeapCarrier H)} {frames : List (U × R)}
    {entered : Chain U R F H}
    (h : EnteredAt ops finishes start (labels ++ [(event, effect)]) active resume heap frames
      before (inner ++ [(event, effect)]) entry entered) (hheap : SameHeap event heap heap') :
    EnteredAt ops finishes start (labels ++ [(event, effect)]) active resume heap' frames before
      (inner ++ [(event, effect)]) entry entered where
  split := h.split
  balanced := h.balanced
  run := h.run
  active_eq := h.active_eq
  frames_eq := h.frames_eq
  bundle_eq := hheap.1.trans h.bundle_eq
  heap_eq := by
    intro hkeeps
    rw [hheap.2 (hkeeps (event, effect) (mem_append_right _ (mem_singleton_self _)))]
    exact h.heap_eq hkeeps

/-- A change of the last frame keeps its entry. -/
theorem Opens.keep {change : BlockedUnit U R F H → BlockedUnit U R F H}
    (h : Opens ops finishes start labels blocked) (hchange : BlockedUnit.Keeps event change) :
    Opens ops finishes start (labels ++ [(event, .kept)])
      (FlatTrampoline.mapLast change blocked) := by
  have hone : Labels.Balanced ([(event, .kept)] : Labels U R V O F H) := .same .nil event (.inl rfl)
  cases h with
  | nil h => exact .nil (h.append hone)
  | @cons _ parent blocked before inner entry entered h hbelow =>
    obtain ⟨hframe, hheap⟩ := hchange parent
    obtain ⟨hparent, hresume⟩ := Prod.mk.inj hframe
    have hentered := (h.append hone).sameHeap hheap
    rw [← hparent, ← hresume] at hentered
    exact .cons hentered hbelow

theorem Opens.step (h : Opens ops finishes start labels chain.blocked)
    (hrun : Run (Step ops finishes) start labels chain) (hmoves : chain.Moves event effect next) :
    Opens ops finishes start (labels ++ [(event, effect)]) next.blocked := by
  cases hmoves with
  | entered parent hparent hheap hblocked =>
    rw [hblocked]
    have hentered : EnteredAt ops finishes start (labels ++ [(event, .entered parent.resume)])
        parent.parent parent.resume parent.parentHeap (chain.blocked.map BlockedUnit.frame)
        labels [] event chain :=
      ⟨rfl, .nil, hrun, hparent, rfl, by rw [hheap], fun _ => hheap⟩
    exact .cons hentered h
  | returned parent outcome hblocked hactive hheap =>
    rw [hblocked] at h
    cases h with
    | @cons _ _ _ before inner entry entered h hbelow =>
      have hclosed := hbelow.append
        (.call .nil h.balanced entry parent.resume event parent.resume outcome)
      rw [nil_append, ← append_assoc, ← h.split] at hclosed
      exact hclosed
  | rejected => exact h.append (.same .nil event (.inr rfl))
  | kept change hchange hblocked =>
    rw [hblocked]
    exact h.keep hchange

/-- A new chain, with or without a carrier for its root. -/
def fresh (root : U) (heap : Option (ChildHeapCarrier H)) : Chain U R F H :=
  .running { active := root, activeHeap := heap }

theorem opens_run {root : U} (h : Run (Step ops finishes) (fresh root heap) labels chain) :
    Opens ops finishes (fresh root heap) labels chain.blocked := by
  refine Run.history (P := fun (labels : Labels U R V O F H) (chain : Chain U R F H) =>
    Opens ops finishes (fresh root heap) labels chain.blocked) (.nil .nil) ?_ h
  rintro es s ⟨event, effect⟩ t hrun hopens hstep
  exact hopens.step hrun (step_moves hstep)

/-- The completion of a running chain with a parent succeeds, unless the carrier of the child
cannot be dropped. -/
theorem completeActive_returns {trampoline : FlatTrampoline U R F H}
    (hblocked : trampoline.blocked ≠ []) (hdrop : dropHeap ops trampoline.activeHeap = .ok ())
    (outcome : O) : ∃ resume next,
      (running trampoline).Step ops finishes (.completeActive outcome, .returned resume outcome)
        next := by
  obtain ⟨parent, blocked, heq⟩ := exists_cons_of_ne_nil hblocked
  refine ⟨parent.resume, .running
    { active := parent.parent, activeHeap := parent.parentHeap, blocked := blocked }, ?_⟩
  show complete (trampoline.completeActive ops outcome) = _
  simp only [FlatTrampoline.completeActive, heq, FlatTrampoline.restore, hdrop, complete]

/-- The trampoline is a call stack. In every run the blocked parents are the entries without
their completions; a completion hands out the token of the last entry that is still open
and restores the unit, the parents and the carrier of the chain before that entry, the
contents of the carrier's heap apart if they were written to; a completion with a parent
succeeds; and a rejected call changes nothing. -/
theorem trampoline_call_stack (ops : VmHeap H) (finishes : ChildFinish U R V O E F H) {root : U}
    {labels : Labels U R V O F H} {chain : Chain U R F H}
    (h : Run (Step ops finishes) (fresh root heap) labels chain) :
    chain.blocked.length + labels.returns = labels.entries ∧
    (∀ event resume outcome next,
      chain.Step ops finishes (event, .returned resume outcome) next →
      ∃ (before inner : Labels U R V O F H) (entry : TrampolineEvent U R V O F H)
        (entered : Chain U R F H), labels = before ++ (entry, .entered resume) :: inner ∧
        inner.Balanced ∧ Run (Step ops finishes) (fresh root heap) before entered ∧
        next.active = entered.active ∧
        next.blocked.map BlockedUnit.frame = entered.blocked.map BlockedUnit.frame ∧
        next.activeHeap.map bundle = entered.activeHeap.map bundle ∧
        ((∀ l ∈ inner, l.1.KeepsParentHeaps) → event.KeepsParentHeaps →
          next.activeHeap = entered.activeHeap)) ∧
    (∀ trampoline outcome, chain = .running trampoline → trampoline.blocked ≠ [] →
      dropHeap ops trampoline.activeHeap = .ok () → ∃ resume next,
        chain.Step ops finishes (.completeActive outcome, .returned resume outcome) next) ∧
    ∀ event next, chain.Step ops finishes (event, .rejected) next → next = chain := by
  have hopens := opens_run h
  refine ⟨hopens.depth, ?_, ?_, ?_⟩
  · intro event resume outcome next hstep
    generalize heffect : Effect.returned resume outcome = effect at hstep
    cases step_moves hstep with
    | returned parent outcome' hblocked hactive hheap =>
      cases heffect
      rw [hblocked] at hopens
      cases hopens with
      | @cons _ _ _ before inner entry entered hentered hbelow =>
        refine ⟨before, inner, entry, entered, hentered.split, hentered.balanced,
          hentered.run, hactive.trans hentered.active_eq, hentered.frames_eq,
          hheap.1.trans hentered.bundle_eq, ?_⟩
        intro hinner hevent
        exact (hheap.2 hevent).trans (hentered.heap_eq hinner)
    | entered parent | rejected | kept change => cases heffect
  · rintro trampoline outcome rfl hblocked hdrop
    exact completeActive_returns hblocked hdrop outcome
  · intro event next hstep
    generalize heffect : (Effect.rejected : Effect R O) = effect at hstep
    cases step_moves hstep with
    | rejected => rfl
    | entered parent | returned parent | kept change => cases heffect

/-- Finish continuations that are never called. -/
def idleFinishes : ChildFinish Nat Nat Unit Unit Unit Unit Unit where
  finishContinue finish _ _ active childHeap parentHeap :=
    (.failed (), finish, active, childHeap, parentHeap)
  suspend := id
  resume := id

def idleHeap : VmHeap Unit where
  validateLive heap _ := (.ok (), heap)
  releaseSnapshot heap _ := (.ok (), heap)
  releaseResource heap _ := (.ok (), heap)
  accountBoundaryStaging heap _ := (.ok (), heap)
  releaseBoundaryStaging heap _ := (.ok (), heap)

/-- Unit 7 enters unit 8 with the token 3, and 8 enters 9, which returns, and then 10. The chain is
suspended in between. -/
def nestedLabels : Labels Nat Nat Unit Unit Unit Unit :=
  [(.enterChild 8 3 true (.ok ()), .entered 3), (.suspend, .kept), (.resume, .kept),
    (.enterChild 9 4 true (.ok ()), .entered 4), (.completeActive (), .returned 4 ()),
    (.enterChild 10 5 true (.ok ()), .entered 5)]

/-- The completion of 10 is the entry from 8. -/
theorem trampoline_call_stack_nested :
    ∃ (before inner : Labels Nat Nat Unit Unit Unit Unit)
      (entry : TrampolineEvent Nat Nat Unit Unit Unit Unit) (entered : Chain Nat Nat Unit Unit),
      nestedLabels = before ++ (entry, .entered 5) :: inner ∧
      inner.Balanced ∧ Run (Step idleHeap idleFinishes) (fresh 7 none) before entered ∧
      8 = entered.active := by
  have hrun : Run (Step idleHeap idleFinishes) (fresh 7 none) nestedLabels
      (.running ⟨10, none, [⟨8, 5, true, none, none⟩, ⟨7, 3, true, none, none⟩]⟩) :=
    .cons rfl (.cons rfl (.cons rfl (.cons rfl (.cons rfl (.cons rfl (.nil _))))))
  obtain ⟨before, inner, entry, entered, hsplit, hbalanced, hbefore, hactive, -⟩ :=
    (trampoline_call_stack idleHeap idleFinishes hrun).2.1 (.completeActive ()) 5 ()
      (.running ⟨8, none, [⟨7, 3, true, none, none⟩]⟩) rfl
  exact ⟨before, inner, entry, entered, hsplit, hbalanced, hbefore, hactive⟩

end Chain
end Skiff.Scheduler
