import Skiff.Data.Run
import Skiff.Runtime.VmHeap.Model

/-!
# The child heap carrier

`ChildHeapCarrier` (`runtime/scheduler/src/trampoline.rs`) owns the heap of one child and
the staging roots that were published into it. Each published root is charged to the heap;
`release_published_roots` releases the roots one by one, last first, and returns the
charge at the end.

The heap is any implementation of the operations that the carrier calls: each of them may
fail and may change the heap. The roots are kept with the last one first.
-/

namespace Skiff.Scheduler

open Skiff.Runtime (VmHeapError VmHeapOperation ValueSlot ValueKind VmHandle)
open List

/-- The operations of `VmHeap` that a carrier calls. -/
structure VmHeap (H : Type u) where
  validateLive : H → ValueSlot → Except VmHeapError Unit × H
  releaseSnapshot : H → ValueSlot → Except VmHeapError Unit × H
  releaseResource : H → ValueSlot → Except VmHeapError Unit × H
  accountBoundaryStaging : H → Nat → Except VmHeapError Unit × H
  releaseBoundaryStaging : H → Nat → Except VmHeapError Unit × H

/-- `ValueSlot::as_handle`. -/
def asHandle : ValueSlot → Option VmHandle
  | .requestHeapRef handle _ _ | .actorStateRef handle _ _ | .constRef handle _ _
  | .resourceRef handle _ _ | .callbackClosureRef handle _ _ => some handle
  | .null | .bool _ | .number _ | .integer _ | .date _ => none

/-- The roots that a heap holds an owner of. -/
def IsOwner (root : ValueSlot) : Prop := root.kind = .requestHeapRef ∨ root.kind = .resourceRef

instance : DecidablePred IsOwner := fun root => by
  unfold IsOwner
  infer_instance

/-- The error of a handle whose owner is already gone. -/
def IsStale : VmHeapError → Prop
  | .invalidHandle _ _ .staleGenerationOrEpoch => True
  | .invalidHandle _ _ .wrongDomain | .invalidValueMetadata | .operationKindMismatch _ _
  | .ownershipViolation _ _ | .heapOperationFailed _ _ | .resourceLimitExceeded _ _ _ _ => False

instance : DecidablePred IsStale := fun error => by
  unfold IsStale
  split <;> infer_instance

inductive ChildHeapState where
  | prepared
  | staging
  | terminal
  | released
deriving DecidableEq

inductive OwnerCreationErrorKind where
  | inventoryFrozen
  | countOverflow

def OwnerCreationErrorKind.toString : OwnerCreationErrorKind → String
  | inventoryFrozen => "request owner inventory is frozen"
  | countOverflow => "request owner inventory count overflowed"

/-! ## Staging -/

structure BoundaryStaging where
  state : ChildHeapState := .prepared
  roots : List ValueSlot := []

namespace VmHeap

variable {H : Type u} (ops : VmHeap H)

/-- What `release_all` does with one root. -/
def releaseRoot (heap : H) (root : ValueSlot) : Except VmHeapError Unit × H :=
  match root.kind with
  | .requestHeapRef => ops.releaseSnapshot heap root
  | .resourceRef => ops.releaseResource heap root
  | .null | .bool | .number | .integer | .date | .actorStateRef | .constRef
  | .callbackClosureRef => (.ok (), heap)

/-- The loop of `release_all`: the answer, the roots that are left, and the heap. -/
def releaseRoots (heap : H) : List ValueSlot → Except VmHeapError Unit × List ValueSlot × H
  | [] => (.ok (), [], heap)
  | root :: roots =>
    match ops.releaseRoot heap root with
    | (.ok (), heap) => releaseRoots heap roots
    | (.error error, heap) =>
      -- A stale root was consumed by the child already; it is dropped from the list.
      if IsStale error then releaseRoots heap roots else (.error error, root :: roots, heap)

end VmHeap

namespace BoundaryStaging

variable {H : Type u} (ops : VmHeap H)

def alreadyReleased : VmHeapError :=
  .heapOperationFailed .validateLive "child heap staging is already released"

/-- `BoundaryStaging::publish`. -/
def publish (staging : BoundaryStaging) (heap : H) (root : ValueSlot) :
    Except VmHeapError Unit × BoundaryStaging × H :=
  if staging.state = .released then (.error alreadyReleased, staging, heap)
  else
    match (if (asHandle root).isSome then ops.validateLive heap root else (.ok (), heap)) with
    | (.error error, heap) => (.error error, staging, heap)
    | (.ok (), heap) =>
      match ops.accountBoundaryStaging heap 1 with
      | (.error error, heap) => (.error error, staging, heap)
      | (.ok (), heap) =>
        (.ok (), {
          state := if staging.state = .prepared then .staging else staging.state
          roots := root :: staging.roots }, heap)

def markTerminal (staging : BoundaryStaging) : BoundaryStaging :=
  if staging.state = .prepared ∨ staging.state = .staging then { staging with state := .terminal }
  else staging

/-- `BoundaryStaging::release_all`. The charge that is returned is counted at the start. -/
def releaseAll (staging : BoundaryStaging) (heap : H) :
    Except VmHeapError Unit × BoundaryStaging × H :=
  match ops.releaseRoots heap staging.roots with
  | (.error error, roots, heap) => (.error error, { staging with roots := roots }, heap)
  | (.ok (), roots, heap) =>
    match ops.releaseBoundaryStaging heap staging.roots.length with
    | (.error error, heap) => (.error error, { staging with roots := roots }, heap)
    | (.ok (), heap) => (.ok (), { state := .released, roots := roots }, heap)

end BoundaryStaging

/-! ## The carrier -/

/-- A carrier. A registration, once attached, can be asked for a boundary lease. -/
structure ChildHeapCarrier (H : Type u) where
  heap : H
  domain : Nat := 0
  epoch : Nat := 0
  boundaryOwnerRegistration : Bool := false
  boundaryOwnerLease : Bool := false
  staging : BoundaryStaging := {}

namespace ChildHeapCarrier

variable {H : Type u} (ops : VmHeap H)

/-- The lease that a publication needs. `minted` is what the inventory answers. -/
def mintLease (carrier : ChildHeapCarrier H) (minted : Except OwnerCreationErrorKind Unit) :
    Except VmHeapError (ChildHeapCarrier H) :=
  if carrier.boundaryOwnerLease = false ∧ carrier.boundaryOwnerRegistration = true then
    match minted with
    | .ok () => .ok { carrier with boundaryOwnerLease := true }
    | .error kind =>
      .error (.heapOperationFailed .validateLive
        s!"boundary owner creation failed: {kind.toString}")
  else .ok carrier

/-- `publish_staging_root`. -/
def publishStagingRoot (carrier : ChildHeapCarrier H) (root : ValueSlot)
    (minted : Except OwnerCreationErrorKind Unit) :
    Except VmHeapError Unit × ChildHeapCarrier H :=
  match carrier.mintLease minted with
  | .error error => (.error error, carrier)
  | .ok carrier =>
    let (result, staging, heap) := carrier.staging.publish ops carrier.heap root
    (result, { carrier with staging := staging, heap := heap })

def markTerminal (carrier : ChildHeapCarrier H) : ChildHeapCarrier H :=
  { carrier with staging := carrier.staging.markTerminal }

/-- `release_published_roots`. -/
def releasePublishedRoots (carrier : ChildHeapCarrier H) :
    Except VmHeapError Unit × ChildHeapCarrier H :=
  match carrier.staging.releaseAll ops carrier.heap with
  | (.error error, staging, heap) =>
    (.error error, { carrier with staging := staging, heap := heap })
  | (.ok (), staging, heap) =>
    (.ok (), { carrier with
      staging := staging
      heap := heap
      boundaryOwnerLease := carrier.boundaryOwnerLease && !staging.roots.isEmpty })

end ChildHeapCarrier

/-! ## What a heap was asked -/

/-- The calls that succeeded, and the roots whose owner was found gone. -/
inductive HeapCall where
  | charged (roots : Nat)
  | returned (roots : Nat)
  | released (root : ValueSlot)
  | stale (root : ValueSlot)

namespace HeapCall

def chargeOf : HeapCall → Nat
  | charged roots => roots
  | returned _ | released _ | stale _ => 0

def returnOf : HeapCall → Nat
  | returned roots => roots
  | charged _ | released _ | stale _ => 0

def rootOf : HeapCall → Option ValueSlot
  | released root | stale root => some root
  | charged _ | returned _ => none

end HeapCall

abbrev HeapLog := List HeapCall

namespace HeapLog

def charged (log : HeapLog) : Nat := (log.map HeapCall.chargeOf).sum

def returned (log : HeapLog) : Nat := (log.map HeapCall.returnOf).sum

/-- The roots that were released or found stale, in order. -/
def gone (log : HeapLog) : List ValueSlot := log.filterMap HeapCall.rootOf

end HeapLog

namespace VmHeap

variable {H : Type u} (ops : VmHeap H)

def logRelease (log : HeapLog) (root : ValueSlot) :
    Except VmHeapError Unit × H → Except VmHeapError Unit × H × HeapLog
  | (.ok (), heap) => (.ok (), heap, log ++ [.released root])
  | (.error error, heap) =>
    (.error error, heap, if IsStale error then log ++ [.stale root] else log)

def logCharge (log : HeapLog) (call : HeapCall) :
    Except VmHeapError Unit × H → Except VmHeapError Unit × H × HeapLog
  | (.ok (), heap) => (.ok (), heap, log ++ [call])
  | (.error error, heap) => (.error error, heap, log)

/-- The same heap, with a log of what it was asked. -/
def traced : VmHeap (H × HeapLog) where
  validateLive heap root :=
    let (result, next) := ops.validateLive heap.1 root
    (result, next, heap.2)
  releaseSnapshot heap root := logRelease heap.2 root (ops.releaseSnapshot heap.1 root)
  releaseResource heap root := logRelease heap.2 root (ops.releaseResource heap.1 root)
  accountBoundaryStaging heap roots :=
    logCharge heap.2 (.charged roots) (ops.accountBoundaryStaging heap.1 roots)
  releaseBoundaryStaging heap roots :=
    logCharge heap.2 (.returned roots) (ops.releaseBoundaryStaging heap.1 roots)

/-- The heap lets a root go: it releases it, or its owner is already gone. -/
def LetsGo (heap : H) (root : ValueSlot) : Prop :=
  ∀ error, (ops.releaseRoot heap root).1 = .error error → IsStale error

/-- The heap lets all roots go, and takes the charge back. -/
def LetsAllGo (count : Nat) : H → List ValueSlot → Prop
  | heap, [] => (ops.releaseBoundaryStaging heap count).1 = .ok ()
  | heap, root :: roots =>
    ops.LetsGo heap root ∧ LetsAllGo count (ops.releaseRoot heap root).2 roots

end VmHeap

/-! ## Runs -/

/-- A carrier in use, with all roots that were published. -/
structure CarrierUse (H : Type u) where
  carrier : ChildHeapCarrier (H × HeapLog)
  published : List ValueSlot := []

/-- A call on the carrier, or anything that happens to its heap between two calls. -/
inductive CarrierEvent (H : Type u) where
  | publish (root : ValueSlot) (minted : Except OwnerCreationErrorKind Unit)
  | release
  | markTerminal
  | attachBoundaryRegistration
  | outside (edit : H → H)

namespace CarrierUse

variable {H : Type u} (ops : VmHeap H)

def log (use : CarrierUse H) : HeapLog := use.carrier.heap.2

def roots (use : CarrierUse H) : List ValueSlot := use.carrier.staging.roots

def fresh (heap : H) : CarrierUse H := { carrier := { heap := (heap, []) } }

def apply (use : CarrierUse H) : CarrierEvent H → CarrierUse H
  | .publish root minted =>
    match use.carrier.publishStagingRoot ops.traced root minted with
    | (.ok (), carrier) => { carrier := carrier, published := root :: use.published }
    | (.error _, carrier) => { use with carrier := carrier }
  | .release => { use with carrier := (use.carrier.releasePublishedRoots ops.traced).2 }
  | .markTerminal => { use with carrier := use.carrier.markTerminal }
  | .attachBoundaryRegistration =>
    { use with carrier := { use.carrier with boundaryOwnerRegistration := true } }
  | .outside edit =>
    { use with carrier := { use.carrier with
        heap := (edit use.carrier.heap.1, use.carrier.heap.2) } }

def Step (use : CarrierUse H) (event : CarrierEvent H) (next : CarrierUse H) : Prop :=
  use.apply ops event = next

/-- A release that lets no root go, or everything. -/
def ReleasesWhole (use : CarrierUse H) : CarrierEvent H → Prop
  | .release =>
    (∀ root ∈ use.roots.head?, ¬ ops.traced.LetsGo use.carrier.heap root) ∨
      ops.traced.LetsAllGo use.roots.length use.carrier.heap use.roots
  | .publish _ _ | .markTerminal | .attachBoundaryRegistration | .outside _ => True

def WholeStep (use : CarrierUse H) (event : CarrierEvent H) (next : CarrierUse H) : Prop :=
  use.Step ops event next ∧ use.ReleasesWhole ops event

/-- What the claim on the charge says of a carrier without roots: as much was returned as was
charged, and each published root that the heap owned was let go exactly once. -/
def Conserved (use : CarrierUse H) : Prop :=
  use.log.charged = use.log.returned ∧ (use.published.filter IsOwner).Perm use.log.gone

end CarrierUse

/-! ## One release -/

namespace HeapLog

variable (log : HeapLog)

variable (call : HeapCall)

@[simp] theorem charged_snoc : HeapLog.charged (log ++ [call]) = log.charged + call.chargeOf := by
  simp [charged]

@[simp] theorem returned_snoc :
    HeapLog.returned (log ++ [call]) = log.returned + call.returnOf := by
  simp [returned]

@[simp] theorem gone_snoc : HeapLog.gone (log ++ [call]) = log.gone ++ call.rootOf.toList := by
  cases hroot : call.rootOf with
  | none | some root => simp [gone, hroot]

/-- Nothing was charged or returned, and these roots are gone. -/
def Extends (roots : List ValueSlot) (next : HeapLog) : Prop :=
  next.charged = log.charged ∧ next.returned = log.returned ∧ next.gone = log.gone ++ roots

theorem extends_refl : log.Extends [] log := ⟨rfl, rfl, (append_nil _).symm⟩

theorem Extends.trans {log middle next : HeapLog} {roots others : List ValueSlot}
    (h : log.Extends roots middle) (h' : middle.Extends others next) :
    log.Extends (roots ++ others) next := by
  obtain ⟨hcharged, hreturned, hgone⟩ := h
  obtain ⟨hcharged', hreturned', hgone'⟩ := h'
  refine ⟨hcharged'.trans hcharged, hreturned'.trans hreturned, ?_⟩
  rw [hgone', hgone, append_assoc]

end HeapLog

namespace VmHeap

variable {H : Type u} (ops : VmHeap H) {root : ValueSlot}

theorem logRelease_letsGo {log : HeapLog} {answer : Except VmHeapError Unit × H}
    (h : ∀ error, (logRelease log root answer).1 = .error error → IsStale error) :
    log.Extends [root] (logRelease log root answer).2.2 := by
  obtain ⟨result, heap⟩ := answer
  cases result with
  | ok =>
    show log.Extends [root] (log ++ [.released root])
    exact ⟨log.charged_snoc _, log.returned_snoc _, log.gone_snoc _⟩
  | error error =>
    have hstale : IsStale error := h error rfl
    show log.Extends [root] (if IsStale error then log ++ [.stale root] else log)
    rw [if_pos hstale]
    exact ⟨log.charged_snoc _, log.returned_snoc _, log.gone_snoc _⟩

/-- A root that is let go is logged if the heap owned it. -/
theorem releaseRoot_letsGo {heap : H × HeapLog} (h : ops.traced.LetsGo heap root) :
    heap.2.Extends ([root].filter IsOwner) (ops.traced.releaseRoot heap root).2.2 := by
  unfold LetsGo at h
  unfold releaseRoot at h ⊢
  cases root with
  | requestHeapRef handle tag flags | resourceRef route tag flags => exact logRelease_letsGo h
  | _ => exact HeapLog.extends_refl _

/-- A refusal is not logged. -/
theorem releaseRoot_refused {heap next : H × HeapLog} {error : VmHeapError}
    (h : ops.traced.releaseRoot heap root = (.error error, next)) (herror : ¬ IsStale error) :
    next.2 = heap.2 := by
  have hlog : ∀ answer : Except VmHeapError Unit × H,
      logRelease heap.2 root answer = (.error error, next) → next.2 = heap.2 := by
    rintro ⟨result, after⟩ hanswer
    cases result with
    | ok => cases hanswer
    | error other =>
      simp only [logRelease, Prod.mk.injEq, Except.error.injEq] at hanswer
      obtain ⟨rfl, rfl⟩ := hanswer
      exact if_neg herror
  unfold releaseRoot at h
  cases root with
  | requestHeapRef handle tag flags | resourceRef route tag flags => exact hlog _ h
  | _ => cases h

/-- The loop of `release_all` takes roots from the front of the list until one is refused. -/
structure Releases (heap : H × HeapLog) (roots : List ValueSlot) (gone : List ValueSlot)
    (result : Except VmHeapError Unit) (left : List ValueSlot) (next : H × HeapLog) : Prop where
  split : roots = gone ++ left
  log : heap.2.Extends (gone.filter IsOwner) next.2
  ok_iff : result = .ok () ↔ left = []
  none_iff : gone = [] ↔ ∀ root ∈ roots.head?, ¬ ops.traced.LetsGo heap root
  all_iff : ∀ count, ops.traced.LetsAllGo count heap roots ↔
    result = .ok () ∧ (ops.traced.releaseBoundaryStaging next count).1 = .ok ()

theorem Releases.cons {heap middle next : H × HeapLog}
    {roots gone left : List ValueSlot} {result answer : Except VmHeapError Unit}
    (hroot : ops.traced.releaseRoot heap root = (answer, middle))
    (hgo : ops.traced.LetsGo heap root) (h : ops.Releases middle roots gone result left next) :
    ops.Releases heap (root :: roots) (root :: gone) result left next where
  split := by rw [h.split, cons_append]
  log := by
    have hfirst := ops.releaseRoot_letsGo hgo
    rw [hroot] at hfirst
    have hboth := hfirst.trans h.log
    rwa [← filter_append] at hboth
  ok_iff := h.ok_iff
  none_iff := by simp [hgo]
  all_iff := by
    intro count
    have hcons : ops.traced.LetsAllGo count heap (root :: roots) ↔
        ops.traced.LetsGo heap root ∧
          ops.traced.LetsAllGo count (ops.traced.releaseRoot heap root).2 roots := Iff.rfl
    rw [hcons, hroot, ← h.all_iff count]
    exact and_iff_right hgo

theorem releaseRoots_spec (heap : H × HeapLog) (roots : List ValueSlot) :
    ∃ gone, ops.Releases heap roots gone (ops.traced.releaseRoots heap roots).1
      (ops.traced.releaseRoots heap roots).2.1 (ops.traced.releaseRoots heap roots).2.2 := by
  induction roots generalizing heap with
  | nil =>
    refine ⟨[], ?_, ?_, ?_, ?_, ?_⟩
    · rfl
    · exact HeapLog.extends_refl _
    · simp [releaseRoots]
    · simp
    intro count
    simp [releaseRoots, LetsAllGo]
  | cons root roots ih =>
    unfold releaseRoots
    rcases hroot : ops.traced.releaseRoot heap root with ⟨answer, middle⟩
    cases answer with
    | ok =>
      obtain ⟨gone, h⟩ := ih middle
      refine ⟨root :: gone, Releases.cons ops hroot ?_ h⟩
      intro error herror
      rw [hroot] at herror
      cases herror
    | error error =>
      dsimp only
      split
      case isTrue hstale =>
        obtain ⟨gone, h⟩ := ih middle
        refine ⟨root :: gone, Releases.cons ops hroot ?_ h⟩
        intro other hother
        rw [hroot] at hother
        cases hother
        exact hstale
      case isFalse hstale =>
        have hstays : ¬ ops.traced.LetsGo heap root := by
          intro hgo
          exact hstale (hgo error (by rw [hroot]))
        refine ⟨[], ?_, ?_, ?_, ?_, ?_⟩
        · rfl
        · rw [ops.releaseRoot_refused hroot hstale]
          exact HeapLog.extends_refl _
        · simp
        · simp [hstays]
        intro count
        simp [LetsAllGo, hstays]

end VmHeap

/-! ## One call -/

variable {minted : Except OwnerCreationErrorKind Unit}

section Calls

variable {H : Type u} (ops : VmHeap H) (carrier : ChildHeapCarrier (H × HeapLog))

theorem logCharge_cases (log : HeapLog) (call : HeapCall) (answer : Except VmHeapError Unit × H) :
    ((VmHeap.logCharge log call answer).1 = .ok () ∧
        (VmHeap.logCharge log call answer).2.2 = log ++ [call]) ∨
      ((VmHeap.logCharge log call answer).1 ≠ .ok () ∧
        (VmHeap.logCharge log call answer).2.2 = log) := by
  obtain ⟨result, heap⟩ := answer
  cases result with
  | ok => exact .inl ⟨rfl, rfl⟩
  | error error =>
    refine .inr ⟨?_, rfl⟩
    intro h
    cases h

/-- A publication charges one root and keeps it, or does neither. -/
theorem publish_cases (staging : BoundaryStaging) (heap : H × HeapLog) (root : ValueSlot) :
    (∃ state after, staging.publish ops.traced heap root =
        (.ok (), ⟨state, root :: staging.roots⟩, (after, heap.2 ++ [.charged 1]))) ∨
      ∃ error after, staging.publish ops.traced heap root =
        (.error error, staging, (after, heap.2)) := by
  unfold BoundaryStaging.publish
  split
  case isTrue => exact .inr ⟨_, heap.1, rfl⟩
  case isFalse =>
    rcases hlive : (if (asHandle root).isSome then ops.traced.validateLive heap root
      else (.ok (), heap)) with ⟨answer, live⟩
    have hlog : live.2 = heap.2 := by
      split at hlive
      case isTrue | isFalse =>
        cases hlive
        rfl
    cases answer with
    | error error => exact .inr ⟨error, live.1, by rw [← hlog]⟩
    | ok =>
      dsimp only
      rcases hcharge : ops.traced.accountBoundaryStaging live 1 with ⟨result, after⟩
      have hcases := logCharge_cases live.2 (.charged 1) (ops.accountBoundaryStaging live.1 1)
      have hdef : VmHeap.logCharge live.2 (.charged 1) (ops.accountBoundaryStaging live.1 1) =
          (result, after) := hcharge
      rw [hdef, hlog] at hcases
      obtain ⟨hok, hafter⟩ | ⟨herror, hafter⟩ := hcases
      · dsimp only at hok hafter
        subst hok
        exact .inl ⟨_, after.1, by rw [← hafter]⟩
      dsimp only at herror hafter
      cases result with
      | ok => exact absurd rfl herror
      | error error => exact .inr ⟨error, after.1, by rw [← hafter]⟩

theorem mintLease_eq_ok {next : ChildHeapCarrier (H × HeapLog)}
    (h : carrier.mintLease minted = .ok next) :
    next.heap = carrier.heap ∧ next.staging = carrier.staging := by
  unfold ChildHeapCarrier.mintLease at h
  split at h
  case isTrue =>
    cases minted with
    | ok =>
      cases h
      exact ⟨rfl, rfl⟩
    | error kind => cases h
  case isFalse =>
    cases h
    exact ⟨rfl, rfl⟩

/-- The answer and the carrier after a publication. -/
theorem publishStagingRoot_cases (root : ValueSlot) (minted : Except OwnerCreationErrorKind Unit) :
    (∃ next, carrier.publishStagingRoot ops.traced root minted = (.ok (), next) ∧
        next.heap.2 = carrier.heap.2 ++ [.charged 1] ∧
        next.staging.roots = root :: carrier.staging.roots) ∨
      ∃ error next, carrier.publishStagingRoot ops.traced root minted = (.error error, next) ∧
        next.heap.2 = carrier.heap.2 ∧ next.staging.roots = carrier.staging.roots := by
  unfold ChildHeapCarrier.publishStagingRoot
  cases hmint : carrier.mintLease minted with
  | error error => exact .inr ⟨error, carrier, rfl, rfl, rfl⟩
  | ok minted =>
    obtain ⟨hheap, hstaging⟩ := mintLease_eq_ok carrier hmint
    rw [← hheap, ← hstaging]
    dsimp only
    obtain ⟨state, after, h⟩ | ⟨error, after, h⟩ :=
      publish_cases ops minted.staging minted.heap root
    · rw [h]
      exact .inl ⟨_, rfl, rfl, rfl⟩
    rw [h]
    exact .inr ⟨error, _, rfl, rfl, rfl⟩

/-- The answer of a release, the roots it takes, and what it returns. -/
theorem releasePublishedRoots_cases :
    ∃ gone, carrier.staging.roots =
        gone ++ (carrier.releasePublishedRoots ops.traced).2.staging.roots ∧
      (carrier.releasePublishedRoots ops.traced).2.heap.2.charged = carrier.heap.2.charged ∧
      (carrier.releasePublishedRoots ops.traced).2.heap.2.gone =
        carrier.heap.2.gone ++ gone.filter IsOwner ∧
      (gone = [] ↔ ∀ root ∈ carrier.staging.roots.head?, ¬ ops.traced.LetsGo carrier.heap root) ∧
      (((carrier.releasePublishedRoots ops.traced).1 = .ok () ∧
          (carrier.releasePublishedRoots ops.traced).2.staging.roots = [] ∧
          (carrier.releasePublishedRoots ops.traced).2.heap.2.returned =
            carrier.heap.2.returned + carrier.staging.roots.length ∧
          ops.traced.LetsAllGo carrier.staging.roots.length carrier.heap carrier.staging.roots) ∨
        ((carrier.releasePublishedRoots ops.traced).1 ≠ .ok () ∧
          (carrier.releasePublishedRoots ops.traced).2.heap.2.returned = carrier.heap.2.returned ∧
          ¬ ops.traced.LetsAllGo carrier.staging.roots.length carrier.heap
            carrier.staging.roots)) := by
  obtain ⟨gone, h⟩ := ops.releaseRoots_spec carrier.heap carrier.staging.roots
  rcases hloop : ops.traced.releaseRoots carrier.heap carrier.staging.roots with
    ⟨result, left, middle⟩
  rw [hloop] at h
  dsimp only at h
  obtain ⟨hcharged, hreturned, hgone⟩ := h.log
  cases result with
  | error error =>
    have hrelease : carrier.releasePublishedRoots ops.traced = (.error error, { carrier with
        staging := { carrier.staging with roots := left }, heap := middle }) := by
      simp only [ChildHeapCarrier.releasePublishedRoots, BoundaryStaging.releaseAll, hloop]
    rw [hrelease]
    refine ⟨gone, h.split, hcharged, hgone, h.none_iff, .inr ⟨?_, hreturned, ?_⟩⟩
    · intro hok
      cases hok
    intro hall
    cases ((h.all_iff _).mp hall).1
  | ok =>
    have hleft : left = [] := h.ok_iff.mp rfl
    subst hleft
    rcases hback : ops.traced.releaseBoundaryStaging middle carrier.staging.roots.length with
      ⟨answer, after⟩
    have hcases := logCharge_cases middle.2 (.returned carrier.staging.roots.length)
      (ops.releaseBoundaryStaging middle.1 carrier.staging.roots.length)
    have hdef : VmHeap.logCharge middle.2 (.returned carrier.staging.roots.length)
        (ops.releaseBoundaryStaging middle.1 carrier.staging.roots.length) =
          (answer, after) := hback
    rw [hdef] at hcases
    have hall := h.all_iff carrier.staging.roots.length
    rw [hback] at hall
    cases answer with
    | ok =>
      have hrelease : carrier.releasePublishedRoots ops.traced = (.ok (), { carrier with
          staging := { state := .released, roots := [] }
          heap := after
          boundaryOwnerLease := carrier.boundaryOwnerLease && !true }) := by
        simp only [ChildHeapCarrier.releasePublishedRoots, BoundaryStaging.releaseAll, hloop,
          hback, isEmpty_nil]
      obtain ⟨-, hafter⟩ | ⟨herror, -⟩ := hcases
      · rw [hrelease]
        dsimp only at hafter ⊢
        rw [hafter]
        refine ⟨gone, h.split, ?_, ?_, h.none_iff, .inl ⟨rfl, rfl, ?_, hall.mpr ⟨rfl, rfl⟩⟩⟩
        · rw [HeapLog.charged_snoc]
          exact hcharged
        · rw [HeapLog.gone_snoc, HeapCall.rootOf, Option.toList_none, append_nil]
          exact hgone
        rw [HeapLog.returned_snoc, hreturned]
        rfl
      · exact absurd rfl herror
    | error error =>
      have hrelease : carrier.releasePublishedRoots ops.traced = (.error error, { carrier with
          staging := { carrier.staging with roots := [] }, heap := after }) := by
        simp only [ChildHeapCarrier.releasePublishedRoots, BoundaryStaging.releaseAll, hloop, hback]
      obtain ⟨hok, -⟩ | ⟨-, hafter⟩ := hcases
      · cases hok
      rw [hrelease]
      dsimp only at hafter ⊢
      rw [hafter]
      refine ⟨gone, h.split, hcharged, hgone, h.none_iff, .inr ⟨?_, hreturned, ?_⟩⟩
      · intro hok
        cases hok
      intro hlets
      cases (hall.mp hlets).2

end Calls

/-! ## Every run -/

namespace CarrierUse

variable {H : Type u} {ops : VmHeap H} {use next : CarrierUse H}

/-- `lost` roots were let go by calls that did not return their charge. -/
structure Accounts (lost : Nat) (use : CarrierUse H) : Prop where
  charge : use.log.charged = use.log.returned + use.roots.length + lost
  let_go : (use.published.filter IsOwner).Perm (use.log.gone ++ use.roots.filter IsOwner)

theorem Accounts.publish {lost : Nat} (h : use.Accounts lost) {root : ValueSlot} :
    (use.apply ops (.publish root minted)).Accounts lost := by
  obtain ⟨carrier, hpublish, hlog, hroots⟩ | ⟨error, carrier, hpublish, hlog, hroots⟩ :=
    publishStagingRoot_cases ops use.carrier root minted
  · have happly : use.apply ops (.publish root minted) =
        { carrier := carrier, published := root :: use.published } := by
      simp only [apply, hpublish]
    rw [happly]
    constructor
    · show HeapLog.charged carrier.heap.2 = HeapLog.returned carrier.heap.2 + _ + lost
      have hcharge := h.charge
      simp only [log, roots] at hcharge
      rw [hlog, HeapLog.charged_snoc, HeapLog.returned_snoc]
      simp only [roots, hroots, length_cons, HeapCall.chargeOf, HeapCall.returnOf]
      omega
    have hold := h.let_go
    simp only [log, roots] at hold ⊢
    rw [hlog, hroots, HeapLog.gone_snoc, HeapCall.rootOf, Option.toList_none, append_nil]
    by_cases howner : IsOwner root
    · simp only [filter_cons, howner, decide_true, if_true]
      exact (hold.cons root).trans perm_middle.symm
    simp only [filter_cons, howner, decide_false]
    exact hold
  have happly : use.apply ops (.publish root minted) = { use with carrier := carrier } := by
    simp only [apply, hpublish]
  rw [happly]
  constructor
  · have hcharge := h.charge
    simp only [log, roots] at hcharge ⊢
    rwa [hlog, hroots]
  have hold := h.let_go
  simp only [log, roots] at hold ⊢
  rwa [hlog, hroots]

variable (ops) in
theorem Accounts.release {lost : Nat} (h : use.Accounts lost) :
    ∃ more, (use.apply ops .release).Accounts (lost + more) ∧
      (more = 0 ↔ use.ReleasesWhole ops .release) ∧
      ((use.carrier.releasePublishedRoots ops.traced).1 = .ok () →
        more = 0 ∧ (use.apply ops .release).roots = []) := by
  obtain ⟨gone, hsplit, hcharged, hgone, hnone, hcases⟩ :=
    releasePublishedRoots_cases ops use.carrier
  have hcharge := h.charge
  have hold := h.let_go
  have hlet : ((use.apply ops .release).published.filter IsOwner).Perm
      ((use.apply ops .release).log.gone ++ (use.apply ops .release).roots.filter IsOwner) := by
    show (use.published.filter IsOwner).Perm (HeapLog.gone _ ++ _)
    simp only [log, roots] at hold
    rw [hsplit, filter_append, ← append_assoc, ← hgone] at hold
    exact hold
  simp only [log, roots] at hcharge
  obtain ⟨hok, hleft, hreturned, hall⟩ | ⟨herror, hreturned, hnot⟩ := hcases
  · refine ⟨0, ⟨?_, hlet⟩, ?_, fun _ => ⟨rfl, hleft⟩⟩
    · simp only [log, roots, apply, hcharged, hreturned, hleft, length_nil]
      omega
    · exact iff_of_true rfl (.inr hall)
  refine ⟨gone.length, ⟨?_, hlet⟩, ?_, fun hok => absurd hok herror⟩
  · have hlength := congrArg length hsplit
    rw [length_append] at hlength
    simp only [log, roots, apply, hcharged, hreturned]
    omega
  rw [length_eq_zero_iff, hnone]
  constructor
  · exact .inl
  rintro (hrefuses | hall)
  · exact hrefuses
  · exact absurd hall hnot

theorem Accounts.step {lost : Nat} (h : use.Accounts lost) {event : CarrierEvent H}
    (hstep : use.Step ops event next) :
    ∃ more, next.Accounts (lost + more) ∧ (more = 0 ↔ use.ReleasesWhole ops event) := by
  unfold Step at hstep
  subst hstep
  cases event with
  | publish root minted => exact ⟨0, h.publish, iff_of_true rfl trivial⟩
  | release =>
    obtain ⟨more, hnext, hwhole, -⟩ := h.release ops
    exact ⟨more, hnext, hwhole⟩
  | markTerminal =>
    refine ⟨0, ⟨?_, ?_⟩, iff_of_true rfl trivial⟩
    · have hroots : (use.apply ops .markTerminal).roots = use.roots := by
        simp only [roots, apply, ChildHeapCarrier.markTerminal, BoundaryStaging.markTerminal]
        split <;> rfl
      rw [hroots]
      exact h.charge
    have hroots : (use.apply ops .markTerminal).roots = use.roots := by
      simp only [roots, apply, ChildHeapCarrier.markTerminal, BoundaryStaging.markTerminal]
      split <;> rfl
    rw [hroots]
    exact h.let_go
  | attachBoundaryRegistration | outside edit =>
    exact ⟨0, ⟨h.charge, h.let_go⟩, iff_of_true rfl trivial⟩

theorem step_functional : Run.Functional (Step ops) := by
  intro s e t t' h h'
  exact h.symm.trans h'

variable {events : List (CarrierEvent H)}

theorem accounts_run {heap : H} (h : Run (Step ops) (fresh heap) events use) :
    ∃ lost, use.Accounts lost ∧ (lost = 0 ↔ Run (WholeStep ops) (fresh heap) events use) := by
  refine Run.history (P := fun (es : List (CarrierEvent H)) (s : CarrierUse H) =>
    ∃ lost, s.Accounts lost ∧ (lost = 0 ↔ Run (WholeStep ops) (fresh heap) es s)) ?_ ?_ h
  · exact ⟨0, ⟨rfl, .refl _⟩, iff_of_true rfl (.nil _)⟩
  rintro es s e t hrun ⟨lost, haccounts, hwhole⟩ hstep
  obtain ⟨more, hnext, hmore⟩ := haccounts.step hstep
  refine ⟨lost + more, hnext, ?_⟩
  rw [Nat.add_eq_zero_iff, hwhole, hmore, Run.snoc_iff]
  constructor
  · rintro ⟨hbefore, hevent⟩
    exact ⟨s, hbefore, hstep, hevent⟩
  rintro ⟨u, hbefore, hlast⟩
  obtain rfl := Run.functional step_functional hrun (hbefore.mono fun hs => hs.1)
  exact ⟨hbefore, hlast.2⟩

/-- When a release succeeds, the charges are returned and each published root was let go
exactly once, if and only if no release of the run failed after it had let a root go. -/
theorem staging_conserved_iff (ops : VmHeap H) {heap : H} {events : List (CarrierEvent H)}
    (h : Run (Step ops) (fresh heap) events use)
    (hok : (use.carrier.releasePublishedRoots ops.traced).1 = .ok ()) :
    (use.apply ops .release).Conserved ↔ Run (WholeStep ops) (fresh heap) events use := by
  obtain ⟨lost, haccounts, hwhole⟩ := accounts_run h
  obtain ⟨more, hnext, -, hlast⟩ := haccounts.release ops
  obtain ⟨rfl, hempty⟩ := hlast hok
  have hcharge := hnext.charge
  have hgone := hnext.let_go
  rw [hempty] at hcharge hgone
  rw [← hwhole]
  constructor
  · intro hconserved
    have hequal := hconserved.1
    simp only [length_nil] at hcharge
    omega
  · rintro rfl
    refine ⟨by simpa using hcharge, by simpa using hgone⟩

/-- A heap that refuses to release the handle 1 for as long as its state is `true`. -/
def busyHeap : VmHeap Bool where
  validateLive busy _ := (.ok (), busy)
  releaseSnapshot busy root :=
    if busy = true ∧ root.asRequestHeapRef = some 1 then
      (.error (.heapOperationFailed .releaseSnapshot "busy"), busy)
    else (.ok (), busy)
  releaseResource busy _ := (.ok (), busy)
  accountBoundaryStaging busy _ := (.ok (), busy)
  releaseBoundaryStaging busy _ := (.ok (), busy)

/-- A release fails before it lets a root go; the next one returns both charges. -/
theorem staging_conserved_iff_two_roots :
    let events : List (CarrierEvent Bool) := [.publish (.requestHeapRef 2 0 0) (.ok ()),
      .publish (.requestHeapRef 1 0 0) (.ok ()), .release, .outside fun _ => false]
    let use := events.foldl (apply busyHeap) (fresh true)
    (use.apply busyHeap .release).Conserved ∧ Run (WholeStep busyHeap) (fresh true) events use := by
  intro events use
  have hwhole : Run (WholeStep busyHeap) (fresh true) events use := by
    refine .cons ⟨rfl, trivial⟩ (.cons ⟨rfl, trivial⟩ (.cons ⟨rfl, .inl fun root hroot hgo => ?_⟩
      (.cons ⟨rfl, trivial⟩ (.nil _))))
    cases hroot
    exact hgo _ rfl
  exact ⟨(staging_conserved_iff busyHeap (Run.of_foldl _ _ _) rfl).mpr hwhole, hwhole⟩

/-- The first release lets the later root go and fails at the other one; the second release
succeeds, and returns one charge of two. -/
theorem failed_release_keeps_charge :
    ¬ ∀ events (use : CarrierUse Bool), Run (Step busyHeap) (fresh true) events use →
      (use.carrier.releasePublishedRoots busyHeap.traced).1 = .ok () →
      (use.apply busyHeap .release).Conserved := by
  intro h
  have hconserved := h [.publish (.requestHeapRef 1 0 0) (.ok ()),
    .publish (.requestHeapRef 2 0 0) (.ok ()), .release, .outside fun _ => false] _
    (Run.of_foldl (apply busyHeap) _ _) rfl
  have hcharged : (2 : Nat) = 1 := hconserved.1
  exact absurd hcharged (by decide)

end CarrierUse

end Skiff.Scheduler
