import Mathlib.Data.Finset.Card
import Mathlib.Data.Prod.Lex
import Mathlib.Data.String.Basic
import Skiff.Data.OrdMap
import Skiff.Data.Run

/-!
# The session directory

`RuntimeRegistrationDirectory` of the router: the registered sessions by exact epoch and,
for each replica, the epoch that is current. A reconnect publishes a new epoch, which
cancels the old one; the old one stays until every consumer that holds a permit on it has
acknowledged the close.

`Effect` says once what a call can do to the record of one epoch. The laws of a run are
read off it: what is current exists, candidates are current, a cancelled epoch is never a
candidate again, and a close barrier touches its own epoch only. They rest on one promise
of the callers: a connection generation is given out once, so an exact epoch is published
at most once.
-/

namespace Skiff.Session

open OrdMap

structure RuntimeSessionEpoch where
  replicaId : String
  connectionGeneration : Nat

namespace RuntimeSessionEpoch

/-- Replica first, as `candidates` sorts. -/
def fields (epoch : RuntimeSessionEpoch) : String ×ₗ Nat :=
  toLex (epoch.replicaId, epoch.connectionGeneration)

theorem fields_injective : Function.Injective fields := by
  rintro ⟨r, g⟩ ⟨r', g'⟩ h
  cases h
  rfl

instance : LinearOrder RuntimeSessionEpoch := LinearOrder.lift' fields fields_injective

instance : LawfulBEq RuntimeSessionEpoch := inferInstance

end RuntimeSessionEpoch

inductive ConsumerKind where
  | admissionPool
  | healthLedger
  | requestDispatcher
  | webSocketRequestBroker
  | actorSessionOwner
deriving DecidableEq

structure RegistrationFacts where
  registeredBuildIds : List String := []
  lazyLoad : Bool := false
  artifactRoot : Option String := none

structure SessionRecord where
  registrationRevision : Nat
  routable : Bool
  cancelled : Bool
  consumerPermits : List ConsumerKind
  barrierAcked : Finset ConsumerKind
  registrationFacts : RegistrationFacts

def SessionRecord.new (revision : Nat) (permits : List ConsumerKind) : SessionRecord where
  registrationRevision := revision
  routable := false
  cancelled := false
  consumerPermits := permits
  barrierAcked := ∅
  registrationFacts := {}

def SessionRecord.barrierComplete (record : SessionRecord) : Bool :=
  record.consumerPermits.all (· ∈ record.barrierAcked)

structure PublishPending where
  revision : Nat
  cancelledOld : Option RuntimeSessionEpoch

inductive PublishError where
  | permitUnavailable
  | duplicateSession

structure CloseStart where
  permits : List ConsumerKind
  routable : Bool

inductive CloseProgress where
  | complete
  | pending (acked expected : Nat)

structure Directory where
  currentByReplica : OrdMap String RuntimeSessionEpoch
  sessionsByEpoch : OrdMap RuntimeSessionEpoch SessionRecord
  nextRevision : Nat
  installedConsumers : Finset ConsumerKind

namespace Directory

variable (directory : Directory)

def new (installedConsumers : Finset ConsumerKind) : Directory where
  currentByReplica := ∅
  sessionsByEpoch := ∅
  nextRevision := 0
  installedConsumers := installedConsumers

def record (session : RuntimeSessionEpoch) : Option SessionRecord :=
  directory.sessionsByEpoch.get? session

def current (replicaId : String) : Option RuntimeSessionEpoch :=
  directory.currentByReplica.get? replicaId

/-- Change the record of one epoch, if there is one. -/
def updateRecord (session : RuntimeSessionEpoch) (change : SessionRecord → SessionRecord) :
    Directory :=
  match directory.record session with
  | none => directory
  | some record =>
    { directory with sessionsByEpoch := directory.sessionsByEpoch.insert session (change record) }

/-- The epoch that a publication of `session` replaces. -/
def replaced (session : RuntimeSessionEpoch) : Option RuntimeSessionEpoch :=
  (directory.current session.replicaId).filter (· ≠ session)

def publishPending (session : RuntimeSessionEpoch) (permits : List ConsumerKind) :
    Except PublishError (PublishPending × Directory) :=
  if ¬ permits.all (· ∈ directory.installedConsumers) then .error .permitUnavailable
  else if directory.sessionsByEpoch.contains session then .error .duplicateSession
  else
    let cancelledOld := directory.replaced session
    let cancelled := match cancelledOld with
      | some old => directory.updateRecord old fun record => { record with cancelled := true }
      | none => directory
    let revision := directory.nextRevision + 1
    .ok (⟨revision, cancelledOld⟩,
      { cancelled with
        nextRevision := revision
        sessionsByEpoch := cancelled.sessionsByEpoch.insert session (.new revision permits)
        currentByReplica := cancelled.currentByReplica.insert session.replicaId session })

def markRegistered (session : RuntimeSessionEpoch) : Bool × Directory :=
  match directory.record session with
  | none => (false, directory)
  | some record =>
    if record.cancelled then (false, directory)
    else (true, directory.updateRecord session fun record => { record with routable := true })

def beginClose (session : RuntimeSessionEpoch) : Option CloseStart × Directory :=
  match directory.record session with
  | none => (none, directory)
  | some record =>
    (some ⟨record.consumerPermits, record.routable⟩,
      directory.updateRecord session fun record => { record with cancelled := true })

def ackClose (session : RuntimeSessionEpoch) (consumer : ConsumerKind) :
    CloseProgress × Directory :=
  match directory.record session with
  | none => (.complete, directory)
  | some record =>
    let record := { record with barrierAcked := insert consumer record.barrierAcked }
    let acked := directory.updateRecord session fun _ => record
    if ¬ record.barrierComplete then
      (.pending record.barrierAcked.card record.consumerPermits.length, acked)
    else
      (.complete,
        { acked with
          sessionsByEpoch := acked.sessionsByEpoch.erase session
          currentByReplica :=
            -- an old finalizer never deletes a replacement
            if acked.current session.replicaId = some session then
              acked.currentByReplica.erase session.replicaId
            else acked.currentByReplica })

/-- `record_mut` followed by `update_registration_facts`. -/
def refreshFacts (session : RuntimeSessionEpoch) (facts : RegistrationFacts) : Directory :=
  directory.updateRecord session fun record => { record with registrationFacts := facts }

/-- Every routable, non-cancelled, current session, in order. -/
def candidates : List RuntimeSessionEpoch :=
  (directory.sessionsByEpoch.entries.filter fun (epoch, record) =>
    record.routable && !record.cancelled && directory.current epoch.replicaId = some epoch).map
      Prod.fst

end Directory

/-! ## Events -/

inductive DirectoryEvent where
  | publishPending (session : RuntimeSessionEpoch) (permits : List ConsumerKind)
  | markRegistered (session : RuntimeSessionEpoch)
  | beginClose (session : RuntimeSessionEpoch)
  | ackClose (session : RuntimeSessionEpoch) (consumer : ConsumerKind)
  | refreshFacts (session : RuntimeSessionEpoch) (facts : RegistrationFacts)

namespace Directory

variable {directory next s t : Directory} {event : DirectoryEvent}
variable {session : RuntimeSessionEpoch} {permits : List ConsumerKind} {consumer : ConsumerKind}
variable {record : SessionRecord}

def apply (directory : Directory) : DirectoryEvent → Directory
  | .publishPending session permits =>
    ((directory.publishPending session permits).map Prod.snd).toOption.getD directory
  | .markRegistered session => (directory.markRegistered session).2
  | .beginClose session => (directory.beginClose session).2
  | .ackClose session consumer => (directory.ackClose session consumer).2
  | .refreshFacts session facts => directory.refreshFacts session facts

def Step (directory : Directory) (event : DirectoryEvent) (next : Directory) : Prop :=
  directory.apply event = next

theorem step_functional : Run.Functional Step := by
  rintro s event t t' rfl rfl
  rfl

/-! ## Changing one record -/

theorem record_updateRecord (directory : Directory) (change : SessionRecord → SessionRecord)
    (session other : RuntimeSessionEpoch) :
    (directory.updateRecord session change).record other =
      if other = session then (directory.record session).map change
      else directory.record other := by
  unfold updateRecord
  cases hrecord : directory.record session with
  | none =>
    by_cases heq : other = session
    · simp [heq, hrecord]
    · simp [heq]
  | some record =>
    change (directory.sessionsByEpoch.insert session (change record)).get? other = _
    rw [get?_insert]
    rfl

@[simp] theorem currentByReplica_updateRecord (change : SessionRecord → SessionRecord) :
    (directory.updateRecord session change).currentByReplica = directory.currentByReplica := by
  unfold updateRecord
  split <;> rfl

@[simp] theorem nextRevision_updateRecord (change : SessionRecord → SessionRecord) :
    (directory.updateRecord session change).nextRevision = directory.nextRevision := by
  unfold updateRecord
  split <;> rfl

/-! ## What a call does to one record -/

/-- The publication would be accepted. -/
def Publishes (directory : Directory) (session : RuntimeSessionEpoch)
    (permits : List ConsumerKind) : Prop :=
  (∀ permit ∈ permits, permit ∈ directory.installedConsumers) ∧ directory.record session = none

/-- The directory with the replaced epoch cancelled. -/
def cancelReplaced (directory : Directory) (session : RuntimeSessionEpoch) : Directory :=
  match directory.replaced session with
  | some old => directory.updateRecord old fun record => { record with cancelled := true }
  | none => directory

/-- The directory after an accepted publication. -/
def published (directory : Directory) (session : RuntimeSessionEpoch)
    (permits : List ConsumerKind) : Directory :=
  { directory.cancelReplaced session with
    nextRevision := directory.nextRevision + 1
    sessionsByEpoch := (directory.cancelReplaced session).sessionsByEpoch.insert session
      (.new (directory.nextRevision + 1) permits)
    currentByReplica := (directory.cancelReplaced session).currentByReplica.insert
      session.replicaId session }

theorem publishPending_of_publishes (h : directory.Publishes session permits) :
    directory.publishPending session permits =
      .ok (⟨directory.nextRevision + 1, directory.replaced session⟩,
        directory.published session permits) := by
  have hinstalled : permits.all (· ∈ directory.installedConsumers) = true := by
    simpa using h.1
  have hfree : ¬ directory.sessionsByEpoch.contains session = true := by
    rw [contains_iff]
    rintro ⟨record, hget⟩
    have hnone := h.2
    unfold Directory.record at hnone
    rw [hget] at hnone
    cases hnone
  unfold publishPending
  rw [if_neg (not_not.mpr hinstalled), if_neg hfree]
  rfl

theorem publishes_of_publishPending {reply : PublishPending}
    (h : directory.publishPending session permits = .ok (reply, next)) :
    directory.Publishes session permits := by
  unfold publishPending at h
  split at h
  · cases h
  rename_i hinstalled
  split at h
  · cases h
  rename_i hfree
  refine ⟨by simpa using hinstalled, ?_⟩
  cases hrecord : directory.record session with
  | none => rfl
  | some record => exact absurd (contains_iff.mpr ⟨record, hrecord⟩) hfree

/-- What a call can do to the record of `session`. -/
inductive Effect (directory next : Directory) (session : RuntimeSessionEpoch) :
    DirectoryEvent → Prop
  | kept {event : DirectoryEvent} :
      next.record session = directory.record session → Effect directory next session event
  | published {permits : List ConsumerKind} :
      directory.Publishes session permits →
      next.record session = some (.new (directory.nextRevision + 1) permits) →
      Effect directory next session (.publishPending session permits)
  | replaced {other : RuntimeSessionEpoch} {permits : List ConsumerKind} {record : SessionRecord} :
      directory.Publishes other permits → directory.current other.replicaId = some session →
      session ≠ other → directory.record session = some record →
      next.record session = some { record with cancelled := true } →
      Effect directory next session (.publishPending other permits)
  | registered {record : SessionRecord} :
      directory.record session = some record → record.cancelled = false →
      next.record session = some { record with routable := true } →
      Effect directory next session (.markRegistered session)
  | closed {record : SessionRecord} :
      directory.record session = some record →
      next.record session = some { record with cancelled := true } →
      Effect directory next session (.beginClose session)
  | acked {consumer : ConsumerKind} {record : SessionRecord} :
      directory.record session = some record →
      next.record session =
        some { record with barrierAcked := insert consumer record.barrierAcked } →
      Effect directory next session (.ackClose session consumer)
  | removed {consumer : ConsumerKind} {record : SessionRecord} :
      directory.record session = some record →
      (∀ permit ∈ record.consumerPermits, permit ∈ insert consumer record.barrierAcked) →
      next.record session = none →
      Effect directory next session (.ackClose session consumer)
  | refreshed {facts : RegistrationFacts} {record : SessionRecord} :
      directory.record session = some record →
      next.record session = some { record with registrationFacts := facts } →
      Effect directory next session (.refreshFacts session facts)

variable {other : RuntimeSessionEpoch} {change : SessionRecord → SessionRecord}

/-- A change of another record is none of this one. -/
theorem effect_of_updateRecord
    (hsame : ∀ record, directory.record session = some record → other = session →
      (directory.updateRecord other change).record session = some (change record) →
      Effect directory (directory.updateRecord other change) session event) :
    Effect directory (directory.updateRecord other change) session event := by
  have hrecord := record_updateRecord directory change other session
  by_cases heq : session = other
  · rw [if_pos heq] at hrecord
    cases hget : directory.record session with
    | none =>
      refine .kept ?_
      rw [hrecord, ← heq, hget]
      rfl
    | some record =>
      refine hsame record hget heq.symm ?_
      rw [hrecord, ← heq, hget]
      rfl
  · exact .kept (by rw [hrecord, if_neg heq])

theorem apply_publishPending_of_publishes (h : directory.Publishes session permits) :
    directory.apply (.publishPending session permits) = directory.published session permits := by
  rw [apply, publishPending_of_publishes h]
  rfl

theorem apply_publishPending_of_not_publishes (h : ¬ directory.Publishes session permits) :
    directory.apply (.publishPending session permits) = directory := by
  rw [apply]
  cases hpublish : directory.publishPending session permits with
  | error => rfl
  | ok result => exact absurd (publishes_of_publishPending hpublish) h

theorem record_published (directory : Directory) (session other : RuntimeSessionEpoch)
    (permits : List ConsumerKind) :
    (directory.published session permits).record other =
      if other = session then some (.new (directory.nextRevision + 1) permits)
      else (directory.cancelReplaced session).record other :=
  get?_insert _ _ _ _

theorem current_published (directory : Directory) (session : RuntimeSessionEpoch)
    (permits : List ConsumerKind) (replicaId : String) :
    (directory.published session permits).current replicaId =
      if replicaId = session.replicaId then some session else directory.current replicaId := by
  have hcurrent : (directory.cancelReplaced session).currentByReplica =
      directory.currentByReplica := by
    unfold cancelReplaced
    split
    · exact currentByReplica_updateRecord _
    · rfl
  change ((directory.cancelReplaced session).currentByReplica.insert _ _).get? replicaId = _
  rw [get?_insert, hcurrent]
  rfl

theorem effect_publishPending (directory : Directory) (other : RuntimeSessionEpoch)
    (permits : List ConsumerKind) (session : RuntimeSessionEpoch) :
    Effect directory (directory.apply (.publishPending other permits)) session
      (.publishPending other permits) := by
  by_cases hpublishes : directory.Publishes other permits
  · rw [apply_publishPending_of_publishes hpublishes]
    have hrecord := record_published directory other session permits
    by_cases hsession : session = other
    · subst hsession
      rw [if_pos rfl] at hrecord
      exact .published hpublishes hrecord
    rw [if_neg hsession] at hrecord
    unfold cancelReplaced at hrecord
    split at hrecord
    · rename_i old hold
      obtain ⟨hcurrent, -⟩ := Option.filter_eq_some_iff.mp hold
      rw [record_updateRecord] at hrecord
      by_cases hequal : session = old
      · subst hequal
        rw [if_pos rfl] at hrecord
        cases hget : directory.record session with
        | none =>
          refine .kept ?_
          rw [hrecord, hget]
          rfl
        | some record =>
          rw [hget] at hrecord
          exact .replaced hpublishes hcurrent hsession hget hrecord
      · exact .kept (by rw [hrecord, if_neg hequal])
    · exact .kept hrecord
  rw [apply_publishPending_of_not_publishes hpublishes]
  exact .kept rfl

theorem effect_ackClose (directory : Directory) (other : RuntimeSessionEpoch)
    (consumer : ConsumerKind) (session : RuntimeSessionEpoch) :
    Effect directory (directory.apply (.ackClose other consumer)) session
      (.ackClose other consumer) := by
  rw [apply]
  unfold ackClose
  split
  · exact .kept rfl
  rename_i record hget
  simp only
  split
  · refine effect_of_updateRecord ?_
    rintro found hfound rfl hafter
    rw [hget] at hfound
    cases hfound
    exact .acked hget hafter
  rename_i hcomplete
  rw [not_not] at hcomplete
  by_cases hsession : session = other
  · subst hsession
    refine .removed hget (by simpa [SessionRecord.barrierComplete] using hcomplete) ?_
    exact get?_erase_self _ _
  refine .kept ?_
  have hrecord := record_updateRecord directory
    (fun _ => { record with barrierAcked := insert consumer record.barrierAcked }) other session
  rw [if_neg hsession] at hrecord
  rw [← hrecord]
  exact get?_erase_of_ne _ hsession

theorem effect (directory : Directory) (event : DirectoryEvent) (session : RuntimeSessionEpoch) :
    Effect directory (directory.apply event) session event := by
  cases event with
  | publishPending other permits => exact effect_publishPending directory other permits session
  | ackClose other consumer => exact effect_ackClose directory other consumer session
  | markRegistered other =>
    rw [apply]
    unfold markRegistered
    split
    · exact .kept rfl
    rename_i record hget
    split
    · exact .kept rfl
    rename_i hcancelled
    refine effect_of_updateRecord ?_
    rintro found hfound rfl hafter
    rw [hget] at hfound
    cases hfound
    exact .registered hget (by simpa using hcancelled) hafter
  | beginClose other =>
    rw [apply]
    unfold beginClose
    split
    · exact .kept rfl
    refine effect_of_updateRecord ?_
    rintro found hfound rfl hafter
    exact .closed hfound hafter
  | refreshFacts other facts =>
    refine effect_of_updateRecord ?_
    rintro found hfound rfl hafter
    exact .refreshed hfound hafter

/-! ## What a call does to the current epochs -/

/-- What a call can do to the current epoch of a replica. -/
inductive CurrentEffect (directory next : Directory) (replicaId : String) : DirectoryEvent → Prop
  | kept {event : DirectoryEvent} :
      next.current replicaId = directory.current replicaId →
      (∀ session consumer, event = .ackClose session consumer →
        directory.current replicaId = some session → next.record session = none →
        directory.record session = none) →
      CurrentEffect directory next replicaId event
  | published {session : RuntimeSessionEpoch} {permits : List ConsumerKind} :
      directory.Publishes session permits → session.replicaId = replicaId →
      next.current replicaId = some session →
      CurrentEffect directory next replicaId (.publishPending session permits)
  | removed {session : RuntimeSessionEpoch} {consumer : ConsumerKind} :
      directory.current replicaId = some session → next.current replicaId = none →
      CurrentEffect directory next replicaId (.ackClose session consumer)

theorem currentEffect_of_updateRecord {replicaId : String} :
    CurrentEffect directory (directory.updateRecord other change) replicaId event := by
  refine .kept (by rw [current, currentByReplica_updateRecord]; rfl) ?_
  intro session consumer _ _ hnone
  rw [record_updateRecord] at hnone
  split at hnone
  · rename_i heq
    rw [heq]
    exact Option.map_eq_none_iff.mp hnone
  · exact hnone

theorem currentEffect (directory : Directory) (event : DirectoryEvent) (replicaId : String)
    (hown : ∀ session, directory.current replicaId = some session → session.replicaId = replicaId) :
    CurrentEffect directory (directory.apply event) replicaId event := by
  cases event with
  | publishPending session permits =>
    by_cases hpublishes : directory.Publishes session permits
    · rw [apply_publishPending_of_publishes hpublishes]
      have hcurrent := current_published directory session permits replicaId
      by_cases hreplica : replicaId = session.replicaId
      · rw [if_pos hreplica] at hcurrent
        exact .published hpublishes hreplica.symm hcurrent
      rw [if_neg hreplica] at hcurrent
      exact .kept hcurrent (by simp)
    rw [apply_publishPending_of_not_publishes hpublishes]
    exact .kept rfl (by simp)
  | markRegistered other =>
    rw [apply]
    unfold markRegistered
    split
    · exact .kept rfl (by simp)
    split
    · exact .kept rfl (by simp)
    · exact currentEffect_of_updateRecord
  | beginClose other =>
    rw [apply]
    unfold beginClose
    split
    · exact .kept rfl (by simp)
    · exact currentEffect_of_updateRecord
  | refreshFacts other facts => exact currentEffect_of_updateRecord
  | ackClose other consumer =>
    rw [apply]
    unfold ackClose
    split
    · rename_i hnone
      refine .kept rfl ?_
      rintro session consumer ⟨⟩ _ _
      exact hnone
    rename_i record hget
    simp only
    split
    · exact currentEffect_of_updateRecord
    generalize hacked : directory.updateRecord other _ = acked
    have hcurrent : acked.currentByReplica = directory.currentByReplica := by
      rw [← hacked, currentByReplica_updateRecord]
    by_cases hequal : directory.current other.replicaId = some other
    · have hacked' : acked.current other.replicaId = some other := by
        rw [current, hcurrent]
        exact hequal
      by_cases hreplica : replicaId = other.replicaId
      · subst hreplica
        refine .removed hequal ?_
        rw [if_pos hacked']
        exact get?_erase_self _ _
      refine .kept ?_ ?_
      · rw [if_pos hacked']
        refine (get?_erase_of_ne _ hreplica).trans ?_
        rw [hcurrent]
        rfl
      rintro session consumer ⟨⟩ hcurrent' _
      exact absurd (hown other hcurrent').symm hreplica
    have hacked' : ¬ acked.current other.replicaId = some other := by
      rw [current, hcurrent]
      exact hequal
    refine .kept ?_ ?_
    · rw [if_neg hacked']
      change acked.currentByReplica.get? replicaId = _
      rw [hcurrent]
      rfl
    rintro session consumer ⟨⟩ hcurrent' _
    exact absurd (by rw [hown other hcurrent']; exact hcurrent') hequal

end Directory
end Skiff.Session
