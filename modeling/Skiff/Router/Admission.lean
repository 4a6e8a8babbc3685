import Skiff.Data.Tally
import Skiff.Session.Directory

/-!
# Candidates and admission

Which sessions a request may go to (`router/src/routing/query.rs`), and the pool of
permits that bounds how many requests each of them has (`dispatch/admission.rs`). A
reservation is a permit of one session; committing it changes nothing in the pool, and
releasing it is the release of a permit. A release that finds no permit of its session
would panic.
-/

namespace Skiff.Router

open Function

open Session (RuntimeSessionEpoch)

/-! ## Candidates -/

inductive DispatchMode where
  | unary
  | serverStream

def dispatchModeFromWire (mode : String) : Option DispatchMode :=
  if mode = "unary" then some .unary
  else if mode = "serverStream" then some .serverStream
  else none

structure DispatchCapabilities where
  unary : Bool
  serverStream : Bool

def DispatchCapabilities.supports (capabilities : DispatchCapabilities) : DispatchMode → Bool
  | .unary => capabilities.unary
  | .serverStream => capabilities.serverStream

structure CandidateSession where
  sessionEpoch : RuntimeSessionEpoch
  registered : Bool
  registrationRevision : Nat
  cancelled : Bool
  capabilities : DispatchCapabilities
  registeredBuildIds : List String
  lazyLoad : Bool
  artifactRoot : Option String

structure CandidateDirectoryView where
  revision : Option Nat
  routerArtifactRoot : Option String
  sessions : List CandidateSession

structure CandidateQuery where
  mode : DispatchMode
  buildId : String

structure RegisteredSessionLease where
  sessionEpoch : RuntimeSessionEpoch
  registrationRevision : Nat
  cancelled : Bool
  capabilities : DispatchCapabilities
  registeredBuildIds : List String
  lazyLoad : Bool
  artifactRoot : Option String

def CandidateSession.buildLease (session : CandidateSession) : RegisteredSessionLease where
  sessionEpoch := session.sessionEpoch
  registrationRevision := session.registrationRevision
  cancelled := false
  capabilities := session.capabilities
  registeredBuildIds := session.registeredBuildIds
  lazyLoad := session.lazyLoad
  artifactRoot := session.artifactRoot

namespace CandidateDirectoryView

variable (view : CandidateDirectoryView) (query : CandidateQuery)

def projectSession (session : CandidateSession) : Option RegisteredSessionLease :=
  if !session.registered then none
  else if view.revision.any fun revision => session.registrationRevision ≠ revision then none
  else if session.cancelled then none
  else if !(session.registeredBuildIds.any (· = query.buildId) ||
      (session.lazyLoad && session.artifactRoot = view.routerArtifactRoot)) then none
  else if !session.capabilities.supports query.mode then none
  else some session.buildLease

/-- A session that the view lists twice is projected once. -/
def projectSessions : List CandidateSession → List RuntimeSessionEpoch → List RegisteredSessionLease
  | [], _ => []
  | session :: sessions, seen =>
    if session.sessionEpoch ∈ seen then projectSessions sessions seen
    else
      (view.projectSession query session).toList ++
        projectSessions sessions (session.sessionEpoch :: seen)

/-- `RuntimeCandidateQuery::query`. -/
def candidates : List RegisteredSessionLease := view.projectSessions query view.sessions []

end CandidateDirectoryView

/-! ## Permits -/

/-- Where the router would panic. -/
inductive Panic where
  | unpairedRelease
  | releaseUnderflow
  | pendingMissing
  | modeNotValidated

structure AdmissionPool where
  maxConcurrency : Nat
  inFlight : OrdMap RuntimeSessionEpoch Nat
  cursor : Nat

namespace AdmissionPool

variable (pool : AdmissionPool)

def new (maxConcurrency : Nat) : AdmissionPool := ⟨maxConcurrency, ∅, 0⟩

def inFlightOf (session : RuntimeSessionEpoch) : Nat := (pool.inFlight.get? session).getD 0

def capacityAvailable (lease : RegisteredSessionLease) : Bool :=
  pool.inFlightOf lease.sessionEpoch < pool.maxConcurrency

def reserve (session : RuntimeSessionEpoch) : AdmissionPool :=
  { pool with inFlight := pool.inFlight.insert session (pool.inFlightOf session + 1) }

def releasePermit (session : RuntimeSessionEpoch) : Except Panic AdmissionPool :=
  match pool.inFlight.get? session with
  | none => .error .unpairedRelease
  | some 0 => .error .releaseUnderflow
  | some (n + 1) =>
    .ok { pool with
      inFlight := if n = 0 then pool.inFlight.erase session else pool.inFlight.insert session n }

/-- The candidate at an index, with the cursor moved past it. -/
def take (leases : List RegisteredSessionLease) (index : Nat) :
    Option (RegisteredSessionLease × AdmissionPool) :=
  match leases[index]? with
  | none => none
  | some lease =>
    if pool.capacityAvailable lease then
      some (lease,
        { pool with cursor := (index + 1) % leases.length }.reserve lease.sessionEpoch)
    else none

/-- The preferred session if it is a candidate with capacity, and otherwise the first
with capacity from the cursor on. -/
def select (leases : List RegisteredSessionLease) (preferred : Option RuntimeSessionEpoch) :
    Option (RegisteredSessionLease × AdmissionPool) :=
  let first := preferred.bind fun session =>
    (leases.findIdx? fun lease => lease.sessionEpoch = session).bind (pool.take leases)
  first.or ((List.range leases.length).findSome? fun offset =>
    pool.take leases ((pool.cursor + offset) % leases.length))

/-- From the head of the candidates, without the session that failed. The cursor stays. -/
def selectAfterRevalidateFailure (leases : List RegisteredSessionLease)
    (excluded : RuntimeSessionEpoch) : Option (RegisteredSessionLease × AdmissionPool) :=
  (leases.find? fun lease => lease.sessionEpoch ≠ excluded && pool.capacityAvailable lease).map
    fun lease => (lease, pool.reserve lease.sessionEpoch)

/-! ## What the pool counts -/

/-- The pool counts the permits that are out, and no session has too many. -/
structure Counts (pool : AdmissionPool) (limit : Nat) (held : RuntimeSessionEpoch → Nat) :
    Prop where
  limited : pool.maxConcurrency = limit
  tally : Tally.Counts pool.inFlight held
  bounded : ∀ session, held session ≤ limit

variable {pool} {limit : Nat} {held : RuntimeSessionEpoch → Nat} {session : RuntimeSessionEpoch}
  {leases : List RegisteredSessionLease} {lease : RegisteredSessionLease} {pool' : AdmissionPool}

theorem counts_new (maxConcurrency : Nat) : (new maxConcurrency).Counts maxConcurrency fun _ => 0 :=
  ⟨rfl, Tally.counts_empty, fun _ => Nat.zero_le _⟩

theorem Counts.inFlightOf_eq (h : pool.Counts limit held) (session : RuntimeSessionEpoch) :
    pool.inFlightOf session = held session :=
  h.tally.getD session

theorem Counts.reserve (h : pool.Counts limit held) (hfree : held session < limit) :
    (pool.reserve session).Counts limit (update held session (held session + 1)) := by
  refine ⟨h.limited, ?_, ?_⟩
  · rw [AdmissionPool.reserve, h.inFlightOf_eq]
    exact h.tally.insert (Nat.succ_ne_zero _)
  intro other
  by_cases hother : other = session
  · subst hother
    rw [update_self]
    exact hfree
  rw [update_of_ne hother]
  exact h.bounded other

theorem releasePermit_eq {n : Nat} (h : pool.inFlight.get? session = some (n + 1)) :
    pool.releasePermit session = .ok { pool with
      inFlight :=
        if n = 0 then pool.inFlight.erase session else pool.inFlight.insert session n } := by
  simp only [releasePermit, h]

/-- A permit that is out can be released. -/
theorem Counts.release (h : pool.Counts limit held) (hout : 0 < held session) :
    ∃ pool', pool.releasePermit session = .ok pool' ∧
      pool'.Counts limit (update held session (held session - 1)) := by
  obtain ⟨n, hn⟩ : ∃ n, held session = n + 1 := ⟨held session - 1, by omega⟩
  have hget : pool.inFlight.get? session = some (n + 1) := by
    rw [h.tally session, hn, if_neg (Nat.succ_ne_zero n)]
  refine ⟨_, releasePermit_eq hget, h.limited, ?_, ?_⟩
  · rw [hn, Nat.add_sub_cancel]
    dsimp only
    by_cases hzero : n = 0
    · subst hzero
      rw [if_pos rfl]
      exact h.tally.erase
    rw [if_neg hzero]
    exact h.tally.insert hzero
  intro other
  by_cases hother : other = session
  · subst hother
    rw [update_self]
    exact (Nat.sub_le _ _).trans (h.bounded other)
  rw [update_of_ne hother]
  exact h.bounded other

theorem Counts.release_reserve (h : pool.Counts limit held) :
    (pool.reserve session).releasePermit session = .ok pool := by
  have hget : (pool.reserve session).inFlight.get? session = some (held session + 1) := by
    rw [AdmissionPool.reserve, h.inFlightOf_eq]
    exact OrdMap.get?_insert_self _ _ _
  have hback : Tally.Counts (if held session = 0 then (pool.reserve session).inFlight.erase session
      else (pool.reserve session).inFlight.insert session (held session)) held := by
    have htally : Tally.Counts (pool.reserve session).inFlight
        (update held session (held session + 1)) := by
      rw [AdmissionPool.reserve, h.inFlightOf_eq]
      exact h.tally.insert (Nat.succ_ne_zero _)
    split
    case isTrue hzero =>
      have := htally.erase (c := session)
      rwa [update_idem, ← hzero, update_eq_self] at this
    case isFalse hpos =>
      have := htally.insert (c := session) hpos
      rwa [update_idem, update_eq_self] at this
  rw [releasePermit_eq hget, hback.unique h.tally]
  rfl

/-- What a selection returns: a candidate with capacity, reserved. -/
structure Selected (pool : AdmissionPool) (leases : List RegisteredSessionLease)
    (lease : RegisteredSessionLease) (pool' : AdmissionPool) : Prop where
  candidate : lease ∈ leases
  capacity : pool.inFlightOf lease.sessionEpoch < pool.maxConcurrency
  reserved : ∃ cursor, pool' = { pool with cursor := cursor }.reserve lease.sessionEpoch

theorem take_eq_some {index : Nat} (h : pool.take leases index = some (lease, pool')) :
    pool.Selected leases lease pool' := by
  unfold take at h
  split at h
  · cases h
  case h_2 found hfound =>
    split at h
    case isTrue hcapacity =>
      cases h
      exact ⟨List.mem_of_getElem? hfound, of_decide_eq_true hcapacity, _, rfl⟩
    · cases h

theorem select_eq_some {preferred : Option RuntimeSessionEpoch}
    (h : pool.select leases preferred = some (lease, pool')) :
    pool.Selected leases lease pool' := by
  obtain h | ⟨-, h⟩ := Option.or_eq_some_iff.mp h
  · obtain ⟨wanted, -, h⟩ := Option.bind_eq_some_iff.mp h
    obtain ⟨index, -, h⟩ := Option.bind_eq_some_iff.mp h
    exact take_eq_some h
  obtain ⟨offset, -, h⟩ := List.exists_of_findSome?_eq_some h
  exact take_eq_some h

theorem selectAfterRevalidateFailure_eq_some {excluded : RuntimeSessionEpoch}
    (h : pool.selectAfterRevalidateFailure leases excluded = some (lease, pool')) :
    pool.Selected leases lease pool' := by
  obtain ⟨found, hfound, h⟩ := Option.map_eq_some_iff.mp h
  cases h
  have hfree := List.find?_some hfound
  rw [Bool.and_eq_true_iff] at hfree
  exact ⟨List.mem_of_find?_eq_some hfound, of_decide_eq_true hfree.2, pool.cursor, rfl⟩

theorem Selected.counts (h : pool.Selected leases lease pool') (hcounts : pool.Counts limit held) :
    pool'.Counts limit (update held lease.sessionEpoch (held lease.sessionEpoch + 1)) := by
  obtain ⟨cursor, rfl⟩ := h.reserved
  have hfree := h.capacity
  rw [hcounts.inFlightOf_eq, hcounts.limited] at hfree
  have hmoved : ({ pool with cursor := cursor } : AdmissionPool).Counts limit held :=
    ⟨hcounts.limited, hcounts.tally, hcounts.bounded⟩
  exact hmoved.reserve hfree

/-- Releasing what was selected leaves the counts as they were. -/
theorem Selected.release (h : pool.Selected leases lease pool') (hcounts : pool.Counts limit held) :
    ∃ back, pool'.releasePermit lease.sessionEpoch = .ok back ∧ back.Counts limit held := by
  obtain ⟨cursor, rfl⟩ := h.reserved
  have hmoved : ({ pool with cursor := cursor } : AdmissionPool).Counts limit held :=
    ⟨hcounts.limited, hcounts.tally, hcounts.bounded⟩
  exact ⟨_, hmoved.release_reserve, hmoved⟩

end AdmissionPool

end Skiff.Router
