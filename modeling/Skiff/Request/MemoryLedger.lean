import Skiff.Data.Mut
import Skiff.Data.OrdMap
import Skiff.Data.Run

/-!
# The request memory ledger

`RequestMemoryLedger` (`runtime/request/src/memory_ledger.rs`) counts the memory of one
request. Capacity is held by reservations and then by leases, both affine handles; the
ledger only has the two sums and their peaks.

Every method takes the lock once, except `mint_child_heap` and `zero_lease`, which take
it once for each method they call. A run of the ledger is a sequence of such sections, so
that other callers can come in between. `expect` and overflow are a `panic`.
-/

namespace Skiff.Request

open Option List Run Mut

def u64Max : Nat := 2 ^ 64 - 1
def u32Max : Nat := 2 ^ 32 - 1

/-- `checked_add` of 64-bit numbers. -/
def checkedAdd (a b : Nat) : Option Nat := if a + b ≤ u64Max then some (a + b) else none

theorem checkedAdd_eq_some {a b c : Nat} : checkedAdd a b = some c ↔ a + b = c ∧ c ≤ u64Max := by
  unfold checkedAdd
  split
  case isTrue h =>
    simp only [some.injEq]
    omega
  case isFalse h =>
    simp only [reduceCtorEq, false_iff]
    omega

theorem checkedAdd_eq_none {a b : Nat} : checkedAdd a b = none ↔ u64Max < a + b := by
  unfold checkedAdd
  split <;> simp <;> omega

inductive MemoryLedgerError where
  | hardCapExceeded (hardCap reserved committed requested : Nat)
  | terminal
  | releaseUnderflow (committed amount : Nat)
  | liveAllocationsAtTerminal (reserved committed : Nat)
  | domainSpaceExhausted
  | epochSpaceExhausted

/-- Not an error of the accounting itself: no subtraction failed, and epochs are left. -/
def MemoryLedgerError.Regular (error : MemoryLedgerError) : Prop :=
  error ≠ .epochSpaceExhausted ∧ ∀ committed amount, error ≠ .releaseUnderflow committed amount

inductive LedgerFault where
  | error (error : MemoryLedgerError)
  | panic (message : String)

structure LedgerState where
  hardCap : Nat
  reserved : Nat := 0
  committed : Nat := 0
  peakReserved : Nat := 0
  peakCommitted : Nat := 0
  peakTotal : Nat := 0
  terminal : Bool := false
  nextToken : Nat := 1
  nextDomain : Nat := 1
  nextEpoch : Nat := 0

abbrev LedgerM (α : Type) : Type := Mut LedgerState LedgerFault α

namespace LedgerState

def hardCapExceeded (state : LedgerState) (requested : Nat) : LedgerFault :=
  .error (.hardCapExceeded state.hardCap state.reserved state.committed requested)

/-- The total after a request, if the hard cap allows it. -/
def totalWith (state : LedgerState) (requested : Nat) : Except LedgerFault Nat :=
  match checkedAdd state.reserved state.committed with
  | none => .error (state.hardCapExceeded requested)
  | some current =>
    match checkedAdd current requested with
    | none => .error (state.hardCapExceeded requested)
    | some total =>
      if state.hardCap < total then .error (state.hardCapExceeded requested) else .ok total

/-- Reserve an amount; the result is the token of the reservation. -/
def reserve (amount : Nat) : LedgerM Nat := do
  read fun state => if state.terminal then .error (.error .terminal) else .ok ()
  let total ← read fun state => state.totalWith amount
  let reserved ← read fun state =>
    match checkedAdd state.reserved amount with
    | some reserved => .ok reserved
    | none => .error (.panic "current total and amount fit, so reserved plus amount must fit")
  let next ← read fun state =>
    match checkedAdd state.nextToken 1 with
    | some next => .ok next
    | none => .error (.error .terminal)
  let token ← read fun state =>
    if state.nextToken = 0 then .error (.panic "request memory ledger token starts at one")
    else .ok state.nextToken
  modify fun state => { state with
    nextToken := next
    reserved := reserved
    peakReserved := max state.peakReserved reserved
    peakTotal := max state.peakTotal total }
  return token

def subtractWithOverflow : LedgerFault := .panic "attempt to subtract with overflow"

/-- `MemoryReservation::commit`. -/
def commit (amount : Nat) : LedgerM Unit := do
  read fun state => if state.reserved < amount then .error subtractWithOverflow else .ok ()
  modify fun state => { state with reserved := state.reserved - amount }
  let committed ← read fun state =>
    match checkedAdd state.committed amount with
    | some committed => .ok committed
    | none => .error (.panic "request memory ledger committed total cannot overflow")
  modify fun state => { state with
    committed := committed
    peakCommitted := max state.peakCommitted committed }
  let total ← read fun state =>
    match checkedAdd state.committed state.reserved with
    | some total => .ok total
    | none => .error (.panic "request memory ledger total cannot overflow")
  modify fun state => { state with peakTotal := max state.peakTotal total }

/-- `MemoryReservation::abandon`, and the drop of a reservation that was not consumed. -/
def abandon (amount : Nat) : LedgerM Unit := do
  read fun state => if state.reserved < amount then .error subtractWithOverflow else .ok ()
  modify fun state => { state with reserved := state.reserved - amount }

/-- `release_lease`, called once by a lease that is released or dropped. -/
def releaseLease (amount : Nat) : LedgerM Unit := do
  read fun state =>
    if state.committed < amount then
      .error (.panic "request memory ledger released an amount not committed")
    else .ok ()
  modify fun state => { state with committed := state.committed - amount }

/-- The next domain and epoch. The domain is taken before the epoch is checked. -/
def mintHeapIdentity : LedgerM (Nat × Nat) := do
  read fun state => if state.terminal then .error (.error .terminal) else .ok ()
  let rawDomain ← read fun state =>
    if u32Max < state.nextDomain then .error (.error .domainSpaceExhausted)
    else .ok state.nextDomain
  let nextDomain ← read fun state =>
    match checkedAdd state.nextDomain 1 with
    | some next => .ok next
    | none => .error (.error .domainSpaceExhausted)
  read fun _ =>
    if rawDomain = 0 then .error (.error .domainSpaceExhausted) else .ok ()
  let epoch ← read fun state => .ok state.nextEpoch
  modify fun state => { state with nextDomain := nextDomain }
  read fun state =>
    if u32Max ≤ state.nextEpoch then .error (.error .epochSpaceExhausted) else .ok ()
  modify fun state => { state with nextEpoch := state.nextEpoch + 1 }
  return (rawDomain, epoch)

/-- Move a lease from its old amount to a new one. -/
def setCommittedLeaseAmount (old amount : Nat) : LedgerM Unit := do
  read fun state => if state.terminal then .error (.error .terminal) else .ok ()
  if amount = old then pure ()
  else if old < amount then do
    let total ← read fun state => state.totalWith (amount - old)
    let committed ← read fun state =>
      match checkedAdd state.committed (amount - old) with
      | some committed => .ok committed
      | none => .error (.panic "request memory ledger committed total cannot overflow")
    modify fun state => { state with
      committed := committed
      peakCommitted := max state.peakCommitted committed
      peakTotal := max state.peakTotal total }
  else do
    read fun state =>
      if state.committed < old - amount then
        .error (.error (.releaseUnderflow state.committed (old - amount)))
      else .ok ()
    modify fun state => { state with committed := state.committed - (old - amount) }

def markTerminal : LedgerM Unit := do
  read fun state =>
    if state.reserved ≠ 0 ∨ state.committed ≠ 0 then
      .error (.error (.liveAllocationsAtTerminal state.reserved state.committed))
    else .ok ()
  modify fun state => { state with terminal := true }

/-! ### What a section can do -/

section Outcomes

variable {state next : LedgerState} {amount : Nat}

/-- A regular error, with everything as it was. -/
def Refused {α : Type} (state next : LedgerState) (r : Except LedgerFault α) : Prop :=
  next = state ∧ ∃ error, r = .error (.error error) ∧ error.Regular

theorem totalWith_cases (state : LedgerState) (requested : Nat) :
    (∃ error, state.totalWith requested = .error (.error error) ∧ error.Regular) ∨
      state.totalWith requested = .ok (state.reserved + state.committed + requested) ∧
        state.reserved + state.committed + requested ≤ state.hardCap ∧
        state.reserved + state.committed + requested ≤ u64Max := by
  unfold totalWith
  split
  · exact .inl ⟨_, rfl, by simp, by simp⟩
  case h_2 current hcurrent =>
    obtain ⟨rfl, -⟩ := checkedAdd_eq_some.mp hcurrent
    split
    · exact .inl ⟨_, rfl, by simp, by simp⟩
    case h_2 total htotal =>
      obtain ⟨rfl, hmax⟩ := checkedAdd_eq_some.mp htotal
      split
      · exact .inl ⟨_, rfl, by simp, by simp⟩
      case isFalse hcap => exact .inr ⟨rfl, Nat.le_of_not_lt hcap, hmax⟩

theorem open_cases {α : Type} {r : Except LedgerFault α} {f : Unit → LedgerM α}
    (h : (read (fun state => if state.terminal then .error (.error .terminal) else .ok ()) >>= f)
      state = (r, next)) :
    Refused state next r ∨ state.terminal = false ∧ f () state = (r, next) := by
  obtain ⟨fault, hr, hread, rfl⟩ | ⟨_, hopen, h⟩ := read_cases h
  · split at hread
    · cases hread
      exact .inl ⟨rfl, _, hr, by simp, by simp⟩
    · cases hread
  split at hopen
  · cases hopen
  case isFalse hfalse => exact .inr ⟨by simpa using hfalse, h⟩

theorem reserve_cases {r : Except LedgerFault Nat} (hstarted : 0 < state.nextToken)
    (h : reserve amount state = (r, next)) :
    Refused state next r ∨
      r = .ok state.nextToken ∧ state.terminal = false ∧
      state.reserved + state.committed + amount ≤ state.hardCap ∧
      next = { state with
        nextToken := state.nextToken + 1
        reserved := state.reserved + amount
        peakReserved := max state.peakReserved (state.reserved + amount)
        peakTotal := max state.peakTotal (state.reserved + state.committed + amount) } := by
  obtain hrefused | ⟨hterminal, h⟩ := open_cases h
  · exact .inl hrefused
  obtain ⟨fault, hr, hread, rfl⟩ | ⟨total, htotal, h⟩ := read_cases h
  · obtain ⟨error, herror, hregular⟩ | ⟨hok, -⟩ := totalWith_cases next amount
    · rw [herror] at hread
      cases hread
      exact .inl ⟨rfl, error, hr, hregular⟩
    rw [hok] at hread
    cases hread
  obtain ⟨error, herror, -⟩ | ⟨hok, hcap, hmax⟩ := totalWith_cases state amount
  · rw [herror] at htotal
    cases htotal
  rw [hok] at htotal
  cases htotal
  have hfits : checkedAdd state.reserved amount = some (state.reserved + amount) :=
    checkedAdd_eq_some.mpr ⟨rfl, by omega⟩
  obtain ⟨fault, hr, hread, rfl⟩ | ⟨reserved, hreserved, h⟩ := read_cases h
  · rw [hfits] at hread
    cases hread
  rw [hfits] at hreserved
  cases hreserved
  obtain ⟨fault, hr, hread, rfl⟩ | ⟨nextToken, hnext, h⟩ := read_cases h
  · split at hread
    · cases hread
    cases hread
    exact .inl ⟨rfl, _, hr, by simp, by simp⟩
  split at hnext
  case h_2 => cases hnext
  case h_1 _ hadd =>
    cases hnext
    obtain ⟨rfl, -⟩ := checkedAdd_eq_some.mp hadd
    simp only [Mut.read, Mut.modify, bind, Mut.bind, if_neg hstarted.ne'] at h
    obtain ⟨hr, rfl⟩ := Prod.mk.inj h
    exact .inr ⟨hr.symm, hterminal, hcap, rfl⟩

theorem commit_eq (hreserved : amount ≤ state.reserved)
    (htotal : state.reserved + state.committed ≤ u64Max) :
    commit amount state = (.ok (), { state with
      reserved := state.reserved - amount
      committed := state.committed + amount
      peakCommitted := max state.peakCommitted (state.committed + amount)
      peakTotal := max state.peakTotal (state.reserved + state.committed) }) := by
  have hsub : ¬ state.reserved < amount := Nat.not_lt.mpr hreserved
  have hcommitted : checkedAdd state.committed amount = some (state.committed + amount) :=
    checkedAdd_eq_some.mpr ⟨rfl, by omega⟩
  have hsum : checkedAdd (state.committed + amount) (state.reserved - amount) =
      some (state.reserved + state.committed) :=
    checkedAdd_eq_some.mpr ⟨by omega, htotal⟩
  simp only [commit, Mut.read, Mut.modify, bind, Mut.bind, if_neg hsub, hcommitted, hsum]

theorem abandon_eq (hreserved : amount ≤ state.reserved) :
    abandon amount state = (.ok (), { state with reserved := state.reserved - amount }) := by
  have hsub : ¬ state.reserved < amount := Nat.not_lt.mpr hreserved
  simp only [abandon, Mut.read, Mut.modify, bind, Mut.bind, if_neg hsub]

theorem releaseLease_eq (hcommitted : amount ≤ state.committed) :
    releaseLease amount state = (.ok (), { state with committed := state.committed - amount }) := by
  have hsub : ¬ state.committed < amount := Nat.not_lt.mpr hcommitted
  simp only [releaseLease, Mut.read, Mut.modify, bind, Mut.bind, if_neg hsub]

/-- Domains run out before epochs do. -/
theorem mintHeapIdentity_cases {r : Except LedgerFault (Nat × Nat)}
    (hepoch : state.nextEpoch + 1 = state.nextDomain) (h : mintHeapIdentity state = (r, next)) :
    Refused state next r ∨
      r = .ok (state.nextDomain, state.nextEpoch) ∧ state.nextDomain ≤ u32Max ∧
      next = { state with nextDomain := state.nextDomain + 1, nextEpoch :=
        state.nextEpoch + 1 } := by
  obtain hrefused | ⟨-, h⟩ := open_cases h
  · exact .inl hrefused
  obtain ⟨fault, hr, hread, rfl⟩ | ⟨rawDomain, hdomain, h⟩ := read_cases h
  · split at hread
    · cases hread
      exact .inl ⟨rfl, _, hr, by simp, by simp⟩
    · cases hread
  split at hdomain
  · cases hdomain
  case isFalse hmax =>
    cases hdomain
    have hsmall : state.nextDomain ≤ u32Max := Nat.le_of_not_lt hmax
    have hadd : checkedAdd state.nextDomain 1 = some (state.nextDomain + 1) :=
      checkedAdd_eq_some.mpr ⟨rfl, by unfold u32Max at hsmall; unfold u64Max; omega⟩
    have hne : ¬ state.nextDomain = 0 := by omega
    have hleft : ¬ u32Max ≤ state.nextEpoch := by omega
    simp only [Mut.read, Mut.modify, bind, Mut.bind, hadd, if_neg hne, if_neg hleft] at h
    obtain ⟨hr, rfl⟩ := Prod.mk.inj h
    exact .inr ⟨hr.symm, hsmall, rfl⟩

variable {r : Except LedgerFault Unit}

theorem setCommittedLeaseAmount_cases {old : Nat}
    (hold : old ≤ state.committed) (h : setCommittedLeaseAmount old amount state = (r, next)) :
    Refused state next r ∨ r = .ok () ∧ state.terminal = false ∧
      (amount ≤ old ∧ next = { state with committed := state.committed - (old - amount) } ∨
        old < amount ∧ state.reserved + state.committed + (amount - old) ≤ state.hardCap ∧
        next = { state with
          committed := state.committed + (amount - old)
          peakCommitted := max state.peakCommitted (state.committed + (amount - old))
          peakTotal := max state.peakTotal
            (state.reserved + state.committed + (amount - old)) }) := by
  obtain hrefused | ⟨hterminal, h⟩ := open_cases h
  · exact .inl hrefused
  split at h
  case isTrue heq =>
    obtain ⟨hr, rfl⟩ := Prod.mk.inj h
    refine .inr ⟨hr.symm, hterminal, .inl ⟨heq.le, ?_⟩⟩
    rw [heq, Nat.sub_self, Nat.sub_zero]
  case isFalse hne =>
    split at h
    case isTrue hlt =>
      obtain ⟨fault, hr, hread, rfl⟩ | ⟨total, htotal, h⟩ := read_cases h
      · obtain ⟨error, herror, hregular⟩ | ⟨hok, -⟩ := totalWith_cases next (amount - old)
        · rw [herror] at hread
          cases hread
          exact .inl ⟨rfl, error, hr, hregular⟩
        rw [hok] at hread
        cases hread
      obtain ⟨error, herror, -⟩ | ⟨hok, hcap, hmax⟩ := totalWith_cases state (amount - old)
      · rw [herror] at htotal
        cases htotal
      rw [hok] at htotal
      cases htotal
      have hadd : checkedAdd state.committed (amount - old) =
        some (state.committed + (amount - old)) :=
        checkedAdd_eq_some.mpr ⟨rfl, by omega⟩
      simp only [Mut.read, Mut.modify, bind, Mut.bind, hadd] at h
      obtain ⟨hr, rfl⟩ := Prod.mk.inj h
      exact .inr ⟨hr.symm, hterminal, .inr ⟨hlt, hcap, rfl⟩⟩
    case isFalse hge =>
      have hfits : ¬ state.committed < old - amount := by omega
      simp only [Mut.read, Mut.modify, bind, Mut.bind, if_neg hfits] at h
      obtain ⟨hr, rfl⟩ := Prod.mk.inj h
      exact .inr ⟨hr.symm, hterminal, .inl ⟨by omega, rfl⟩⟩

theorem markTerminal_cases (h : markTerminal state = (r, next)) :
    Refused state next r ∨ r = .ok () ∧ state.reserved = 0 ∧ state.committed = 0 ∧
      next = { state with terminal := true } := by
  obtain ⟨fault, hr, hread, rfl⟩ | ⟨_, hzero, h⟩ := read_cases h
  · split at hread
    · cases hread
      exact .inl ⟨rfl, _, hr, by simp, by simp⟩
    · cases hread
  split at hzero
  · cases hzero
  case isFalse hzero =>
    obtain ⟨hr, rfl⟩ := Prod.mk.inj h
    exact .inr ⟨hr.symm, by omega, by omega, rfl⟩

end Outcomes

end LedgerState

/-! ## Handles and callers -/

/-- A handle that is alive. A reservation made inside of a call belongs to that call. -/
inductive LedgerHandle where
  | reservation (amount : Nat) (call : Option Nat)
  | lease (amount : Nat)

namespace LedgerHandle

def reservedAmount : LedgerHandle → Nat
  | reservation amount _ => amount
  | lease _ => 0

def leasedAmount : LedgerHandle → Nat
  | reservation _ _ => 0
  | lease amount => amount

end LedgerHandle

/-- The rest of a call that takes the lock more than once. -/
inductive LedgerCall where
  /-- `mint_child_heap` with its identity, before the reservation. -/
  | reserve (domain epoch reservedBytes : Nat)
  /-- The call has a reservation, and commits it next. -/
  | commit (identity : Option (Nat × Nat)) (token : Nat)

/-- A ledger with the handles that are alive, by their tokens, and the running calls. -/
structure RequestMemoryLedger where
  state : LedgerState
  handles : OrdMap Nat LedgerHandle := ∅
  calls : OrdMap Nat LedgerCall := ∅

inductive LedgerEvent where
  | reserve (amount : Nat)
  | commit (token : Nat)
  | abandon (token : Nat)
  | dropReservation (token : Nat)
  | mintHeapIdentity
  | mintChildHeap (call reservedBytes : Nat)
  | zeroLease (call : Nat)
  /-- The next section of a running call. -/
  | resume (call : Nat)
  | setCommittedLeaseAmount (token amount : Nat)
  | dropLease (token : Nat)
  | markTerminal

inductive LedgerResponse where
  | reservation (token : Nat)
  | lease (identity : Option (Nat × Nat)) (token : Nat)
  | identity (domain epoch : Nat)
  /-- The call goes on after this section, in which it may have minted an identity. -/
  | running (identity : Option (Nat × Nat))
  | done
  | failed (fault : LedgerFault)

/-- The domain minted in a section. -/
def LedgerResponse.domain : LedgerResponse → Option Nat
  | identity domain _ => some domain
  | running (some (domain, _)) => some domain
  | _ => none

namespace RequestMemoryLedger

def new (hardCap : Nat) : RequestMemoryLedger := { state := { hardCap := hardCap } }

/-- Run one section and answer with its result. -/
def locked {α : Type} (s : RequestMemoryLedger) (m : LedgerM α)
    (next : α → RequestMemoryLedger → LedgerResponse × RequestMemoryLedger) :
    LedgerResponse × RequestMemoryLedger :=
  match m s.state with
  | (.ok a, state) => next a { s with state := state }
  | (.error fault, state) => (.failed fault, { s with state := state })

section Handles

variable (s : RequestMemoryLedger)

def setHandle (token : Nat) (handle : LedgerHandle) : RequestMemoryLedger :=
  { s with handles := s.handles.insert token handle }

def dropHandle (token : Nat) : RequestMemoryLedger := { s with handles := s.handles.erase token }

def setCall (call : Nat) (rest : LedgerCall) : RequestMemoryLedger :=
  { s with calls := s.calls.insert call rest }

def endCall (call : Nat) : RequestMemoryLedger := { s with calls := s.calls.erase call }

/-- The amount of a reservation, for its holder. -/
def reservation? (token : Nat) (call : Option Nat) : Option Nat :=
  match s.handles.get? token with
  | some (.reservation amount holder) => if holder = call then some amount else none
  | _ => none

def lease? (token : Nat) : Option Nat :=
  match s.handles.get? token with
  | some (.lease amount) => some amount
  | _ => none

def reserving (call : Option Nat) (amount : Nat)
    (next : Nat → RequestMemoryLedger → LedgerResponse × RequestMemoryLedger) :
    LedgerResponse × RequestMemoryLedger :=
  s.locked (LedgerState.reserve amount) fun token reserved =>
    next token (reserved.setHandle token (.reservation amount call))

/-- A reservation becomes a lease. -/
def committing (identity : Option (Nat × Nat)) (token amount : Nat) :
    LedgerResponse × RequestMemoryLedger :=
  s.locked (LedgerState.commit amount) fun _ next =>
    (.lease identity token, next.setHandle token (.lease amount))

/-- A reservation is given back. -/
def abandoning (token amount : Nat) : LedgerResponse × RequestMemoryLedger :=
  s.locked (LedgerState.abandon amount) fun _ next => (.done, next.dropHandle token)

/-- One section, if the handles that it uses are alive. -/
def perform : LedgerEvent → Option (LedgerResponse × RequestMemoryLedger)
  | .reserve amount => some (s.reserving none amount fun token next => (.reservation token, next))
  | .commit token => (s.reservation? token none).map (s.committing none token)
  | .abandon token => (s.reservation? token none).map (s.abandoning token)
  | .dropReservation token => (s.reservation? token none).map (s.abandoning token)
  | .mintHeapIdentity =>
    some (s.locked LedgerState.mintHeapIdentity fun minted next =>
      (.identity minted.1 minted.2, next))
  | .mintChildHeap call reservedBytes =>
    if s.calls.contains call then none
    else some (s.locked LedgerState.mintHeapIdentity fun minted next =>
      (.running (some minted), next.setCall call (.reserve minted.1 minted.2 reservedBytes)))
  | .zeroLease call =>
    if s.calls.contains call then none
    else some (s.reserving (some call) 0 fun token next =>
      (.running none, next.setCall call (.commit none token)))
  | .resume call =>
    match s.calls.get? call with
    | none => none
    | some (.reserve domain epoch reservedBytes) =>
      some ((s.endCall call).reserving (some call) reservedBytes fun token next =>
        (.running none, next.setCall call (.commit (some (domain, epoch)) token)))
    | some (.commit identity token) =>
      (s.reservation? token (some call)).map ((s.endCall call).committing identity token)
  | .setCommittedLeaseAmount token amount =>
    (s.lease? token).map fun old =>
      s.locked (LedgerState.setCommittedLeaseAmount old amount) fun _ next =>
        (.done, next.setHandle token (.lease amount))
  | .dropLease token =>
    (s.lease? token).map fun amount =>
      s.locked (LedgerState.releaseLease amount) fun _ next => (.done, next.dropHandle token)
  | .markTerminal => some (s.locked LedgerState.markTerminal fun _ next => (.done, next))

end Handles

/-- A step with what was called and what it answered. -/
def Step (s : RequestMemoryLedger) (label : LedgerEvent × LedgerResponse)
    (t : RequestMemoryLedger) :
    Prop :=
  s.perform label.1 = some (label.2, t)

/-! ## Accounts -/

def reservedAmount (s : RequestMemoryLedger) : Nat :=
  s.handles.weight fun _ handle => handle.reservedAmount

def leasedAmount (s : RequestMemoryLedger) : Nat :=
  s.handles.weight fun _ handle => handle.leasedAmount

/-- The sums are those of the handles, within the hard cap and the peaks. -/
structure Balanced (cap : Nat) (s : RequestMemoryLedger) : Prop where
  hardCap : s.state.hardCap = cap
  reserved : s.state.reserved = s.reservedAmount
  committed : s.state.committed = s.leasedAmount
  bounded : s.state.reserved + s.state.committed ≤ cap
  peakReserved : s.state.reserved ≤ s.state.peakReserved
  peakCommitted : s.state.committed ≤ s.state.peakCommitted
  peakTotal : s.state.reserved + s.state.committed ≤ s.state.peakTotal
  started : 0 < s.state.nextToken
  fresh : ∀ token handle, s.handles.get? token = some handle → token < s.state.nextToken
  epoch : s.state.nextEpoch + 1 = s.state.nextDomain
  closed : s.state.terminal = true → s.state.reserved = 0 ∧ s.state.committed = 0

/-- The accounts and the handles are the same. -/
structure SameAccounts (s t : RequestMemoryLedger) : Prop where
  reserved : t.state.reserved = s.state.reserved
  committed : t.state.committed = s.state.committed
  peakReserved : t.state.peakReserved = s.state.peakReserved
  peakCommitted : t.state.peakCommitted = s.state.peakCommitted
  peakTotal : t.state.peakTotal = s.state.peakTotal
  handles : t.handles = s.handles

/-- What every section does, whoever runs it and however it ends. -/
structure Sound (cap : Nat) (s : RequestMemoryLedger) (event : LedgerEvent)
    (response : LedgerResponse) (t : RequestMemoryLedger) : Prop where
  balanced : Balanced cap t
  peakReserved : t.state.peakReserved = max s.state.peakReserved t.state.reserved
  peakCommitted : t.state.peakCommitted = max s.state.peakCommitted t.state.committed
  peakTotal : t.state.peakTotal = max s.state.peakTotal (t.state.reserved + t.state.committed)
  fault : ∀ fault, response = .failed fault →
    (∃ error, fault = .error error ∧ error.Regular) ∧ SameAccounts s t
  minted : match response.domain with
    | some domain =>
      domain = s.state.nextDomain ∧ t.state.nextDomain = domain + 1 ∧ domain ≤ u32Max ∧
      SameAccounts s t
    | none => t.state.nextDomain = s.state.nextDomain
  terminal : s.state.terminal = true ∨ event = .markTerminal ∧ response = .done →
    t.state.terminal = true

section Sound

variable {cap token amount : Nat} {s t : RequestMemoryLedger} {event : LedgerEvent}
variable {response : LedgerResponse}

/-- A refused section changes nothing. -/
theorem Balanced.refused {α : Type} {r : Except LedgerFault α} {next : LedgerState}
    {fault : LedgerFault} (hs : Balanced cap s) (hr : LedgerState.Refused s.state next r)
    (hfault : r = .error fault) :
    Sound cap s event (.failed fault) { s with state := next } := by
  obtain ⟨rfl, error, rfl, hregular⟩ := hr
  cases hfault
  refine ⟨hs, ?_, ?_, ?_, ?_, rfl, ?_⟩
  · exact (Nat.max_eq_left hs.peakReserved).symm
  · exact (Nat.max_eq_left hs.peakCommitted).symm
  · exact (Nat.max_eq_left hs.peakTotal).symm
  · intro fault heq
    cases heq
    exact ⟨⟨error, rfl, hregular⟩, rfl, rfl, rfl, rfl, rfl, rfl⟩
  rintro (hterminal | ⟨-, hdone⟩)
  · exact hterminal
  · cases hdone

/-! Calls are not accounted. -/

theorem Balanced.calls (hs : Balanced cap s) (calls : OrdMap Nat LedgerCall) :
    Balanced cap { s with calls := calls } :=
  ⟨hs.hardCap, hs.reserved, hs.committed, hs.bounded, hs.peakReserved, hs.peakCommitted,
    hs.peakTotal,
    hs.started, hs.fresh, hs.epoch, hs.closed⟩

theorem SameAccounts.calls (h : SameAccounts s t) (before after : OrdMap Nat LedgerCall) :
    SameAccounts { s with calls := before } { t with calls := after } :=
  ⟨h.1, h.2, h.3, h.4, h.5, h.6⟩

theorem Sound.calls (before after : OrdMap Nat LedgerCall)
    (h : Sound cap { s with calls := before } event response t) :
    Sound cap s event response { t with calls := after } := by
  refine ⟨h.balanced.calls after, h.peakReserved, h.peakCommitted, h.peakTotal,
    fun fault heq => (h.fault fault heq).imp_right (·.calls s.calls after), ?_, h.terminal⟩
  have hminted := h.minted
  split at hminted
  · obtain ⟨hdomain, hnext, hmax, hsame⟩ := hminted
    exact ⟨hdomain, hnext, hmax, hsame.calls s.calls after⟩
  · exact hminted

/-- A section is sound when its refusals are and what follows its success is. -/
theorem Balanced.locked {α : Type} {m : LedgerM α}
    {next : α → RequestMemoryLedger → LedgerResponse × RequestMemoryLedger} (hs : Balanced cap s)
    (hok : ∀ a state, m s.state = (.ok a, state) →
      Sound cap s event (next a { s with state := state }).1 (next a { s with state := state }).2)
    (herror : ∀ fault state, m s.state = (.error fault, state) →
      LedgerState.Refused s.state state (.error fault : Except LedgerFault α))
    (h : s.locked m next = (response, t)) : Sound cap s event response t := by
  unfold RequestMemoryLedger.locked at h
  split at h
  case h_1 a state hm =>
    have hsound := hok a state hm
    rw [h] at hsound
    exact hsound
  case h_2 fault state hm =>
    cases h
    exact hs.refused (herror fault state hm) rfl

/-- What a section says when it moved amounts. -/
def LedgerResponse.Moves (event : LedgerEvent) (response : LedgerResponse) : Prop :=
  event ≠ .markTerminal ∧ response.domain = none ∧ ∀ fault, response ≠ .failed fault

theorem Sound.moved (hmoves : LedgerResponse.Moves event response) (hbalanced : Balanced cap t)
    (hpeakReserved : t.state.peakReserved = max s.state.peakReserved t.state.reserved)
    (hpeakCommitted : t.state.peakCommitted = max s.state.peakCommitted t.state.committed)
    (hpeakTotal : t.state.peakTotal = max s.state.peakTotal (t.state.reserved + t.state.committed))
    (hdomain : t.state.nextDomain = s.state.nextDomain)
    (hterminal : t.state.terminal = s.state.terminal) : Sound cap s event response t := by
  obtain ⟨hevent, hnone, hfault⟩ := hmoves
  refine ⟨hbalanced, hpeakReserved, hpeakCommitted, hpeakTotal, fun fault heq =>
    absurd heq (hfault fault),
    ?_, ?_⟩
  · rw [hnone]
    exact hdomain
  rintro (hclosed | ⟨heq, -⟩)
  · rw [hterminal]
    exact hclosed
  · exact absurd heq hevent

/-- Tokens that are not given out yet have no handle. -/
theorem Balanced.unused (hs : Balanced cap s) : s.handles.get? s.state.nextToken = none := by
  cases hget : s.handles.get? s.state.nextToken with
  | none => rfl
  | some handle => exact absurd (hs.fresh _ handle hget) (Nat.lt_irrefl _)

/-- The handles when the one under a token becomes another, or goes. -/
def rehandle (handles : OrdMap Nat LedgerHandle) (token : Nat) :
    Option LedgerHandle → OrdMap Nat LedgerHandle
  | some handle => handles.insert token handle
  | none => handles.erase token

variable {old : Option LedgerHandle}

theorem weight_rehandle (f : LedgerHandle → Nat) {handles : OrdMap Nat LedgerHandle}
    (hget : handles.get? token = old) (new : Option LedgerHandle) :
    (rehandle handles token new).weight (fun _ handle => f handle) +
        old.elim 0 (fun handle => f handle) =
      handles.weight (fun _ handle => f handle) + new.elim 0 fun handle => f handle := by
  rw [← hget]
  cases new with
  | some handle => exact handles.weight_insert (fun _ => f) token handle
  | none => exact handles.weight_erase (fun _ => f) token

theorem Balanced.fresh_rehandle (hs : Balanced cap s) {new : Option LedgerHandle} {bound : Nat}
    (htoken : token < bound) (hbound : s.state.nextToken ≤ bound) :
    ∀ token' handle', (rehandle s.handles token new).get? token' = some handle' →
      token' < bound := by
  intro token' handle' hget
  by_cases heq : token' = token
  · exact heq ▸ htoken
  apply Nat.lt_of_lt_of_le (hs.fresh token' handle' _) hbound
  cases new with
  | some handle => rwa [rehandle, OrdMap.get?_insert_of_ne _ _ heq] at hget
  | none => rwa [rehandle, OrdMap.get?_erase_of_ne _ heq] at hget

/-- A section that books the share of one handle anew, and raises the peaks to the sums. -/
theorem Balanced.rebooked (hs : Balanced cap s) (hmoves : LedgerResponse.Moves event response)
    {state : LedgerState} (hget : s.handles.get? token = old) (new : Option LedgerHandle)
    (hreserved : state.reserved + old.elim 0 (·.reservedAmount) =
      s.state.reserved + new.elim 0 (·.reservedAmount))
    (hcommitted : state.committed + old.elim 0 (·.leasedAmount) =
      s.state.committed + new.elim 0 (·.leasedAmount))
    (hfits : state.reserved + state.committed ≤ cap)
    (hpeaks : state.peakReserved = max s.state.peakReserved state.reserved ∧
      state.peakCommitted = max s.state.peakCommitted state.committed ∧
      state.peakTotal = max s.state.peakTotal (state.reserved + state.committed))
    (htoken : token < state.nextToken ∧ s.state.nextToken ≤ state.nextToken)
    (hkept : state.hardCap = s.state.hardCap ∧ state.nextDomain = s.state.nextDomain ∧
      state.nextEpoch = s.state.nextEpoch ∧ state.terminal = s.state.terminal)
    (hclosed : s.state.terminal = true →
      state.reserved + state.committed ≤ s.state.reserved + s.state.committed) :
    Sound cap s event response
      { s with state := state, handles := rehandle s.handles token new } := by
  obtain ⟨hpeakReserved, hpeakCommitted, hpeakTotal⟩ := hpeaks
  obtain ⟨hcap, hdomain, hepoch, hterminal⟩ := hkept
  have hweightR := weight_rehandle LedgerHandle.reservedAmount hget new
  have hweightL := weight_rehandle LedgerHandle.leasedAmount hget new
  have hsumR := hs.reserved
  have hsumL := hs.committed
  rw [reservedAmount] at hsumR
  rw [leasedAmount] at hsumL
  refine .moved hmoves ⟨hcap.trans hs.hardCap, ?_, ?_, hfits, ?_, ?_, ?_,
    Nat.zero_lt_of_lt htoken.1, hs.fresh_rehandle htoken.1 htoken.2, ?_, ?_⟩ hpeakReserved
      hpeakCommitted hpeakTotal hdomain
    hterminal
  · rw [reservedAmount]
    dsimp only
    omega
  · rw [leasedAmount]
    dsimp only
    omega
  · exact hpeakReserved ▸ Nat.le_max_right _ _
  · exact hpeakCommitted ▸ Nat.le_max_right _ _
  · exact hpeakTotal ▸ Nat.le_max_right _ _
  · dsimp only
    rw [hepoch, hdomain]
    exact hs.epoch
  intro hclosing
  have hzero := hs.closed (hterminal.symm.trans hclosing)
  have hle := hclosed (hterminal.symm.trans hclosing)
  dsimp only
  omega

theorem Balanced.reserve {state : LedgerState} (hs : Balanced cap s)
    (h : LedgerState.reserve amount s.state = (.ok token, state))
    (hmoves : LedgerResponse.Moves event response) (call : Option Nat) :
    Sound cap s event response
      (setHandle { s with state := state } token (.reservation amount call)) := by
  obtain ⟨-, error, herror, -⟩ | ⟨hok, hopen, hcap, rfl⟩ := LedgerState.reserve_cases hs.started h
  · cases herror
  cases hok
  have hhard := hs.hardCap
  have hcomm := Nat.add_right_comm s.state.reserved s.state.committed amount
  refine hs.rebooked hmoves hs.unused (some (.reservation amount call)) rfl rfl ?_
    ⟨rfl, (Nat.max_eq_left hs.peakCommitted).symm, congrArg (max _) hcomm⟩
    ⟨Nat.lt_succ_self _, Nat.le_succ _⟩ ⟨rfl, rfl, rfl, rfl⟩ ?_
  · dsimp only
    omega
  intro hterminal
  rw [hopen] at hterminal
  cases hterminal

variable {call : Option Nat}

section

variable (hs : Balanced cap s)
include hs

theorem Balanced.reserving {next : Nat → RequestMemoryLedger → LedgerResponse × RequestMemoryLedger}
    (hnext : ∀ token reserved, LedgerResponse.Moves event (next token reserved).1 ∧
      ∃ calls, (next token reserved).2 = { reserved with calls := calls })
    (h : s.reserving call amount next = (response, t)) : Sound cap s event response t := by
  refine hs.locked (fun token state hreserve => ?_) (fun fault state hreserve => ?_) h
  · obtain ⟨hmoves, calls, hcalls⟩ := hnext token
      (setHandle { s with state := state } token (.reservation amount call))
    rw [hcalls]
    exact .calls s.calls calls (hs.reserve hreserve hmoves call)
  obtain hrefused | ⟨hok, -⟩ := LedgerState.reserve_cases hs.started hreserve
  · exact hrefused
  · cases hok

/-- The shares of one handle in the sums. -/
theorem Balanced.le_reserved (hget : s.handles.get? token = some (.reservation amount call)) :
    amount ≤ s.state.reserved := by
  have hweight := weight_rehandle LedgerHandle.reservedAmount hget none
  rw [hs.reserved, reservedAmount]
  exact (Nat.le_add_left _ _).trans_eq hweight

theorem Balanced.le_committed
    (hget : s.handles.get? token = some (.lease amount)) : amount ≤ s.state.committed := by
  have hweight := weight_rehandle LedgerHandle.leasedAmount hget none
  rw [hs.committed, leasedAmount]
  exact (Nat.le_add_left _ _).trans_eq hweight

theorem Balanced.committing (hcap : cap ≤ u64Max)
    {identity : Option (Nat × Nat)} (hmoves : LedgerResponse.Moves event (.lease identity token))
    (hget : s.handles.get? token = some (.reservation amount call))
    (h : s.committing identity token amount = (response, t)) : Sound cap s event response t := by
  have hle := hs.le_reserved hget
  have hfits := hs.bounded
  have heq := LedgerState.commit_eq hle (hfits.trans hcap)
  refine hs.locked (fun _ state hcommit => ?_) (fun fault state hcommit => ?_) h
  · rw [heq] at hcommit
    cases hcommit
    have hbooked : s.state.reserved - amount + (s.state.committed + amount) =
        s.state.reserved + s.state.committed := by omega
    refine hs.rebooked hmoves hget (some (.lease amount)) (Nat.sub_add_cancel hle) rfl
      (hbooked.trans_le hfits) ⟨?_, rfl, congrArg (max _) hbooked.symm⟩
      ⟨hs.fresh token _ hget, le_refl _⟩ ⟨rfl, rfl, rfl, rfl⟩ fun _ => hbooked.le
    exact (Nat.max_eq_left ((Nat.sub_le _ _).trans hs.peakReserved)).symm
  rw [heq] at hcommit
  cases hcommit

theorem Balanced.abandoning (hmoves : LedgerResponse.Moves event .done)
    (hget : s.handles.get? token = some (.reservation amount call))
    (h : s.abandoning token amount = (response, t)) : Sound cap s event response t := by
  have hle := hs.le_reserved hget
  have heq := LedgerState.abandon_eq hle
  refine hs.locked (fun _ state habandon => ?_) (fun fault state habandon => ?_) h
  · rw [heq] at habandon
    cases habandon
    have hless : s.state.reserved - amount + s.state.committed ≤
        s.state.reserved + s.state.committed := by omega
    exact hs.rebooked hmoves hget none (Nat.sub_add_cancel hle) rfl
      (hless.trans hs.bounded)
      ⟨(Nat.max_eq_left ((Nat.sub_le _ _).trans hs.peakReserved)).symm,
        (Nat.max_eq_left hs.peakCommitted).symm, (Nat.max_eq_left (hless.trans hs.peakTotal)).symm⟩
      ⟨hs.fresh token _ hget, le_refl _⟩ ⟨rfl, rfl, rfl, rfl⟩ fun _ => hless
  rw [heq] at habandon
  cases habandon

theorem Balanced.releasing (hmoves : LedgerResponse.Moves event .done)
    (hget : s.handles.get? token = some (.lease amount))
    (h : s.locked (LedgerState.releaseLease amount) (fun _ next => (.done, next.dropHandle token)) =
      (response, t)) : Sound cap s event response t := by
  have hle := hs.le_committed hget
  have heq := LedgerState.releaseLease_eq hle
  refine hs.locked (fun _ state hrelease => ?_) (fun fault state hrelease => ?_) h
  · rw [heq] at hrelease
    cases hrelease
    have hless : s.state.reserved + (s.state.committed - amount) ≤
        s.state.reserved + s.state.committed := by omega
    exact hs.rebooked hmoves hget none rfl (Nat.sub_add_cancel hle)
      (hless.trans hs.bounded)
      ⟨(Nat.max_eq_left hs.peakReserved).symm,
        (Nat.max_eq_left ((Nat.sub_le _ _).trans hs.peakCommitted)).symm,
        (Nat.max_eq_left (hless.trans hs.peakTotal)).symm⟩
      ⟨hs.fresh token _ hget, le_refl _⟩ ⟨rfl, rfl, rfl, rfl⟩ fun _ => hless
  rw [heq] at hrelease
  cases hrelease

theorem Balanced.resizing {old : Nat} (hmoves : LedgerResponse.Moves event .done)
    (hget : s.handles.get? token = some (.lease old))
    (h : s.locked (LedgerState.setCommittedLeaseAmount old amount)
      (fun _ next => (.done, next.setHandle token (.lease amount))) = (response, t)) :
    Sound cap s event response t := by
  have hle := hs.le_committed hget
  refine hs.locked (fun _ state hset => ?_) (fun fault state hset => ?_) h
  · obtain ⟨-, error, herror, -⟩ | ⟨-, hopen, hnext⟩ :=
      LedgerState.setCommittedLeaseAmount_cases hle hset
    · cases herror
    have hclosed : s.state.terminal ≠ true := by simp [hopen]
    have hhard := hs.hardCap
    obtain ⟨hless, rfl⟩ | ⟨hmore, hcap, rfl⟩ := hnext
    · have hfewer : s.state.reserved + (s.state.committed - (old - amount)) ≤
          s.state.reserved + s.state.committed := by omega
      refine hs.rebooked hmoves hget (some (.lease amount)) rfl ?_
        (hfewer.trans hs.bounded)
        ⟨(Nat.max_eq_left hs.peakReserved).symm,
          (Nat.max_eq_left ((Nat.sub_le _ _).trans hs.peakCommitted)).symm,
          (Nat.max_eq_left (hfewer.trans hs.peakTotal)).symm⟩
        ⟨hs.fresh token _ hget, le_refl _⟩ ⟨rfl, rfl, rfl, rfl⟩ fun h => absurd h hclosed
      show s.state.committed - (old - amount) + old = s.state.committed + amount
      omega
    have hassoc := Nat.add_assoc s.state.reserved s.state.committed (amount - old)
    refine hs.rebooked hmoves hget (some (.lease amount)) rfl ?_ ?_
      ⟨(Nat.max_eq_left hs.peakReserved).symm, rfl, congrArg (max _) hassoc⟩
      ⟨hs.fresh token _ hget, le_refl _⟩ ⟨rfl, rfl, rfl, rfl⟩ fun h => absurd h hclosed
    · show s.state.committed + (amount - old) + old = s.state.committed + amount
      omega
    dsimp only
    omega
  obtain hrefused | ⟨hok, -⟩ := LedgerState.setCommittedLeaseAmount_cases hle hset
  · exact hrefused
  · cases hok

theorem Balanced.minting
    {next : Nat × Nat → RequestMemoryLedger → LedgerResponse × RequestMemoryLedger}
    (hnext : ∀ minted after, ((next minted after).1.domain = some minted.1 ∧
        ∀ fault, (next minted after).1 ≠ .failed fault) ∧
      ∃ calls, (next minted after).2 = { after with calls := calls })
    (hevent : event ≠ .markTerminal)
    (h : s.locked LedgerState.mintHeapIdentity next = (response, t)) :
    Sound cap s event response t := by
  refine hs.locked (fun minted state hmint => ?_) (fun fault state hmint => ?_) h
  · obtain ⟨-, error, herror, -⟩ | ⟨hok, hmax, rfl⟩ :=
      LedgerState.mintHeapIdentity_cases hs.epoch hmint
    · cases herror
    cases hok
    obtain ⟨⟨hdomain, hfault⟩, calls, hcalls⟩ := hnext (s.state.nextDomain, s.state.nextEpoch)
      { s with state := { s.state with
        nextDomain := s.state.nextDomain + 1
        nextEpoch := s.state.nextEpoch + 1 } }
    rw [hcalls]
    refine .calls s.calls calls (t := { s with state := { s.state with
        nextDomain := s.state.nextDomain + 1
        nextEpoch := s.state.nextEpoch + 1 } }) ⟨?_, ?_, ?_, ?_, ?_, ?_, ?_⟩
    · exact ⟨hs.hardCap, hs.reserved, hs.committed, hs.bounded, hs.peakReserved, hs.peakCommitted,
        hs.peakTotal, hs.started, hs.fresh, congrArg (· + 1) hs.epoch, hs.closed⟩
    · exact (Nat.max_eq_left hs.peakReserved).symm
    · exact (Nat.max_eq_left hs.peakCommitted).symm
    · exact (Nat.max_eq_left hs.peakTotal).symm
    · exact fun fault heq => absurd heq (hfault fault)
    · rw [hdomain]
      exact ⟨rfl, rfl, hmax, rfl, rfl, rfl, rfl, rfl, rfl⟩
    rintro (hterminal | ⟨heq, -⟩)
    · exact hterminal
    · exact absurd heq hevent
  obtain hrefused | ⟨hok, -⟩ := LedgerState.mintHeapIdentity_cases hs.epoch hmint
  · exact hrefused
  · cases hok

theorem Balanced.closing
    (h : s.locked LedgerState.markTerminal (fun _ next => (.done, next)) = (response, t)) :
    Sound cap s event response t := by
  refine hs.locked (fun _ state hmark => ?_) (fun fault state hmark => ?_) h
  · obtain ⟨-, error, herror, -⟩ | ⟨-, hreserved, hcommitted, rfl⟩ :=
      LedgerState.markTerminal_cases hmark
    · cases herror
    refine ⟨⟨hs.hardCap, hs.reserved, hs.committed, hs.bounded, hs.peakReserved, hs.peakCommitted,
      hs.peakTotal, hs.started, hs.fresh, hs.epoch, fun _ => ⟨hreserved, hcommitted⟩⟩, ?_, ?_, ?_,
        ?_, rfl, fun _ => rfl⟩
    · exact (Nat.max_eq_left hs.peakReserved).symm
    · exact (Nat.max_eq_left hs.peakCommitted).symm
    · exact (Nat.max_eq_left hs.peakTotal).symm
    intro fault heq
    cases heq
  obtain hrefused | ⟨hok, -⟩ := LedgerState.markTerminal_cases hmark
  · exact hrefused
  · cases hok

end

theorem reservation?_eq_some (h : s.reservation? token call = some amount) :
    s.handles.get? token = some (.reservation amount call) := by
  unfold reservation? at h
  split at h
  case h_1 amount' holder hget =>
    split at h
    case isTrue heq =>
      cases h
      rw [hget, heq]
    case isFalse => cases h
  case h_2 => cases h

theorem lease?_eq_some (h : s.lease? token = some amount) :
    s.handles.get? token = some (.lease amount) := by
  unfold lease? at h
  split at h
  case h_1 amount' hget =>
    cases h
    exact hget
  case h_2 => cases h

/-- Every section of every call is sound. -/
theorem Balanced.step (hs : Balanced cap s) (hcap : cap ≤ u64Max) (h : s.Step (event, response) t) :
    Sound cap s event response t := by
  unfold Step at h
  cases event with
  | reserve amount =>
    refine hs.reserving (fun token reserved => ⟨⟨by simp, rfl, by simp⟩, ?_⟩) (some.inj h)
    exact ⟨reserved.calls, rfl⟩
  | commit token =>
    obtain ⟨amount, hget, h⟩ := map_eq_some_iff.mp h
    exact hs.committing hcap ⟨by simp, rfl, by simp⟩ (reservation?_eq_some hget) h
  | abandon token | dropReservation token =>
    obtain ⟨amount, hget, h⟩ := map_eq_some_iff.mp h
    exact hs.abandoning ⟨by simp, rfl, by simp⟩ (reservation?_eq_some hget) h
  | mintHeapIdentity =>
    refine hs.minting (fun minted after => ⟨⟨rfl, by simp⟩, after.calls, rfl⟩) (by simp)
      (some.inj h)
  | mintChildHeap call reservedBytes =>
    simp only [perform] at h
    split at h
    · cases h
    refine hs.minting (fun minted after => ⟨⟨rfl, by simp⟩, ?_⟩) (by simp) (some.inj h)
    exact ⟨after.calls.insert call (.reserve minted.1 minted.2 reservedBytes), rfl⟩
  | zeroLease call =>
    simp only [perform] at h
    split at h
    · cases h
    refine hs.reserving (fun token reserved => ⟨⟨by simp, rfl, by simp⟩, ?_⟩) (some.inj h)
    exact ⟨reserved.calls.insert call (.commit none token), rfl⟩
  | resume call =>
    simp only [perform] at h
    split at h
    · cases h
    case h_2 domain epoch reservedBytes hcall =>
      refine .calls _ t.calls ((hs.calls (s.calls.erase call)).reserving
        (fun token reserved => ⟨⟨by simp, rfl, by simp⟩, ?_⟩) (some.inj h))
      exact ⟨reserved.calls.insert call (.commit (some (domain, epoch)) token), rfl⟩
    case h_3 identity token hcall =>
      obtain ⟨amount, hget, h⟩ := map_eq_some_iff.mp h
      exact .calls _ t.calls
        ((hs.calls (s.calls.erase call)).committing hcap ⟨by simp, rfl, by simp⟩
        (reservation?_eq_some hget) h)
  | setCommittedLeaseAmount token amount =>
    obtain ⟨old, hget, h⟩ := map_eq_some_iff.mp h
    exact hs.resizing ⟨by simp, rfl, by simp⟩ (lease?_eq_some hget) h
  | dropLease token =>
    obtain ⟨amount, hget, h⟩ := map_eq_some_iff.mp h
    exact hs.releasing ⟨by simp, rfl, by simp⟩ (lease?_eq_some hget) h
  | markTerminal => exact hs.closing (some.inj h)

theorem balanced_new (cap : Nat) : Balanced cap (new cap) := by
  refine ⟨rfl, rfl, rfl, Nat.zero_le cap, Nat.le_refl 0, Nat.le_refl 0, Nat.le_refl 0, Nat.one_pos,
    ?_, rfl, ?_⟩
  · intro token handle hget
    cases hget
  intro hterminal
  cases hterminal

variable {labels : List (LedgerEvent × LedgerResponse)}

section

variable (hcap : cap ≤ u64Max) (h : Run Step (new cap) labels s)
include hcap h

theorem balanced_of_run : Balanced cap s :=
  invariant (P := Balanced cap) (fun hs hstep => (hs.step hcap hstep).balanced) h (balanced_new cap)

theorem minted_of_run :
    (labels.filterMap fun label => label.2.domain).Nodup ∧
      ∀ domain ∈ labels.filterMap fun label => label.2.domain, domain < s.state.nextDomain := by
  refine history (P := fun labels s => (labels.filterMap fun label => label.2.domain).Nodup ∧
    ∀ domain ∈ labels.filterMap fun label => label.2.domain, domain < s.state.nextDomain)
      (by simp) ?_ h
  intro labels s label t hrun hminted hstep
  obtain ⟨event, response⟩ := label
  have hnext := ((balanced_of_run hcap hrun).step hcap hstep).minted
  rw [filterMap_append]
  cases hdomain : response.domain with
  | none =>
    rw [hdomain] at hnext
    simp only [filterMap_cons, hdomain, filterMap_nil, append_nil]
    rw [hnext]
    exact hminted
  | some domain =>
    rw [hdomain] at hnext
    obtain ⟨rfl, hnext, -⟩ := hnext
    simp only [filterMap_cons, hdomain, filterMap_nil, hnext]
    constructor
    · refine nodup_append.mpr ⟨hminted.1, by simp, fun old hold new hnew heq => ?_⟩
      rw [heq, mem_singleton.mp hnew] at hold
      exact Nat.lt_irrefl _ (hminted.2 _ hold)
    intro domain hmem
    obtain hold | hnew := mem_append.mp hmem
    · exact Nat.lt_succ_of_lt (hminted.2 domain hold)
    rw [mem_singleton.mp hnew]
    exact Nat.lt_succ_self _

theorem terminal_of_run (hmarked : (.markTerminal, .done) ∈ labels) : s.state.terminal = true := by
  revert hmarked
  refine history (P := fun labels s => (LedgerEvent.markTerminal, LedgerResponse.done) ∈ labels →
    s.state.terminal = true) (by simp) ?_ h
  intro labels s label t hrun hterminal hstep hmarked
  have hkept := ((balanced_of_run hcap hrun).step hcap hstep).terminal
  obtain hearlier | hlast := mem_append.mp hmarked
  · exact hkept (.inl (hterminal hearlier))
  obtain rfl := mem_singleton.mp hlast
  exact hkept (.inr ⟨rfl, rfl⟩)

theorem faults_of_run :
    ∀ label ∈ labels, ∀ fault, label.2 = .failed fault → ∃ error, fault = .error error ∧
    error.Regular := by
  refine history (P := fun labels _ => ∀ label ∈ labels, ∀ fault, label.2 = .failed fault →
    ∃ error, fault = .error error ∧ error.Regular) (by simp) ?_ h
  intro labels s last t hrun hfaults hstep label hmem fault hfault
  obtain hearlier | hlast := mem_append.mp hmem
  · exact hfaults label hearlier fault hfault
  obtain rfl := mem_singleton.mp hlast
  exact (((balanced_of_run hcap hrun).step hcap hstep).fault fault hfault).1

end

theorem step_functional : Functional Step := by
  intro s label t t' h h'
  rw [Step, h] at h'
  exact congrArg Prod.snd (some.inj h')

/-- In every run, under any interleaving of the sections, the sums are those of the handles
that are alive and stay within the cap, the peaks are the greatest values so far, nothing
panics or underflows, domains differ, errors leave the accounts alone, and a terminal
ledger stays empty. -/
theorem accounts_exact {cap : Nat} (hcap : cap ≤ u64Max)
    {t : RequestMemoryLedger} (h : Run Step (new cap) labels t) :
    t.state.reserved = t.reservedAmount ∧ t.state.committed = t.leasedAmount ∧
    t.state.reserved + t.state.committed ≤ cap ∧
    IsGreatest ((fun u => u.state.reserved) '' visited Step (new cap) labels) t.state.peakReserved ∧
    IsGreatest ((fun u => u.state.committed) '' visited Step (new cap) labels)
      t.state.peakCommitted ∧
    IsGreatest ((fun u => u.state.reserved + u.state.committed) '' visited Step (new cap) labels)
      t.state.peakTotal ∧
    (∀ label ∈ labels, ∀ fault, label.2 = .failed fault →
      ∃ error, fault = .error error ∧ error.Regular) ∧
    (labels.filterMap fun label => label.2.domain).Nodup ∧
    (∀ event response u, t.Step (event, response) u →
      (∃ error, response = .failed (.error error)) ∨ response.domain ≠ none → SameAccounts t u) ∧
    ((.markTerminal, .done) ∈ labels → t.state.reserved = 0 ∧ t.state.committed = 0) := by
  have hbalanced := balanced_of_run hcap h
  have hstep : ∀ {labels s label t}, Run Step (new cap) labels s → s.Step label t →
      Sound cap s label.1 label.2 t :=
    fun hrun hstep => (balanced_of_run hcap hrun).step hcap hstep
  refine ⟨hbalanced.reserved, hbalanced.committed, hbalanced.bounded, ?_, ?_, ?_,
    faults_of_run hcap h,
    (minted_of_run hcap h).1, ?_, fun hmarked => hbalanced.closed (terminal_of_run hcap h hmarked)⟩
  · exact isGreatest (fun u => u.state.reserved) (fun u => u.state.peakReserved) step_functional rfl
      (fun hrun hs => (hstep hrun hs).peakReserved) h
  · exact isGreatest (fun u => u.state.committed)
      (fun u => u.state.peakCommitted) step_functional rfl
      (fun hrun hs => (hstep hrun hs).peakCommitted) h
  · exact isGreatest (fun u => u.state.reserved + u.state.committed)
      (fun u => u.state.peakTotal) step_functional rfl
      (fun hrun hs => (hstep hrun hs).peakTotal) h
  rintro event response u hs (⟨error, hfailed⟩ | hdomain)
  · exact ((hbalanced.step hcap hs).fault _ hfailed).2
  · have hminted := (hbalanced.step hcap hs).minted
    obtain ⟨domain, hsome⟩ := ne_none_iff_exists'.mp hdomain
    rw [hsome] at hminted
    exact hminted.2.2.2

/-- A child heap is minted while another caller reserves in between and then gives its
reservation back; the lease of the child is dropped and the ledger closed. -/
theorem accounts_exact_child : ∃ t : RequestMemoryLedger, t.state.terminal = true ∧
    t.state.peakTotal = 7 ∧ t.state.reserved = t.reservedAmount := by
  have hrun : Run Step (new 8)
      [(.mintChildHeap 0 4, .running (some (1, 0))), (.reserve 3, .reservation 1),
        (.resume 0, .running none), (.resume 0, .lease (some (1, 0)) 2), (.abandon 1, .done),
        (.dropLease 2, .done), (.markTerminal, .done)]
      { new 8 with state := { (new 8).state with
        peakReserved := 7, peakCommitted := 4, peakTotal := 7, terminal := true
        nextToken := 3, nextDomain := 2, nextEpoch := 1 } } :=
    .cons rfl (.cons rfl (.cons rfl (.cons rfl (.cons rfl (.cons rfl (.cons rfl (.nil _)))))))
  exact ⟨_, rfl, rfl, (accounts_exact (by decide) hrun).1⟩

end Sound

end RequestMemoryLedger

end Skiff.Request
