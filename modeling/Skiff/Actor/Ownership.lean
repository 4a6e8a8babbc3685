import Mathlib.Data.Prod.Lex
import Mathlib.Data.String.Basic
import Skiff.Data.Mut
import Skiff.Data.OrdMap
import Skiff.Data.Run

/-!
# Actor ownership

`ActorOwnershipRegistry` of the router: for every actor key an incarnation, at most one
owner fence, at most one reservation and at most one eviction in progress. A reservation
turns into an owner only through its claim token.

Every operation either refuses, and then keeps the registry as it was, or replaces one
entry (`expire` visits all of them). `Moves` lists once what can happen to an entry, and
`Call.run_get?` says that every accepted call moves the entries so. The health counters
are left out.
-/

namespace Skiff.Actor

/-! ## Identities -/

structure ActorAbiIdentity where
  value : String
deriving DecidableEq

structure ActorImplementationIdentity where
  value : String
deriving DecidableEq

inductive ActorOwnerUnitFrameHeader where
  | service
  | package (index : Nat)
deriving DecidableEq

inductive ActorOwnerFileFrameHeader where
  | loadedFileIndex (index : Nat)
  | fileIrIdentity (identity : String)
deriving DecidableEq

structure ActorDeclarationOwnerFrameHeader where
  unit : ActorOwnerUnitFrameHeader
  file : ActorOwnerFileFrameHeader
  actorSymbol : String
deriving DecidableEq

structure ActorLogicalKey where
  serviceId : String
  actorTypeIdentity : String
  actorIdTypeIdentity : String
  actorIdEncodingVersion : String
  canonicalActorIdKeyBytesBase64 : String
  actorIdHash : String
deriving DecidableEq

namespace ActorLogicalKey

/-- The fields in the order in which the derived `Ord` compares them. -/
def fields (key : ActorLogicalKey) : String ×ₗ String ×ₗ String ×ₗ String ×ₗ String ×ₗ String :=
  toLex (key.serviceId, toLex (key.actorTypeIdentity, toLex (key.actorIdTypeIdentity,
    toLex (key.actorIdEncodingVersion, toLex (key.canonicalActorIdKeyBytesBase64,
      key.actorIdHash)))))

theorem fields_injective : Function.Injective fields := by
  rintro ⟨a, b, c, d, e, f⟩ ⟨a', b', c', d', e', f'⟩ h
  cases h
  rfl

instance : LinearOrder ActorLogicalKey := LinearOrder.lift' fields fields_injective

end ActorLogicalKey

structure ActorOwnerRouteAuthority where
  buildId : String
deriving DecidableEq

structure ActorClaimId where
  asStr : String
deriving DecidableEq

/-- `actor-claim-<seq>`. -/
def ActorClaimId.mint (seq : Nat) : ActorClaimId := ⟨"actor-claim-" ++ toString seq⟩

theorem ActorClaimId.mint_injective : Function.Injective ActorClaimId.mint := by
  intro m n h
  have hdigits : Nat.toDigits 10 m = Nat.toDigits 10 n := by
    have hlists := congrArg (fun claimId => claimId.asStr.toList) h
    simpa [mint, Nat.toString_eq_repr, Nat.toList_repr] using hlists
  calc
    m = Nat.ofDigitChars 10 (Nat.toDigits 10 m) 0 := Nat.ofDigitChars_ten_toDigits.symm
    _ = Nat.ofDigitChars 10 (Nat.toDigits 10 n) 0 := by rw [hdigits]
    _ = n := Nat.ofDigitChars_ten_toDigits

structure ActorClaimToken where
  claimId : ActorClaimId
  actorKey : ActorLogicalKey
  expectedEpoch : Nat
  ownerRuntimeId : String
  routeAuthority : ActorOwnerRouteAuthority
deriving DecidableEq

structure CommitFenceFacts where
  actorAbiIdentity : ActorAbiIdentity
  actorImplementationIdentity : ActorImplementationIdentity
  declarationOwner : ActorDeclarationOwnerFrameHeader
  ownerLeaseId : String

structure ActorOwnerFence where
  epoch : Nat
  ownerRuntimeId : String
  ownerLeaseId : String
  buildId : String
  leaseExpiresAt : Nat
  actorAbiIdentity : ActorAbiIdentity
  actorImplementationIdentity : ActorImplementationIdentity
  declarationOwner : ActorDeclarationOwnerFrameHeader
deriving DecidableEq

structure ExpiredOwner where
  actorKey : ActorLogicalKey
  fence : ActorOwnerFence

inductive OwnerReleaseReason where
  | disconnected
  | evicted
  | upgraded
  | shutdown

structure ActorEntryFacts where
  epoch : Nat

inductive OwnershipError where
  | notPresent
  | epochMismatch (currentEpoch : Nat)
  | claimConflict (currentFence : Option ActorOwnerFence)
  | reservationInFlight
  | noReservation
  | fenceMismatch
  | leaseExpired
  | evictionMismatch
  | fenceFactsMismatch

/-- `u64::saturating_add`. -/
def saturatingAdd (a b : Nat) : Nat := min (a + b) (2 ^ 64 - 1)

/-! ## One entry -/

structure ActorEntry where
  epoch : Nat
  actorAbiIdentity : ActorAbiIdentity
  actorImplementationIdentity : ActorImplementationIdentity
  declarationOwner : ActorDeclarationOwnerFrameHeader
  createInput : List UInt8
  owner : Option ActorOwnerFence
  evictionRequestId : Option String
  reservation : Option ActorClaimToken
deriving DecidableEq

def fenceIdentityMatches (current candidate : ActorOwnerFence) : Bool :=
  current.epoch = candidate.epoch
    && current.ownerRuntimeId = candidate.ownerRuntimeId
    && current.ownerLeaseId = candidate.ownerLeaseId
    && current.buildId = candidate.buildId
    && current.actorAbiIdentity = candidate.actorAbiIdentity
    && current.actorImplementationIdentity = candidate.actorImplementationIdentity
    && current.declarationOwner = candidate.declarationOwner

/-- Two fences are the same owner if they differ in their expiry at most. -/
def ActorOwnerFence.SameOwner (a b : ActorOwnerFence) : Prop :=
  a = { b with leaseExpiresAt := a.leaseExpiresAt }

theorem fenceIdentityMatches_iff {a b : ActorOwnerFence} :
    fenceIdentityMatches a b = true ↔ a.SameOwner b := by
  obtain ⟨⟩ := a
  obtain ⟨⟩ := b
  simp [fenceIdentityMatches, ActorOwnerFence.SameOwner, and_assoc]

namespace ActorOwnerFence.SameOwner

variable {a : ActorOwnerFence}

theorem refl (a : ActorOwnerFence) : a.SameOwner a := rfl

end ActorOwnerFence.SameOwner

namespace ActorEntry

variable (entry : ActorEntry)

def FactsMatch (facts : CommitFenceFacts) : Prop :=
  facts.actorAbiIdentity = entry.actorAbiIdentity ∧
    facts.actorImplementationIdentity = entry.actorImplementationIdentity ∧
    facts.declarationOwner = entry.declarationOwner

instance (facts : CommitFenceFacts) : Decidable (entry.FactsMatch facts) :=
  inferInstanceAs (Decidable (_ ∧ _ ∧ _))

/-- The fence that a commit installs. -/
def committedFence (token : ActorClaimToken) (facts : CommitFenceFacts) (now leaseTtlMs : Nat) :
    ActorOwnerFence where
  epoch := token.expectedEpoch
  ownerRuntimeId := token.ownerRuntimeId
  ownerLeaseId := facts.ownerLeaseId
  buildId := token.routeAuthority.buildId
  leaseExpiresAt := saturatingAdd now leaseTtlMs
  actorAbiIdentity := facts.actorAbiIdentity
  actorImplementationIdentity := facts.actorImplementationIdentity
  declarationOwner := facts.declarationOwner

def commit (token : ActorClaimToken) (facts : CommitFenceFacts) (now leaseTtlMs : Nat) :
    Except OwnershipError (ActorOwnerFence × ActorEntry) :=
  match entry.reservation with
  | none => .error .noReservation
  | some reserved =>
    if reserved ≠ token then .error .noReservation
    else if ¬ entry.FactsMatch facts then .error .fenceFactsMismatch
    else
      let fence := committedFence token facts now leaseTtlMs
      -- the eviction id stays as it is
      .ok (fence, { entry with reservation := none, owner := some fence })

def abort (token : ActorClaimToken) : Except OwnershipError (Unit × ActorEntry) :=
  match entry.reservation with
  | some reserved =>
    if reserved = token then .ok ((), { entry with reservation := none })
    else .error .noReservation
  | none => .error .noReservation

def renew (fence : ActorOwnerFence) (ttlMs now : Nat) :
    Except OwnershipError (ActorOwnerFence × ActorEntry) :=
  match entry.owner with
  | none => .error .fenceMismatch
  | some current =>
    if ¬ fenceIdentityMatches current fence then .error .fenceMismatch
    else if current.leaseExpiresAt ≤ now then .error .leaseExpired
    else
      let renewed := { current with leaseExpiresAt := saturatingAdd now ttlMs }
      .ok (renewed, { entry with owner := some renewed })

def release (fence : ActorOwnerFence) (_reason : OwnerReleaseReason) :
    Except OwnershipError (Unit × ActorEntry) :=
  match entry.owner with
  | none => .error .fenceMismatch
  | some current =>
    if ¬ fenceIdentityMatches current fence then .error .fenceMismatch
    else .ok ((), { entry with owner := none, evictionRequestId := none })

/-- The fence that `expire` takes from this entry: an owner under eviction is kept. -/
def expiredFence (now : Nat) : Option ActorOwnerFence :=
  match entry.owner with
  | none => none
  | some fence =>
    if entry.evictionRequestId.isSome then none
    else if fence.leaseExpiresAt ≤ now then some fence
    else none

def expire (now : Nat) : ActorEntry :=
  match entry.expiredFence now with
  | none => entry
  | some _ => { entry with owner := none, evictionRequestId := none }

def requestEviction (evictionRequestId : String) : Except OwnershipError (Unit × ActorEntry) :=
  if entry.owner.isNone then .error .fenceMismatch
  else .ok ((), { entry with evictionRequestId := some evictionRequestId })

def acknowledgeEviction (evictionRequestId : String) : Except OwnershipError (Unit × ActorEntry) :=
  if entry.owner.isNone ∨ entry.evictionRequestId ≠ some evictionRequestId then
    .error .evictionMismatch
  else .ok ((), { entry with owner := none, evictionRequestId := none })

def advanceIncarnation : Except OwnershipError (Nat × ActorEntry) :=
  .ok (entry.epoch + 1,
    { entry with epoch := entry.epoch + 1, owner := none, evictionRequestId := none,
                 reservation := none })

end ActorEntry

/-! ## The registry -/

structure ActorOwnershipRegistry where
  entries : OrdMap ActorLogicalKey ActorEntry
  nextClaimSeq : Nat

namespace ActorOwnershipRegistry

variable (registry : ActorOwnershipRegistry)

def new : ActorOwnershipRegistry where
  entries := ∅
  nextClaimSeq := 0

/-- Operate on a present entry and store what the operation makes of it. -/
def updateEntry {α : Type} (key : ActorLogicalKey)
    (operation : ActorEntry → Except OwnershipError (α × ActorEntry)) :
    Except OwnershipError (α × ActorOwnershipRegistry) :=
  match registry.entries.get? key with
  | none => .error .notPresent
  | some entry => do
    let (answer, entry) ← operation entry
    return (answer, { registry with entries := registry.entries.insert key entry })

def ensurePresent (key : ActorLogicalKey) (actorAbiIdentity : ActorAbiIdentity)
    (actorImplementationIdentity : ActorImplementationIdentity)
    (declarationOwner : ActorDeclarationOwnerFrameHeader) (createInput : List UInt8) :
    ActorEntryFacts × ActorOwnershipRegistry :=
  match registry.entries.get? key with
  | some entry => (⟨entry.epoch⟩, registry)
  | none =>
    let entry : ActorEntry :=
      { epoch := 1, actorAbiIdentity, actorImplementationIdentity, declarationOwner,
        createInput, owner := none, evictionRequestId := none, reservation := none }
    (⟨entry.epoch⟩, { registry with entries := registry.entries.insert key entry })

/-- The current owner whose lease has not run out. -/
def validOwner (key : ActorLogicalKey) (now : Nat) : Option ActorOwnerFence :=
  ((registry.entries.get? key).bind ActorEntry.owner).filter (now < ·.leaseExpiresAt)

def mintToken (key : ActorLogicalKey) (expectedEpoch : Nat) (ownerRuntimeId : String)
    (routeAuthority : ActorOwnerRouteAuthority) : ActorClaimToken where
  claimId := .mint registry.nextClaimSeq
  actorKey := key
  expectedEpoch := expectedEpoch
  ownerRuntimeId := ownerRuntimeId
  routeAuthority := routeAuthority

def reserve (key : ActorLogicalKey) (expectedEpoch : Nat) (ownerRuntimeId : String)
    (routeAuthority : ActorOwnerRouteAuthority) (now : Nat) :
    Except OwnershipError (ActorClaimToken × ActorOwnershipRegistry) :=
  let entry := registry.entries.get? key
  if (entry.bind ActorEntry.reservation).isSome then .error .reservationInFlight
  else if (entry.bind ActorEntry.evictionRequestId).isSome then
    .error (.claimConflict (entry.bind ActorEntry.owner))
  else
    match registry.validOwner key now with
    | some fence => .error (.claimConflict (some fence))
    | none =>
      match entry with
      | none => .error .notPresent
      | some present =>
        if expectedEpoch ≠ present.epoch then .error (.epochMismatch present.epoch)
        else
          let token := registry.mintToken key expectedEpoch ownerRuntimeId routeAuthority
          .ok (token,
            { entries := registry.entries.insert key { present with reservation := some token }
              nextClaimSeq := registry.nextClaimSeq + 1 })

def commit (token : ActorClaimToken) (facts : CommitFenceFacts) (now leaseTtlMs : Nat) :
    Except OwnershipError (ActorOwnerFence × ActorOwnershipRegistry) :=
  registry.updateEntry token.actorKey (·.commit token facts now leaseTtlMs)

def abort (token : ActorClaimToken) : Except OwnershipError (Unit × ActorOwnershipRegistry) :=
  registry.updateEntry token.actorKey (·.abort token)

def renew (key : ActorLogicalKey) (fence : ActorOwnerFence) (ttlMs now : Nat) :
    Except OwnershipError (ActorOwnerFence × ActorOwnershipRegistry) :=
  registry.updateEntry key (·.renew fence ttlMs now)

def release (key : ActorLogicalKey) (fence : ActorOwnerFence) (reason : OwnerReleaseReason) :
    Except OwnershipError (Unit × ActorOwnershipRegistry) :=
  registry.updateEntry key (·.release fence reason)

/-- Every entry is visited once, in key order. -/
def expire (now : Nat) : List ExpiredOwner × ActorOwnershipRegistry :=
  (registry.entries.entries.filterMap fun (key, entry) =>
      (entry.expiredFence now).map fun fence => ⟨key, fence⟩,
    { registry with entries := registry.entries.map (·.expire now) })

def requestEviction (key : ActorLogicalKey) (evictionRequestId : String) :
    Except OwnershipError (Unit × ActorOwnershipRegistry) :=
  registry.updateEntry key (·.requestEviction evictionRequestId)

def acknowledgeEviction (key : ActorLogicalKey) (evictionRequestId : String) :
    Except OwnershipError (Unit × ActorOwnershipRegistry) :=
  registry.updateEntry key (·.acknowledgeEviction evictionRequestId)

def advanceIncarnation (key : ActorLogicalKey) :
    Except OwnershipError (Nat × ActorOwnershipRegistry) :=
  registry.updateEntry key ActorEntry.advanceIncarnation

def currentOwner (key : ActorLogicalKey) : Option ActorOwnerFence :=
  (registry.entries.get? key).bind ActorEntry.owner

end ActorOwnershipRegistry

/-! ## Calls -/

/-- One call of a registry operation. -/
inductive Call where
  | ensurePresent (key : ActorLogicalKey) (actorAbiIdentity : ActorAbiIdentity)
      (actorImplementationIdentity : ActorImplementationIdentity)
      (declarationOwner : ActorDeclarationOwnerFrameHeader) (createInput : List UInt8)
  | reserve (key : ActorLogicalKey) (expectedEpoch : Nat) (ownerRuntimeId : String)
      (routeAuthority : ActorOwnerRouteAuthority) (now : Nat)
  | commit (token : ActorClaimToken) (facts : CommitFenceFacts) (now leaseTtlMs : Nat)
  | abort (token : ActorClaimToken)
  | renew (key : ActorLogicalKey) (fence : ActorOwnerFence) (ttlMs now : Nat)
  | release (key : ActorLogicalKey) (fence : ActorOwnerFence) (reason : OwnerReleaseReason)
  | expire (now : Nat)
  | requestEviction (key : ActorLogicalKey) (evictionRequestId : String)
  | acknowledgeEviction (key : ActorLogicalKey) (evictionRequestId : String)
  | advanceIncarnation (key : ActorLogicalKey)

/-- What a call returns when it is accepted. -/
inductive Reply where
  | facts (facts : ActorEntryFacts)
  | token (token : ActorClaimToken)
  | fence (fence : ActorOwnerFence)
  | done
  | expired (owners : List ExpiredOwner)
  | epoch (epoch : Nat)

namespace Call

open ActorOwnershipRegistry

def run (registry : ActorOwnershipRegistry) :
    Call → Except OwnershipError (Reply × ActorOwnershipRegistry)
  | ensurePresent key abi implementation owner createInput =>
    .ok ((registry.ensurePresent key abi implementation owner createInput).map .facts id)
  | reserve key epoch runtime authority now =>
    (registry.reserve key epoch runtime authority now).map (·.map .token id)
  | commit token facts now ttl => (registry.commit token facts now ttl).map (·.map .fence id)
  | abort token => (registry.abort token).map (·.map (fun _ => .done) id)
  | renew key fence ttl now => (registry.renew key fence ttl now).map (·.map .fence id)
  | release key fence reason => (registry.release key fence reason).map (·.map (fun _ => .done) id)
  | expire now => .ok ((registry.expire now).map .expired id)
  | requestEviction key request =>
    (registry.requestEviction key request).map (·.map (fun _ => .done) id)
  | acknowledgeEviction key request =>
    (registry.acknowledgeEviction key request).map (·.map (fun _ => .done) id)
  | advanceIncarnation key => (registry.advanceIncarnation key).map (·.map .epoch id)

/-- The registry after the call: a refused call leaves it alone. -/
def apply (call : Call) (registry : ActorOwnershipRegistry) : ActorOwnershipRegistry :=
  match call.run registry with
  | .ok (_, next) => next
  | .error _ => registry

def Accepted (call : Call) (registry : ActorOwnershipRegistry) : Prop :=
  ∃ reply next, call.run registry = .ok (reply, next)

/-- What an accepted call can do to the entry under `key`, where `seq` numbers the next claim. -/
inductive Moves (key : ActorLogicalKey) (seq : Nat) (entry : ActorEntry) : Call → ActorEntry → Prop
  | reserve {runtime authority now token} :
      entry.reservation = none → entry.evictionRequestId = none →
      (∀ fence, entry.owner = some fence → fence.leaseExpiresAt ≤ now) →
      token = { claimId := .mint seq, actorKey := key, expectedEpoch := entry.epoch,
                ownerRuntimeId := runtime, routeAuthority := authority } →
      Moves key seq entry (.reserve key entry.epoch runtime authority now)
        { entry with reservation := some token }
  | commit {token facts now ttl} :
      token.actorKey = key → entry.reservation = some token → entry.FactsMatch facts →
      Moves key seq entry (.commit token facts now ttl)
        { entry with reservation := none,
                     owner := some (ActorEntry.committedFence token facts now ttl) }
  | abort {token} :
      token.actorKey = key → entry.reservation = some token →
      Moves key seq entry (.abort token) { entry with reservation := none }
  | renew {current fence ttl now} :
      entry.owner = some current → current.SameOwner fence → now < current.leaseExpiresAt →
      Moves key seq entry (.renew key fence ttl now)
        { entry with owner := some { current with leaseExpiresAt := saturatingAdd now ttl } }
  | release {current fence reason} :
      entry.owner = some current → current.SameOwner fence →
      Moves key seq entry (.release key fence reason)
        { entry with owner := none, evictionRequestId := none }
  | expire {fence now} :
      entry.owner = some fence → entry.evictionRequestId = none → fence.leaseExpiresAt ≤ now →
      Moves key seq entry (.expire now) { entry with owner := none, evictionRequestId := none }
  | requestEviction {fence request} :
      entry.owner = some fence →
      Moves key seq entry (.requestEviction key request)
        { entry with evictionRequestId := some request }
  | acknowledgeEviction {fence request} :
      entry.owner = some fence → entry.evictionRequestId = some request →
      Moves key seq entry (.acknowledgeEviction key request)
        { entry with owner := none, evictionRequestId := none }
  | advanceIncarnation :
      Moves key seq entry (.advanceIncarnation key)
        { entry with epoch := entry.epoch + 1, owner := none, evictionRequestId := none,
                     reservation := none }

/-- The key whose entry an accepted call must find. -/
def target : Call → Option ActorLogicalKey
  | ensurePresent .. => none
  | reserve key .. => some key
  | commit token .. => some token.actorKey
  | abort token => some token.actorKey
  | renew key .. => some key
  | release key .. => some key
  | expire _ => none
  | requestEviction key _ => some key
  | acknowledgeEviction key _ => some key
  | advanceIncarnation key => some key

/-- How many claim numbers an accepted call uses up. -/
def mints : Call → Nat
  | reserve .. => 1
  | _ => 0

/-- The registry with one entry replaced. -/
def Replaces (registry next : ActorOwnershipRegistry) (call : Call) (key : ActorLogicalKey) :
    Prop :=
  ∃ entry entry', registry.entries.get? key = some entry ∧
    Moves key registry.nextClaimSeq entry call entry' ∧
    next = { entries := registry.entries.insert key entry'
             nextClaimSeq := registry.nextClaimSeq + call.mints }

variable {registry next : ActorOwnershipRegistry} {key : ActorLogicalKey} {call : Call}

theorem updateEntry_eq_ok {α : Type} {answer : α}
    {operation : ActorEntry → Except OwnershipError (α × ActorEntry)}
    (h : registry.updateEntry key operation = .ok (answer, next)) :
    ∃ entry entry', registry.entries.get? key = some entry ∧
      operation entry = .ok (answer, entry') ∧
      next = { registry with entries := registry.entries.insert key entry' } := by
  unfold updateEntry at h
  cases hget : registry.entries.get? key with
  | none => simp [hget] at h
  | some entry =>
    simp only [hget] at h
    obtain ⟨⟨answer', entry'⟩, hop, hpure⟩ := bind_eq_ok.mp h
    cases hpure
    exact ⟨entry, entry', rfl, hop, rfl⟩

variable {reply : Reply}

theorem map_map_eq_ok {α : Type} {result : Except OwnershipError (α × ActorOwnershipRegistry)}
    {f : α → Reply} (h : result.map (·.map f id) = .ok (reply, next)) :
    ∃ answer, result = .ok (answer, next) ∧ reply = f answer := by
  cases result with
  | error e => cases h
  | ok pair =>
    cases h
    exact ⟨pair.1, rfl, rfl⟩

/-- An operation on one entry replaces it by what the operation makes of it. -/
theorem replaces_of_updateEntry {α : Type} {f : α → Reply}
    {operation : ActorEntry → Except OwnershipError (α × ActorEntry)}
    (hmoves : ∀ {entry answer entry'}, operation entry = .ok (answer, entry') →
      Moves key registry.nextClaimSeq entry call entry') (hmints : call.mints = 0)
    (h : (registry.updateEntry key operation).map (·.map f id) = .ok (reply, next)) :
    Replaces registry next call key := by
  obtain ⟨answer, hupdate, -⟩ := map_map_eq_ok h
  obtain ⟨entry, entry', hget, hop, rfl⟩ := updateEntry_eq_ok hupdate
  exact ⟨entry, entry', hget, hmoves hop, by rw [hmints]; rfl⟩

section EntryOperations

variable {entry entry' : ActorEntry} {seq : Nat} {fence : ActorOwnerFence} {answer : Unit}
variable {token : ActorClaimToken} {facts : CommitFenceFacts} {now ttl : Nat}

theorem moves_commit (hkey : token.actorKey = key)
    (h : entry.commit token facts now ttl = .ok (fence, entry')) :
    Moves key seq entry (.commit token facts now ttl) entry' := by
  unfold ActorEntry.commit at h
  cases hreserved : entry.reservation with
  | none => simp [hreserved] at h
  | some reserved =>
    simp only [hreserved] at h
    split at h
    · cases h
    rename_i htoken
    split at h
    · cases h
    rename_i hfacts
    cases h
    obtain rfl := not_not.mp htoken
    exact .commit hkey hreserved (not_not.mp hfacts)

theorem moves_abort (hkey : token.actorKey = key) (h : entry.abort token = .ok (answer, entry')) :
    Moves key seq entry (.abort token) entry' := by
  unfold ActorEntry.abort at h
  cases hreserved : entry.reservation with
  | none => simp [hreserved] at h
  | some reserved =>
    simp only [hreserved] at h
    split at h
    · rename_i htoken
      cases h
      subst htoken
      exact .abort hkey hreserved
    · cases h

variable {candidate : ActorOwnerFence}

theorem moves_renew (h : entry.renew candidate ttl now = .ok (fence, entry')) :
    Moves key seq entry (.renew key candidate ttl now) entry' := by
  unfold ActorEntry.renew at h
  cases howner : entry.owner with
  | none => simp [howner] at h
  | some current =>
    simp only [howner] at h
    split at h
    · cases h
    rename_i hsame
    split at h
    · cases h
    rename_i hlive
    cases h
    exact .renew howner (fenceIdentityMatches_iff.mp (not_not.mp hsame)) (not_le.mp hlive)

theorem moves_release {reason : OwnerReleaseReason}
    (h : entry.release candidate reason = .ok (answer, entry')) :
    Moves key seq entry (.release key candidate reason) entry' := by
  unfold ActorEntry.release at h
  cases howner : entry.owner with
  | none => simp [howner] at h
  | some current =>
    simp only [howner] at h
    split at h
    · cases h
    rename_i hsame
    cases h
    exact .release howner (fenceIdentityMatches_iff.mp (not_not.mp hsame))

theorem moves_requestEviction {request : String}
    (h : entry.requestEviction request = .ok (answer, entry')) :
    Moves key seq entry (.requestEviction key request) entry' := by
  unfold ActorEntry.requestEviction at h
  split at h
  · cases h
  rename_i howner
  cases h
  obtain ⟨fence, hfence⟩ := Option.ne_none_iff_exists'.mp (by simpa using howner)
  exact .requestEviction hfence

theorem moves_acknowledgeEviction {request : String}
    (h : entry.acknowledgeEviction request = .ok (answer, entry')) :
    Moves key seq entry (.acknowledgeEviction key request) entry' := by
  unfold ActorEntry.acknowledgeEviction at h
  split at h
  · cases h
  rename_i hmatch
  cases h
  rw [not_or, not_not] at hmatch
  obtain ⟨howner, hrequest⟩ := hmatch
  obtain ⟨fence, hfence⟩ := Option.ne_none_iff_exists'.mp (by simpa using howner)
  exact .acknowledgeEviction hfence hrequest

theorem moves_expire (h : entry.expire now ≠ entry) :
    Moves key seq entry (.expire now) (entry.expire now) := by
  unfold ActorEntry.expire ActorEntry.expiredFence at h ⊢
  cases howner : entry.owner with
  | none => simp [howner] at h
  | some fence =>
    simp only [howner] at h ⊢
    by_cases hevicting : entry.evictionRequestId.isSome
    · simp [hevicting] at h
    by_cases hexpired : fence.leaseExpiresAt ≤ now
    · simp only [hevicting, hexpired, if_true]
      exact .expire howner (by simpa using hevicting) hexpired
    · simp [hevicting, hexpired] at h

end EntryOperations

theorem replaces_reserve {epoch : Nat} {runtime : String} {authority : ActorOwnerRouteAuthority}
    {now : Nat} {token : ActorClaimToken}
    (h : registry.reserve key epoch runtime authority now = .ok (token, next)) :
    Replaces registry next (.reserve key epoch runtime authority now) key ∧
      token = registry.mintToken key epoch runtime authority := by
  unfold ActorOwnershipRegistry.reserve at h
  cases hget : registry.entries.get? key with
  | none => simp [hget, validOwner] at h
  | some entry =>
    simp only [hget, Option.bind_some] at h
    split at h
    · cases h
    rename_i hfree
    split at h
    · cases h
    rename_i hkept
    split at h
    · cases h
    rename_i hvalid
    split at h
    · cases h
    rename_i hepoch
    cases h
    obtain rfl := not_not.mp hepoch
    refine ⟨⟨entry, _, hget, .reserve (by simpa using hfree) (by simpa using hkept) ?_ rfl,
      rfl⟩, rfl⟩
    intro fence howner
    simpa [validOwner, hget, howner, Option.filter_eq_none_iff] using hvalid

/-- An accepted call with a target replaces the entry it finds there. -/
theorem run_replaces (h : call.run registry = .ok (reply, next))
    (htarget : call.target = some key) : Replaces registry next call key := by
  cases call with
  | ensurePresent | expire => cases htarget
  | reserve =>
    cases htarget
    obtain ⟨token, hreserve, -⟩ := map_map_eq_ok h
    exact (replaces_reserve hreserve).1
  | commit =>
    cases htarget
    exact replaces_of_updateEntry (moves_commit rfl) rfl h
  | abort =>
    cases htarget
    exact replaces_of_updateEntry (moves_abort rfl) rfl h
  | renew =>
    cases htarget
    exact replaces_of_updateEntry moves_renew rfl h
  | release =>
    cases htarget
    exact replaces_of_updateEntry moves_release rfl h
  | requestEviction =>
    cases htarget
    exact replaces_of_updateEntry moves_requestEviction rfl h
  | acknowledgeEviction =>
    cases htarget
    exact replaces_of_updateEntry moves_acknowledgeEviction rfl h
  | advanceIncarnation =>
    cases htarget
    refine replaces_of_updateEntry ?_ rfl h
    intro entry answer entry' hadvance
    cases hadvance
    exact .advanceIncarnation

/-- What a call does to the entry under `key`. -/
inductive Effect (registry next : ActorOwnershipRegistry) (key : ActorLogicalKey) : Call → Prop
  | kept {call : Call} : next.entries.get? key = registry.entries.get? key →
      Effect registry next key call
  | created {abi implementation owner createInput} :
      registry.entries.get? key = none →
      next.entries.get? key = some
        { epoch := 1, actorAbiIdentity := abi, actorImplementationIdentity := implementation,
          declarationOwner := owner, createInput := createInput, owner := none,
          evictionRequestId := none, reservation := none } →
      Effect registry next key (.ensurePresent key abi implementation owner createInput)
  | moved {call : Call} {entry entry' : ActorEntry} :
      registry.entries.get? key = some entry → next.entries.get? key = some entry' →
      Moves key registry.nextClaimSeq entry call entry' →
      next.nextClaimSeq = registry.nextClaimSeq + call.mints →
      Effect registry next key call

theorem Replaces.effect {target : ActorLogicalKey} (h : Replaces registry next call target)
    (key : ActorLogicalKey) : Effect registry next key call := by
  obtain ⟨entry, entry', hget, hmoves, rfl⟩ := h
  by_cases hkey : key = target
  · subst hkey
    exact .moved hget (OrdMap.get?_insert_self _ _ _) hmoves rfl
  · exact .kept (OrdMap.get?_insert_of_ne _ _ hkey)

theorem apply_effect (call : Call) (registry : ActorOwnershipRegistry) (key : ActorLogicalKey) :
    Effect registry (call.apply registry) key call := by
  unfold apply
  cases hrun : call.run registry with
  | error => exact .kept rfl
  | ok result =>
    obtain ⟨reply, next⟩ := result
    cases htarget : call.target with
    | some target => exact (run_replaces hrun htarget).effect key
    | none =>
      cases call with
      | ensurePresent present =>
        cases hrun
        change Effect registry (registry.ensurePresent present _ _ _ _).2 key _
        unfold ActorOwnershipRegistry.ensurePresent
        cases hget : registry.entries.get? present with
        | some entry => exact .kept rfl
        | none =>
          by_cases hkey : key = present
          · subst hkey
            exact .created hget (OrdMap.get?_insert_self _ _ _)
          · exact .kept (OrdMap.get?_insert_of_ne _ _ hkey)
      | expire now =>
        cases hrun
        have hmap := OrdMap.get?_map (·.expire now) registry.entries key
        cases hget : registry.entries.get? key with
        | none => exact .kept (by rw [hget] at hmap ⊢; exact hmap)
        | some entry =>
          rw [hget] at hmap
          by_cases hsame : entry.expire now = entry
          · exact .kept (by rw [hget]; rw [Option.map_some, hsame] at hmap; exact hmap)
          · exact .moved hget hmap (moves_expire hsame) rfl
      | _ => cases htarget

theorem apply_of_run (h : call.run registry = .ok (reply, next)) : call.apply registry = next := by
  simp [apply, h]

theorem nextClaimSeq_le (call : Call) (registry : ActorOwnershipRegistry) :
    registry.nextClaimSeq ≤ (call.apply registry).nextClaimSeq := by
  unfold apply
  cases hrun : call.run registry with
  | error => exact le_rfl
  | ok result =>
    obtain ⟨reply, next⟩ := result
    cases htarget : call.target with
    | some target =>
      obtain ⟨entry, entry', -, -, rfl⟩ := run_replaces hrun htarget
      exact Nat.le_add_right _ _
    | none =>
      cases call with
      | ensurePresent present =>
        cases hrun
        change _ ≤ (registry.ensurePresent present _ _ _ _).2.nextClaimSeq
        unfold ActorOwnershipRegistry.ensurePresent
        split <;> exact le_rfl
      | expire =>
        cases hrun
        exact le_rfl
      | _ => cases htarget

end Call
end Skiff.Actor
