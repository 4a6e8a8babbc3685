import Skiff.Actor.Activation
import Skiff.Actor.OwnershipHistory

/-!
# Claims, reservations and waiters

Three tables move together: the claims of the broker, its index by request id and the
reservations of the registry. `Kept` says how they fit. Calls from outside can only let a
reservation go, and only together with its incarnation (`Drifts`), so a live claim keeps
its reservation or has been overtaken by a new incarnation.

Every caller that is not turned away for lack of room waits in one live claim or has one
answer, never both (`total_apply`), and a claim ends with one answer for all of its
waiters (`Carries`).
-/

namespace Skiff.Actor

open ActorOwnershipRegistry OrdMap Call ActorClaimId

/-! ## What outside calls leave alone -/

/-- Identities stay, and a reservation goes only with its incarnation. -/
structure ActorEntry.Drifts (entry entry' : ActorEntry) : Prop where
  abi : entry'.actorAbiIdentity = entry.actorAbiIdentity
  implementation : entry'.actorImplementationIdentity = entry.actorImplementationIdentity
  declaration : entry'.declarationOwner = entry.declarationOwner
  reservation : (entry'.reservation = entry.reservation ∧ entry'.epoch = entry.epoch) ∨
    (entry'.reservation = none ∧ entry.epoch < entry'.epoch)

variable {token : ActorClaimToken}

namespace ActorEntry.Drifts

variable {a b c : ActorEntry}

theorem refl (a : ActorEntry) : a.Drifts a := ⟨rfl, rfl, rfl, .inl ⟨rfl, rfl⟩⟩

theorem trans (hab : a.Drifts b) (hbc : b.Drifts c) : a.Drifts c where
  abi := hbc.abi.trans hab.abi
  implementation := hbc.implementation.trans hab.implementation
  declaration := hbc.declaration.trans hab.declaration
  reservation := by
    obtain ⟨hr, he⟩ | ⟨hr, he⟩ := hbc.reservation
    · obtain ⟨hr', he'⟩ | ⟨hr', he'⟩ := hab.reservation
      · exact .inl ⟨hr.trans hr', he.trans he'⟩
      · exact .inr ⟨hr.trans hr', by omega⟩
    refine .inr ⟨hr, ?_⟩
    obtain ⟨-, he'⟩ | ⟨-, he'⟩ := hab.reservation <;> omega

theorem factsMatch {facts : CommitFenceFacts} (h : a.Drifts b) (ha : a.FactsMatch facts) :
    b.FactsMatch facts := by
  obtain ⟨habi, himplementation, hdeclaration⟩ := ha
  exact ⟨habi.trans h.abi.symm, himplementation.trans h.implementation.symm,
    hdeclaration.trans h.declaration.symm⟩

/-- A reservation seen afterwards was there before, in the same incarnation. -/
theorem reserved (h : a.Drifts b) (hb : b.reservation = some token) :
    a.reservation = some token := by
  obtain ⟨hr, -⟩ | ⟨hr, -⟩ := h.reservation
  · exact hr.symm.trans hb
  rw [hr] at hb
  cases hb

end ActorEntry.Drifts

variable {key : ActorLogicalKey} {call : Call}

variable {entry entry' : ActorEntry}

theorem Call.Moves.drifts {seq : Nat} (h : Moves key seq entry call entry')
    (houtside : call.outside) :
    entry.Drifts entry' := by
  cases h with
  | reserve | commit | abort => cases houtside
  | renew | release | expire | requestEviction | acknowledgeEviction =>
    exact ⟨rfl, rfl, rfl, .inl ⟨rfl, rfl⟩⟩
  | advanceIncarnation => exact ⟨rfl, rfl, rfl, .inr ⟨rfl, Nat.lt_succ_self _⟩⟩

/-- Every entry drifts, and none appears or vanishes. -/
structure ActorOwnershipRegistry.Drifts (registry next : ActorOwnershipRegistry) : Prop where
  seq : next.nextClaimSeq = registry.nextClaimSeq
  absent : ∀ key, registry.entries.get? key = none → next.entries.get? key = none
  present : ∀ key entry, registry.entries.get? key = some entry →
    ∃ entry', next.entries.get? key = some entry' ∧ entry.Drifts entry'

namespace ActorOwnershipRegistry.Drifts

variable {r s t : ActorOwnershipRegistry}

theorem refl (r : ActorOwnershipRegistry) : r.Drifts r :=
  ⟨rfl, fun _ h => h, fun _ entry h => ⟨entry, h, .refl entry⟩⟩

theorem trans (hrs : r.Drifts s) (hst : s.Drifts t) : r.Drifts t where
  seq := hst.seq.trans hrs.seq
  absent key h := hst.absent key (hrs.absent key h)
  present := by
    intro key entry hget
    obtain ⟨middle, hmiddle, hdrift⟩ := hrs.present key entry hget
    obtain ⟨last, hlast, hdrift'⟩ := hst.present key middle hmiddle
    exact ⟨last, hlast, hdrift.trans hdrift'⟩

theorem before {entry' : ActorEntry} (h : r.Drifts s) (hget : s.entries.get? key = some entry') :
    ∃ entry, r.entries.get? key = some entry ∧ entry.Drifts entry' := by
  cases hr : r.entries.get? key with
  | none =>
    rw [h.absent key hr] at hget
    cases hget
  | some entry =>
    obtain ⟨found, hfound, hdrift⟩ := h.present key entry hr
    rw [hget] at hfound
    cases hfound
    exact ⟨entry, rfl, hdrift⟩

theorem minted (h : r.Drifts s) (hr : Minted r token) : Minted s token := by
  obtain ⟨n, hlt, hclaim⟩ := hr
  exact ⟨n, h.seq ▸ hlt, hclaim⟩

end ActorOwnershipRegistry.Drifts

theorem Call.outside_seq (houtside : call.outside) (registry : ActorOwnershipRegistry) :
    (call.apply registry).nextClaimSeq = registry.nextClaimSeq := by
  unfold apply
  cases hrun : call.run registry with
  | error => rfl
  | ok result =>
    obtain ⟨reply, next⟩ := result
    cases call with
    | ensurePresent | reserve | commit | abort => cases houtside
    | expire =>
      cases hrun
      rfl
    | renew | release | requestEviction | acknowledgeEviction | advanceIncarnation =>
      obtain ⟨entry, entry', -, -, rfl⟩ := run_replaces hrun rfl
      rfl

theorem Call.outside_drifts (houtside : call.outside)
    (registry : ActorOwnershipRegistry) : registry.Drifts (call.apply registry) where
  seq := call.outside_seq houtside registry
  absent := by
    intro key habsent
    cases call.apply_effect registry key with
    | kept hkept => exact hkept.trans habsent
    | created => cases houtside
    | moved hbefore =>
      rw [habsent] at hbefore
      cases hbefore
  present := by
    intro key entry hget
    cases call.apply_effect registry key with
    | kept hkept => exact ⟨entry, hkept.trans hget, .refl entry⟩
    | created => cases houtside
    | moved hbefore hafter hmoves _ =>
      rw [hget] at hbefore
      cases hbefore
      exact ⟨_, hafter, hmoves.drifts houtside⟩

theorem Gap.drifts (gap : Gap) (registry : ActorOwnershipRegistry) :
    registry.Drifts (gap.apply registry) := by
  induction gap generalizing registry with
  | nil => exact .refl registry
  | cons call rest ih => exact (outside_drifts call.property registry).trans (ih _)

/-! ## How the tables fit -/

/-- The claims of the broker and the reservations of the registry. `pending` is a token
whose claim is being installed or has just been taken out. -/
structure Kept (claims : OrdMap ActorLogicalKey ActivationClaim)
    (byRequestId : OrdMap String ActorLogicalKey) (registry : ActorOwnershipRegistry)
    (pending : Option ActorClaimToken) : Prop where
  index : ∀ requestId key, byRequestId.get? requestId = some key ↔
    ∃ claim, claims.get? key = some claim ∧ claim.token.claimId.asStr = requestId
  minted : ∀ key claim, claims.get? key = some claim →
    claim.token.actorKey = key ∧ Minted registry claim.token
  held : ∀ key claim, claims.get? key = some claim →
    ∃ entry, registry.entries.get? key = some entry ∧ entry.FactsMatch claim.facts ∧
      claim.token.expectedEpoch ≤ entry.epoch ∧
      (entry.reservation = some claim.token ∨ claim.token.expectedEpoch < entry.epoch)
  covered : ∀ key entry token, registry.entries.get? key = some entry →
    entry.reservation = some token →
    pending = some token ∨ ∃ claim, claims.get? key = some claim ∧ claim.token = token
  fresh : ∀ key entry token, registry.entries.get? key = some entry →
    entry.reservation = some token → token.actorKey = key ∧ Minted registry token
  apart : ∀ token, pending = some token →
    ∀ key claim, claims.get? key = some claim → claim.token.claimId.asStr ≠ token.claimId.asStr

namespace Kept

variable {claims : OrdMap ActorLogicalKey ActivationClaim}
variable {byRequestId : OrdMap String ActorLogicalKey}
variable {registry next : ActorOwnershipRegistry} {pending : Option ActorClaimToken}
variable {key : ActorLogicalKey} {claim : ActivationClaim} {token : ActorClaimToken}

theorem new : Kept ∅ ∅ .new none where
  index := by simp
  minted := by simp
  held := by simp
  covered := by simp [ActorOwnershipRegistry.new]
  fresh := by simp [ActorOwnershipRegistry.new]
  apart := by simp

theorem drifts (h : Kept claims byRequestId registry pending) (hdrifts : registry.Drifts next) :
    Kept claims byRequestId next pending where
  index := h.index
  minted key claim hget := (h.minted key claim hget).imp_right hdrifts.minted
  held := by
    intro key claim hget
    obtain ⟨entry, hentry, hfacts, hle, hheld⟩ := h.held key claim hget
    obtain ⟨entry', hentry', hdrift⟩ := hdrifts.present key entry hentry
    refine ⟨entry', hentry', hdrift.factsMatch hfacts, ?_⟩
    obtain ⟨hreservation, hepoch⟩ | ⟨-, hepoch⟩ := hdrift.reservation
    · rw [hreservation, hepoch]
      exact ⟨hle, hheld⟩
    · exact ⟨by omega, .inr (by omega)⟩
  covered := by
    intro key entry' token hget hreserved
    obtain ⟨entry, hentry, hdrift⟩ := hdrifts.before hget
    exact h.covered key entry token hentry (hdrift.reserved hreserved)
  fresh := by
    intro key entry' token hget hreserved
    obtain ⟨entry, hentry, hdrift⟩ := hdrifts.before hget
    exact (h.fresh key entry token hentry (hdrift.reserved hreserved)).imp_right hdrifts.minted
  apart := h.apart

theorem key_unique {key' : ActorLogicalKey} {claim' : ActivationClaim}
    (h : Kept claims byRequestId registry pending) (hget : claims.get? key = some claim)
    (hget' : claims.get? key' = some claim')
    (hid : claim.token.claimId.asStr = claim'.token.claimId.asStr) : key = key' := by
  have hkey := (h.index claim'.token.claimId.asStr key).mpr ⟨claim, hget, hid⟩
  have hkey' := (h.index claim'.token.claimId.asStr key').mpr ⟨claim', hget', rfl⟩
  rw [hkey] at hkey'
  exact Option.some.inj hkey'

/-- A claim leaves both tables; its reservation is left for the caller to settle. -/
theorem retire (h : Kept claims byRequestId registry none) (hget : claims.get? key = some claim) :
    Kept (claims.erase key) (byRequestId.erase claim.token.claimId.asStr) registry
      (some claim.token) where
  index := by
    intro requestId key'
    rw [get?_erase, get?_erase]
    split
    case isTrue hid =>
      subst hid
      refine ⟨fun hnone => (by cases hnone), ?_⟩
      rintro ⟨claim', hclaim', hid⟩
      split at hclaim'
      · cases hclaim'
      rename_i hne
      exact absurd (h.key_unique hclaim' hget hid) hne
    case isFalse hid =>
      rw [h.index]
      split
      case isTrue hkey =>
        subst hkey
        constructor
        · rintro ⟨claim', hclaim', hid'⟩
          rw [hget] at hclaim'
          cases hclaim'
          exact absurd hid'.symm hid
        rintro ⟨claim', hclaim', -⟩
        cases hclaim'
      case isFalse => exact Iff.rfl
  minted := by
    intro key' claim' hclaim'
    obtain ⟨-, hclaim'⟩ := get?_erase_eq_some.mp hclaim'
    exact h.minted key' claim' hclaim'
  held := by
    intro key' claim' hclaim'
    obtain ⟨-, hclaim'⟩ := get?_erase_eq_some.mp hclaim'
    exact h.held key' claim' hclaim'
  covered := by
    intro key' entry token hentry hreserved
    obtain hpending | ⟨claim', hclaim', rfl⟩ := h.covered key' entry token hentry hreserved
    · cases hpending
    by_cases hkey : key' = key
    · subst hkey
      rw [hget] at hclaim'
      cases hclaim'
      exact .inl rfl
    · exact .inr ⟨claim', by rw [get?_erase_of_ne _ hkey]; exact hclaim', rfl⟩
  fresh := h.fresh
  apart := by
    intro token hpending key' claim' hclaim' htoken
    cases hpending
    obtain ⟨hne, hclaim'⟩ := get?_erase_eq_some.mp hclaim'
    exact hne (h.key_unique hclaim' hget htoken)

end Kept

/-! ## Settling a reservation -/

/-- The entry gives up the reservation of `token`, if it has it, and no other. -/
structure ActorEntry.Frees (token : ActorClaimToken) (entry entry' : ActorEntry) : Prop where
  abi : entry'.actorAbiIdentity = entry.actorAbiIdentity
  implementation : entry'.actorImplementationIdentity = entry.actorImplementationIdentity
  declaration : entry'.declarationOwner = entry.declarationOwner
  epoch : entry'.epoch = entry.epoch
  other : ∀ token', token' ≠ token →
    (entry'.reservation = some token' ↔ entry.reservation = some token')
  freed : entry'.reservation ≠ some token

/-- No reservation of `token` is left in the registry. -/
structure ActorOwnershipRegistry.Frees (token : ActorClaimToken)
    (registry next : ActorOwnershipRegistry) : Prop where
  seq : next.nextClaimSeq = registry.nextClaimSeq
  before : ∀ key entry', next.entries.get? key = some entry' →
    ∃ entry, registry.entries.get? key = some entry ∧ entry.Frees token entry'
  after : ∀ key entry, registry.entries.get? key = some entry →
    ∃ entry', next.entries.get? key = some entry' ∧ entry.Frees token entry'

variable {entry : ActorEntry}

theorem ActorEntry.Frees.refl (h : entry.reservation ≠ some token) : entry.Frees token entry :=
  ⟨rfl, rfl, rfl, rfl, fun _ _ => Iff.rfl, h⟩

namespace ActorOwnershipRegistry

variable {registry : ActorOwnershipRegistry} {token : ActorClaimToken}
variable {entry entry' : ActorEntry}

theorem frees_refl (h : ∀ key entry, registry.entries.get? key = some entry →
    entry.reservation ≠ some token) : registry.Frees token registry where
  seq := rfl
  before key entry hget := ⟨entry, hget, .refl (h key entry hget)⟩
  after key entry hget := ⟨entry, hget, .refl (h key entry hget)⟩

theorem frees_insert (hget : registry.entries.get? key = some entry)
    (hfrees : entry.Frees token entry')
    (hother : ∀ key' entry, key' ≠ key → registry.entries.get? key' = some entry →
      entry.reservation ≠ some token) :
    registry.Frees token { registry with entries := registry.entries.insert key entry' } where
  seq := rfl
  before := by
    intro key' found hfound
    by_cases hkey : key' = key
    · subst hkey
      rw [get?_insert_self] at hfound
      cases hfound
      exact ⟨entry, hget, hfrees⟩
    rw [get?_insert_of_ne _ _ hkey] at hfound
    exact ⟨found, hfound, .refl (hother key' found hkey hfound)⟩
  after := by
    intro key' found hfound
    by_cases hkey : key' = key
    · subst hkey
      rw [hget] at hfound
      cases hfound
      exact ⟨entry', get?_insert_self _ _ _, hfrees⟩
    refine ⟨found, ?_, .refl (hother key' found hkey hfound)⟩
    rw [get?_insert_of_ne _ _ hkey]
    exact hfound

end ActorOwnershipRegistry

namespace Kept

variable {claims : OrdMap ActorLogicalKey ActivationClaim}
variable {byRequestId : OrdMap String ActorLogicalKey}
variable {registry next : ActorOwnershipRegistry}
variable {token : ActorClaimToken}

section

variable (h : Kept claims byRequestId registry (some token))
include h

/-- Once the pending token holds no reservation, nothing is pending. -/
theorem frees (hfrees : registry.Frees token next) : Kept claims byRequestId next none where
  index := h.index
  minted := by
    intro key claim hget
    obtain ⟨hkey, n, hlt, hclaim⟩ := h.minted key claim hget
    exact ⟨hkey, n, hfrees.seq ▸ hlt, hclaim⟩
  held := by
    intro key claim hget
    obtain ⟨entry, hentry, ⟨habi, himpl, hdecl⟩, hle, hheld⟩ := h.held key claim hget
    obtain ⟨entry', hentry', hfree⟩ := hfrees.after key entry hentry
    refine ⟨entry', hentry', ⟨habi.trans hfree.abi.symm, himpl.trans hfree.implementation.symm,
      hdecl.trans hfree.declaration.symm⟩, hfree.epoch ▸ hle, ?_⟩
    have hne : claim.token ≠ token := by
      intro heq
      exact h.apart token rfl key claim hget (by rw [heq])
    rw [hfree.epoch, hfree.other claim.token hne]
    exact hheld
  covered := by
    intro key entry' token' hget hreserved
    obtain ⟨entry, hentry, hfree⟩ := hfrees.before key entry' hget
    have hne : token' ≠ token := by
      rintro rfl
      exact hfree.freed hreserved
    obtain hpending | hclaim :=
      h.covered key entry token' hentry ((hfree.other token' hne).mp hreserved)
    · exact absurd (Option.some.inj hpending).symm hne
    · exact .inr hclaim
  fresh := by
    intro key entry' token' hget hreserved
    obtain ⟨entry, hentry, hfree⟩ := hfrees.before key entry' hget
    have hne : token' ≠ token := by
      rintro rfl
      exact hfree.freed hreserved
    obtain ⟨hkey, n, hlt, hclaim⟩ :=
      h.fresh key entry token' hentry ((hfree.other token' hne).mp hreserved)
    exact ⟨hkey, n, hfrees.seq ▸ hlt, hclaim⟩
  apart := by
    intro token' hnone
    cases hnone

/-- A settled reservation of `token` was the one under its key. -/
theorem frees_of_replaces (hsettles : call.Settles token) (haccepted : call.Accepted registry) :
    registry.Frees token (call.apply registry) := by
  have hother : ∀ key' entry, key' ≠ token.actorKey → registry.entries.get? key' = some entry →
      entry.reservation ≠ some token := by
    intro key' entry hne hget hreserved
    exact hne (h.fresh key' entry token hget hreserved).1.symm
  have hfreed : ∀ {entry : ActorEntry}, entry.reservation = some token → ∀ token', token' ≠ token →
      (none = some token' ↔ entry.reservation = some token') := by
    intro entry hreserved token' hne
    rw [hreserved, Option.some.injEq]
    exact ⟨fun hnone => (by cases hnone), fun heq => absurd heq.symm hne⟩
  obtain ⟨reply, next, hrun⟩ := haccepted
  rw [apply_of_run hrun]
  cases call with
  | commit committed facts now ttl =>
    obtain rfl : committed = token := hsettles
    obtain ⟨entry, entry', hget, hmoves, rfl⟩ := run_replaces hrun rfl
    cases hmoves with
    | commit _ hreserved _ =>
      exact frees_insert hget ⟨rfl, rfl, rfl, rfl, hfreed hreserved, by simp⟩ hother
  | abort aborted =>
    obtain rfl : aborted = token := hsettles
    obtain ⟨entry, entry', hget, hmoves, rfl⟩ := run_replaces hrun rfl
    cases hmoves with
    | abort _ hreserved =>
      exact frees_insert hget ⟨rfl, rfl, rfl, rfl, hfreed hreserved, by simp⟩ hother
  | _ => cases hsettles

/-- A pending token whose reservation is gone needs nothing more. -/
theorem unreserved (hgone : ∀ entry, registry.entries.get? token.actorKey = some entry →
      entry.reservation ≠ some token) : Kept claims byRequestId registry none := by
  refine h.frees (frees_refl ?_)
  intro key entry hget hreserved
  obtain ⟨rfl, -⟩ := h.fresh key entry token hget hreserved
  exact hgone entry hget hreserved

theorem abort : Kept claims byRequestId ((Call.abort token).apply registry) none := by
  by_cases haccepted : (Call.abort token).Accepted registry
  · exact h.frees (h.frees_of_replaces rfl haccepted)
  rw [apply_of_not_accepted haccepted]
  refine h.unreserved ?_
  intro entry hget hreserved
  refine haccepted ⟨.done, { registry with
    entries := registry.entries.insert token.actorKey { entry with reservation := none } }, ?_⟩
  simp [Call.run, ActorOwnershipRegistry.abort, updateEntry, hget, ActorEntry.abort, hreserved,
    bind, Except.bind, Except.map, pure, Except.pure]

end

variable {facts : CommitFenceFacts} {now ttl : Nat}

theorem commit {fence : ActorOwnerFence} (h : Kept claims byRequestId registry (some token))
    (hcommit : registry.commit token facts now ttl = .ok (fence, next)) :
    Kept claims byRequestId next none := by
  have hrun : (Call.commit token facts now ttl).run registry = .ok (.fence fence, next) := by
    simp [Call.run, hcommit, Except.map]
  have hfrees : registry.Frees token ((Call.commit token facts now ttl).apply registry) :=
    h.frees_of_replaces rfl ⟨_, _, hrun⟩
  rw [apply_of_run hrun] at hfrees
  exact h.frees hfrees

/-- With matching facts a commit is refused only when the reservation is gone. -/
theorem commit_refused {error : OwnershipError} (h : Kept claims byRequestId registry (some token))
    (hfacts : ∀ entry, registry.entries.get? token.actorKey = some entry → entry.FactsMatch facts)
    (hcommit : registry.commit token facts now ttl = .error error) :
    Kept claims byRequestId registry none := by
  refine h.unreserved ?_
  intro entry hget hreserved
  simp [ActorOwnershipRegistry.commit, updateEntry, hget, ActorEntry.commit, hreserved,
    hfacts entry hget, bind, Except.bind, pure, Except.pure] at hcommit

/-! ## Opening a claim -/

variable {key : ActorLogicalKey}

/-- Creating an entry reserves nothing. -/
theorem ensurePresent {abi : ActorAbiIdentity} {implementation : ActorImplementationIdentity}
    {owner : ActorDeclarationOwnerFrameHeader} {createInput : List UInt8}
    (h : Kept claims byRequestId registry none) :
    Kept claims byRequestId
      (registry.ensurePresent key abi implementation owner createInput).2 none := by
  unfold ActorOwnershipRegistry.ensurePresent
  cases hget : registry.entries.get? key with
  | some entry => exact h
  | none =>
    refine ⟨h.index, h.minted, ?_, ?_, ?_, h.apart⟩
    · intro key' claim hclaim
      obtain ⟨entry, hentry, hheld⟩ := h.held key' claim hclaim
      exact ⟨entry, get?_insert_of_fresh hget hentry, hheld⟩
    all_goals
      intro key' entry token hentry hreserved
      rw [get?_insert] at hentry
      split at hentry
      · cases hentry
        cases hreserved
    · exact h.covered key' entry token hentry hreserved
    · exact h.fresh key' entry token hentry hreserved

/-- A reservation of a key without a live claim is pending. -/
theorem reserve {epoch : Nat} {runtime : String} {authority : ActorOwnerRouteAuthority}
    (h : Kept claims byRequestId registry none) (habsent : claims.get? key = none)
    (hreserve : registry.reserve key epoch runtime authority now = .ok (token, next)) :
    Kept claims byRequestId next (some token) ∧ token.actorKey = key ∧
      token.ownerRuntimeId = runtime ∧
      ∃ entry, registry.entries.get? key = some entry ∧
        next.entries.get? key = some { entry with reservation := some token } ∧
        token.expectedEpoch = entry.epoch := by
  obtain ⟨⟨entry, entry', hget, hmoves, rfl⟩, rfl⟩ := replaces_reserve hreserve
  have hminted : ∀ {token : ActorClaimToken}, Minted registry token →
      Minted ⟨registry.entries.insert key entry', registry.nextClaimSeq + 1⟩ token := by
    rintro token ⟨n, hlt, hclaim⟩
    exact ⟨n, Nat.lt_succ_of_lt hlt, hclaim⟩
  cases hmoves with
  | reserve hfree _ _ htoken =>
    subst htoken
    refine ⟨⟨h.index, ?_, ?_, ?_, ?_, ?_⟩, rfl, rfl, entry, hget, get?_insert_self _ _ _, rfl⟩
    · intro key' claim hclaim
      exact (h.minted key' claim hclaim).imp_right hminted
    · intro key' claim hclaim
      have hne : key' ≠ key := ne_of_get? hclaim habsent
      obtain ⟨found, hfound, hheld⟩ := h.held key' claim hclaim
      exact ⟨found, by rw [get?_insert_of_ne _ _ hne]; exact hfound, hheld⟩
    · intro key' found token hfound hreserved
      obtain ⟨-, rfl⟩ | ⟨-, hfound⟩ := get?_insert_eq_some.mp hfound
      · cases hreserved
        exact .inl rfl
      · exact .inr ((h.covered key' found token hfound hreserved).resolve_left (by simp))
    · intro key' found token hfound hreserved
      obtain ⟨hkey, rfl⟩ | ⟨-, hfound⟩ := get?_insert_eq_some.mp hfound
      · cases hreserved
        exact ⟨hkey.symm, registry.nextClaimSeq, Nat.lt_succ_self _, rfl⟩
      · exact (h.fresh key' found token hfound hreserved).imp_right hminted
    intro token hpending key' claim hclaim hid
    cases hpending
    obtain ⟨-, n, hlt, hclaimId⟩ := h.minted key' claim hclaim
    rw [hclaimId] at hid
    have hseq : mint n = mint registry.nextClaimSeq := by
      cases hm : mint n
      rw [hm] at hid
      exact congrArg ActorClaimId.mk hid
    have := mint_injective hseq
    omega

/-- The pending token becomes the token of a new claim. -/
theorem install {claim : ActivationClaim}
    (h : Kept claims byRequestId registry (some claim.token)) (habsent : claims.get? key = none)
    (hkey : claim.token.actorKey = key) (hminted : Minted registry claim.token)
    (hget : registry.entries.get? key = some entry) (hfacts : entry.FactsMatch claim.facts)
    (hepoch : claim.token.expectedEpoch ≤ entry.epoch)
    (hheld : entry.reservation = some claim.token ∨ claim.token.expectedEpoch < entry.epoch) :
    Kept (claims.insert key claim) (byRequestId.insert claim.token.claimId.asStr key) registry
      none where
  index := by
    intro requestId key'
    rw [get?_insert, get?_insert]
    split
    case isTrue hid =>
      subst hid
      constructor
      · intro hsome
        cases hsome
        exact ⟨claim, by simp, rfl⟩
      rintro ⟨claim', hclaim', hid⟩
      split at hclaim'
      · rename_i heq
        rw [heq]
      · exact absurd hid (h.apart _ rfl key' claim' hclaim')
    case isFalse hid =>
      rw [h.index]
      split
      case isTrue heq =>
        subst heq
        constructor
        · rintro ⟨claim', hclaim', -⟩
          rw [habsent] at hclaim'
          cases hclaim'
        rintro ⟨claim', hclaim', hid'⟩
        cases hclaim'
        exact absurd hid'.symm hid
      case isFalse => exact Iff.rfl
  minted := by
    intro key' claim' hclaim'
    obtain ⟨heq, rfl⟩ | ⟨-, hclaim'⟩ := get?_insert_eq_some.mp hclaim'
    · exact ⟨hkey.trans heq.symm, hminted⟩
    · exact h.minted key' claim' hclaim'
  held := by
    intro key' claim' hclaim'
    obtain ⟨heq, rfl⟩ | ⟨-, hclaim'⟩ := get?_insert_eq_some.mp hclaim'
    · exact ⟨entry, heq ▸ hget, hfacts, hepoch, hheld⟩
    · exact h.held key' claim' hclaim'
  covered := by
    intro key' found token hfound hreserved
    obtain hpending | ⟨claim', hclaim', htoken⟩ := h.covered key' found token hfound hreserved
    · cases hpending
      refine .inr ⟨claim, ?_, rfl⟩
      rw [← (h.fresh key' found _ hfound hreserved).1, hkey, get?_insert_self]
    exact .inr ⟨claim', get?_insert_of_fresh habsent hclaim', htoken⟩
  fresh := h.fresh
  apart := by
    intro token hnone
    cases hnone

/-- One more waiter changes nothing that the other tables know of. -/
theorem join {claim : ActivationClaim} {waiters : List String}
    (h : Kept claims byRequestId registry none) (hget : claims.get? key = some claim) :
    Kept (claims.insert key { claim with waiters := waiters }) byRequestId registry none := by
  have hback : ∀ key' claim', (claims.insert key { claim with waiters := waiters }).get? key' =
      some claim' → ∃ old, claims.get? key' = some old ∧ claim'.token = old.token ∧
        claim'.facts = old.facts := by
    intro key' claim' hclaim'
    obtain ⟨heq, rfl⟩ | ⟨-, hclaim'⟩ := get?_insert_eq_some.mp hclaim'
    · exact ⟨claim, heq ▸ hget, rfl, rfl⟩
    · exact ⟨claim', hclaim', rfl, rfl⟩
  have hforth : ∀ key' old, claims.get? key' = some old →
      ∃ claim', (claims.insert key { claim with waiters := waiters }).get? key' = some claim' ∧
        claim'.token = old.token := by
    intro key' old hold
    by_cases heq : key' = key
    · subst heq
      rw [hget] at hold
      cases hold
      exact ⟨_, get?_insert_self _ _ _, rfl⟩
    · exact ⟨old, by rw [get?_insert_of_ne _ _ heq]; exact hold, rfl⟩
  refine ⟨?_, ?_, ?_, ?_, h.fresh, by simp⟩
  · intro requestId key'
    rw [h.index]
    constructor
    · rintro ⟨old, hold, hid⟩
      obtain ⟨claim', hclaim', htoken⟩ := hforth key' old hold
      exact ⟨claim', hclaim', by rw [htoken]; exact hid⟩
    rintro ⟨claim', hclaim', hid⟩
    obtain ⟨old, hold, htoken, -⟩ := hback key' claim' hclaim'
    exact ⟨old, hold, by rw [← htoken]; exact hid⟩
  · intro key' claim' hclaim'
    obtain ⟨old, hold, htoken, -⟩ := hback key' claim' hclaim'
    rw [htoken]
    exact h.minted key' old hold
  · intro key' claim' hclaim'
    obtain ⟨old, hold, htoken, hfacts⟩ := hback key' claim' hclaim'
    rw [htoken, hfacts]
    exact h.held key' old hold
  intro key' entry token hentry hreserved
  obtain hnone | ⟨old, hold, hold'⟩ := h.covered key' entry token hentry hreserved
  · cases hnone
  obtain ⟨claim', hclaim', htoken⟩ := hforth key' old hold
  exact .inr ⟨claim', hclaim', htoken.trans hold'⟩

end Kept

/-! ## The operations of the broker -/

namespace ActivationBroker

variable {options : ActorActivationBrokerOptions} {broker next : ActivationBroker}
variable {request : ActorGetOrCreateRequest} {gap : Gap} {token : ActorClaimToken}
variable {control : ActivateInitialControlRequest → Except String Unit}

def Kept (broker : ActivationBroker) : Prop :=
  Actor.Kept broker.claims broker.byRequestId broker.registry none

theorem Kept.wait (h : broker.Kept) (gap : Gap) : (broker.wait gap).Kept :=
  Actor.Kept.drifts h (gap.drifts _)

section AnswerAll

variable (broker) (waiters : List String) (outcome : ActivationWaiterOutcome)

/-- Answers touch the outcomes only. -/
theorem answerAll_eq : broker.answerAll waiters outcome =
    { broker with outcomes := (broker.answerAll waiters outcome).outcomes
                  answered := broker.answered ++ waiters.map fun waiter => (waiter, outcome) } := by
  induction waiters generalizing broker with
  | nil => simp [answerAll]
  | cons waiter rest ih =>
    have hrest := ih (broker.answer waiter outcome)
    rw [answerAll] at hrest
    rw [answerAll, List.foldl_cons, hrest]
    simp [answer]

@[simp] theorem answerAll_claims : (broker.answerAll waiters outcome).claims = broker.claims := by
  rw [answerAll_eq]

@[simp] theorem answerAll_byRequestId :
    (broker.answerAll waiters outcome).byRequestId = broker.byRequestId := by
  rw [answerAll_eq]

@[simp] theorem answerAll_registry :
    (broker.answerAll waiters outcome).registry = broker.registry := by
  rw [answerAll_eq]

@[simp] theorem answerAll_answered : (broker.answerAll waiters outcome).answered =
    broker.answered ++ waiters.map fun waiter => (waiter, outcome) := by
  rw [answerAll_eq]

end AnswerAll

/-- What `getOrCreate` does with its caller. -/
inductive Admission (broker : ActivationBroker) (request : ActorGetOrCreateRequest)
    (next : ActivationBroker) : GetOrCreateOutcome → Prop
  | saturated : next.claims = broker.claims → next.answered = broker.answered →
      Admission broker request next .saturated
  | answered {outcome : GetOrCreateOutcome} (answer : ActivationWaiterOutcome) :
      outcome ≠ .saturated → next.claims = broker.claims →
      next.answered = broker.answered ++ [(request.rpcId, answer)] →
      Admission broker request next outcome
  | joined {claim : ActivationClaim} :
      broker.claims.get? request.actorKey = some claim → claim.lineage = request.lineage →
      next.claims = broker.claims.insert request.actorKey
        { claim with waiters := claim.waiters ++ [request.rpcId] } →
      next.answered = broker.answered → Admission broker request next .joined
  | started {claim : ActivationClaim} {requestId : String} :
      broker.claims.get? request.actorKey = none → claim.waiters = [request.rpcId] →
      claim.lineage = request.lineage →
      next.claims = broker.claims.insert request.actorKey claim →
      next.answered = broker.answered →
      Admission broker request next (.startedActivation requestId)

/-- The result of an admission: the tables fit, and the caller was dealt with. -/
def Admits (broker : ActivationBroker) (request : ActorGetOrCreateRequest)
    (result : GetOrCreateOutcome × ActivationBroker) : Prop :=
  result.2.Kept ∧ Admission broker request result.2 result.1

theorem Admits.of_same {middle : ActivationBroker}
    {result : GetOrCreateOutcome × ActivationBroker} (hclaims : middle.claims = broker.claims)
    (hanswered : middle.answered = broker.answered) (h : Admits middle request result) :
    Admits broker request result := by
  obtain ⟨outcome, next⟩ := result
  obtain ⟨hkept, hadmission⟩ := h
  refine ⟨hkept, ?_⟩
  cases hadmission with
  | saturated hc ha => exact .saturated (hc.trans hclaims) (ha.trans hanswered)
  | answered answer hroom hc ha => exact .answered answer hroom (hc.trans hclaims) (hanswered ▸ ha)
  | joined hget hlineage hc ha =>
    exact .joined (hclaims ▸ hget) hlineage (hclaims ▸ hc) (ha.trans hanswered)
  | started hget hwaiters hlineage hc ha =>
    exact .started (hclaims ▸ hget) hwaiters hlineage (hclaims ▸ hc) (ha.trans hanswered)

theorem startActivation_spec {beforeAbort : Gap}
    (h : Actor.Kept broker.claims broker.byRequestId broker.registry (some token))
    (habsent : broker.claims.get? request.actorKey = none)
    (hkey : token.actorKey = request.actorKey)
    (hget : broker.registry.entries.get? request.actorKey = some entry)
    (hmatches : EntryMatches entry request) (hreserved : entry.reservation = some token)
    (hepoch : token.expectedEpoch = entry.epoch) :
    Admits broker request (broker.startActivation options request token control beforeAbort) := by
  have hminted : Minted broker.registry token := (h.fresh _ entry token hget hreserved).2
  have hclaim : ∀ lease, Actor.Kept
      (broker.claims.insert request.actorKey (newClaim options request token lease))
      (broker.byRequestId.insert token.claimId.asStr request.actorKey) broker.registry none := by
    intro lease
    exact Kept.install h habsent hkey hminted hget
      ⟨hmatches.1.symm, hmatches.2.1.symm, hmatches.2.2.symm⟩ hepoch.le (.inl hreserved)
  unfold startActivation
  simp only [mintLease]
  split
  · exact ⟨hclaim _, .started habsent rfl rfl rfl rfl⟩
  have hretired := (hclaim ("owner-lease-" ++ toString (broker.nextLease + 1))).retire
    (get?_insert_self _ _ _)
  refine ⟨?_, .answered (.failed "AckRejected") (by simp) ?_ ?_⟩
  · unfold ActivationBroker.Kept
    rw [answerAll_claims, answerAll_byRequestId, answerAll_registry]
    exact (hretired.drifts (beforeAbort.drifts _)).abort
  · rw [answerAll_claims]
    exact erase_insert_of_get?_eq_none habsent _
  rw [answerAll_answered]
  rfl

theorem EntryMatches.drifts (h : EntryMatches entry request)
    (hdrifts : entry.Drifts entry') : EntryMatches entry' request :=
  ⟨hdrifts.abi.trans h.1, hdrifts.implementation.trans h.2.1, hdrifts.declaration.trans h.2.2⟩

/-- After `ensurePresent` the entry has the identities of the request, if the entry that
was there had them. -/
theorem matches_of_ensurePresent {registry : ActorOwnershipRegistry}
    (h : ∀ entry ∈ registry.entries.get? request.actorKey, EntryMatches entry request) :
    ∀ entry ∈ (registry.ensurePresent request.actorKey request.actorAbiIdentity
        request.actorImplementationIdentity request.declarationOwner
        request.bootstrapBytes).2.entries.get? request.actorKey,
      EntryMatches entry request := by
  unfold ActorOwnershipRegistry.ensurePresent
  cases hget : registry.entries.get? request.actorKey with
  | some entry =>
    rw [hget] at h
    simpa [hget] using h
  | none =>
    intro entry hentry
    rw [get?_insert_self] at hentry
    cases hentry
    exact ⟨rfl, rfl, rfl⟩

theorem reserveKey_spec {beforeReserve beforeAbort : Gap} (h : broker.Kept)
    (habsent : broker.claims.get? request.actorKey = none)
    (hmatches : ∀ entry ∈ broker.registry.entries.get? request.actorKey,
      EntryMatches entry request) :
    Admits broker request
      (broker.reserveKey options request control beforeReserve beforeAbort) := by
  have hmatched := matches_of_ensurePresent hmatches
  have hensured : Actor.Kept broker.claims broker.byRequestId
      (broker.registry.ensurePresent request.actorKey request.actorAbiIdentity
        request.actorImplementationIdentity request.declarationOwner request.bootstrapBytes).2
      none := Actor.Kept.ensurePresent h
  have hdrifts := beforeReserve.drifts (broker.registry.ensurePresent request.actorKey
    request.actorAbiIdentity request.actorImplementationIdentity request.declarationOwner
    request.bootstrapBytes).2
  have hwaited := hensured.drifts hdrifts
  unfold reserveKey
  simp only
  split
  · exact ⟨hwaited, .answered _ (by simp [reject]) rfl rfl⟩
  rename_i token registry hreserve
  obtain ⟨hreserved, hkey, -, entry, hentry, hafter, hepoch⟩ := hwaited.reserve habsent hreserve
  obtain ⟨before, hbefore, hdrift⟩ := hdrifts.before hentry
  have hentryMatches := EntryMatches.drifts (hmatched before hbefore) hdrift
  refine Admits.of_same ?_ ?_
    (startActivation_spec hreserved habsent hkey hafter hentryMatches rfl hepoch)
  · rfl
  · rfl

theorem admit_spec {gaps : AdmissionGaps} (h : broker.Kept)
    (habsent : broker.claims.get? request.actorKey = none) :
    Admits broker request (broker.admitClaim options request control gaps) := by
  have howner := h.wait gaps.beforeOwner
  unfold admitClaim
  simp only
  split
  · split
    · exact ⟨howner, .answered _ (by simp [reject]) rfl rfl⟩
    · exact ⟨howner, .answered _ (by simp) rfl rfl⟩
  have hentry := howner.wait gaps.beforeEntry
  split
  case isFalse => exact ⟨hentry, .answered _ (by simp [reject]) rfl rfl⟩
  case isTrue hmatches =>
    refine Admits.of_same ?_ ?_ (reserveKey_spec (hentry.wait gaps.beforeEnsure) habsent ?_)
    · rfl
    · rfl
    intro entry hget
    obtain ⟨before, hbefore, hdrift⟩ := (gaps.beforeEnsure.drifts _).before hget
    exact EntryMatches.drifts (hmatches before hbefore) hdrift

theorem getOrCreate_spec {gaps : AdmissionGaps} (h : broker.Kept) :
    Admits broker request (broker.getOrCreate options request control gaps) := by
  unfold getOrCreate
  split
  · exact ⟨h, .saturated rfl rfl⟩
  split
  · rename_i claim hget
    split
    · exact ⟨h, .answered _ (by simp) rfl rfl⟩
    rename_i hlineage
    exact ⟨Actor.Kept.join h hget, .joined hget (not_not.mp hlineage) rfl rfl⟩
  rename_i habsent
  exact admit_spec h habsent

/-- A change without a new caller: the registry moves on, or a claim ends and all of its
waiters get the same answer. -/
inductive Quiet (broker next : ActivationBroker) : Prop
  | same : next.claims = broker.claims → next.answered = broker.answered → next.Kept →
      Quiet broker next
  | ends {key : ActorLogicalKey} {claim : ActivationClaim} {outcome : ActivationWaiterOutcome} :
      broker.claims.get? key = some claim → next.claims = broker.claims.erase key →
      next.answered = broker.answered ++ claim.waiters.map (fun waiter => (waiter, outcome)) →
      next.Kept → Quiet broker next

theorem Quiet.kept (h : Quiet broker next) : next.Kept := by
  cases h with
  | same _ _ hkept => exact hkept
  | ends _ _ _ hkept => exact hkept

section Ends

variable {key : ActorLogicalKey} {claim : ActivationClaim} {requestId : String}

/-- The claim is out, the tables fit again and its waiters are answered. -/
theorem quiet_of_answerAll {retired : ActivationBroker} (outcome : ActivationWaiterOutcome)
    (hget : broker.claims.get? key = some claim)
    (hclaims : retired.claims = broker.claims.erase key)
    (hanswered : retired.answered = broker.answered) (hkept : retired.Kept) :
    Quiet broker (retired.answerAll claim.waiters outcome) := by
  have hall : (retired.answerAll claim.waiters outcome).answered =
      broker.answered ++ claim.waiters.map fun waiter => (waiter, outcome) := by
    rw [answerAll_answered, hanswered]
  refine .ends hget ?_ hall ?_
  · rw [answerAll_claims]
    exact hclaims
  unfold ActivationBroker.Kept
  rw [answerAll_claims, answerAll_byRequestId, answerAll_registry]
  exact hkept

theorem onActivationTimeout_spec (h : broker.Kept) :
    Quiet broker (broker.onActivationTimeout requestId gap).2 := by
  unfold onActivationTimeout
  split
  · exact .same rfl rfl h
  rename_i key hkey
  split
  · exact .same rfl rfl h
  rename_i claim hget
  obtain ⟨claim', hget', rfl⟩ := (h.index requestId key).mp hkey
  rw [hget] at hget'
  cases hget'
  exact quiet_of_answerAll _ hget rfl rfl ((Actor.Kept.retire h hget).drifts (gap.drifts _)).abort

theorem shutdownClaim_spec (h : broker.Kept) (key : ActorLogicalKey) :
    Quiet broker (broker.shutdownClaim key gap).2 := by
  unfold shutdownClaim
  split
  · exact .same rfl rfl h
  rename_i claim hget
  exact quiet_of_answerAll _ hget rfl rfl ((Actor.Kept.retire h hget).drifts (gap.drifts _)).abort

/-- The acknowledgement names a live claim, its owner and the owner's connection. -/
def Correlates (broker : ActivationBroker) (requestId runtimeId connection : String) : Prop :=
  ∃ key claim, broker.claims.get? key = some claim ∧ claim.token.claimId.asStr = requestId ∧
    claim.token.ownerRuntimeId = runtimeId ∧ claim.ownerConnection = connection

theorem onActivationAck_spec {runtimeId connection : String} {accepted : Bool} {now : Nat}
    (h : broker.Kept) :
    Quiet broker
      (broker.onActivationAck options requestId runtimeId connection accepted now gap).2 ∧
    (¬ broker.Correlates requestId runtimeId connection →
      (broker.onActivationAck options requestId runtimeId connection accepted now gap).2 =
        broker) := by
  unfold onActivationAck
  split
  · exact ⟨.same rfl rfl h, fun _ => rfl⟩
  rename_i key hkey
  split
  · exact ⟨.same rfl rfl h, fun _ => rfl⟩
  rename_i claim hget
  obtain ⟨claim', hget', rfl⟩ := (h.index requestId key).mp hkey
  rw [hget] at hget'
  cases hget'
  split
  · exact ⟨.same rfl rfl h, fun _ => rfl⟩
  rename_i hmatches
  rw [not_or, not_not, not_not] at hmatches
  refine ⟨?_, fun hno => absurd ⟨key, claim, hget, rfl, hmatches.1, hmatches.2⟩ hno⟩
  have hretired := (Actor.Kept.retire h hget).drifts (gap.drifts _)
  simp only
  split
  · split
    · rename_i fence registry hcommit
      exact quiet_of_answerAll _ hget rfl rfl (hretired.commit hcommit)
    rename_i error hcommit
    refine quiet_of_answerAll _ hget rfl rfl (hretired.commit_refused ?_ hcommit)
    -- the identities are those that the claim was opened with
    intro entry hentry
    obtain ⟨before, hbefore, hdrift⟩ := (gap.drifts _).before hentry
    obtain ⟨held, hheld, hfacts, -⟩ := h.held key claim hget
    rw [(h.minted key claim hget).1] at hbefore
    obtain rfl := Option.some.inj (hheld.symm.trans hbefore)
    exact hdrift.factsMatch hfacts
  · exact quiet_of_answerAll _ hget rfl rfl hretired.abort

end Ends

/-! ## Sweeps -/

/-- Quiet changes in a row. -/
abbrev Quiets : ActivationBroker → ActivationBroker → Prop := Relation.ReflTransGen Quiet

theorem Quiets.kept (hquiets : Quiets broker next) (h : broker.Kept) : next.Kept := by
  cases hquiets with
  | refl => exact h
  | tail _ hlast => exact hlast.kept

/-- A sweep that makes one quiet change for each element is quiet. -/
theorem quiets_foldl {α : Type}
    (change : α → ActivationBroker → Option ActivationTimeoutOutcome × ActivationBroker)
    (hchange : ∀ a broker, broker.Kept → Quiet broker (change a broker).2)
    (l : List α) (outcomes : List ActivationTimeoutOutcome) (h : broker.Kept) :
    Quiets broker (l.foldl (fun (outcomes, broker) a =>
      let (outcome, broker) := change a broker
      (outcomes ++ outcome.toList, broker)) (outcomes, broker)).2 := by
  induction l generalizing broker outcomes with
  | nil => exact .refl
  | cons a rest ih =>
    have hfirst := hchange a broker h
    exact .head hfirst (ih _ hfirst.kept)

theorem expireDeadlines_spec {now : Nat} {gaps : String → Gap} (h : broker.Kept) :
    Quiets broker (broker.expireDeadlines now gaps).2 :=
  quiets_foldl (fun requestId broker => broker.onActivationTimeout requestId (gaps requestId))
    (fun _ _ hkept => onActivationTimeout_spec hkept) _ _ h

theorem shutdown_spec {gaps : ActorLogicalKey → Gap} (h : broker.Kept) :
    Quiets broker (broker.shutdown gaps).2 := by
  have hclaims := quiets_foldl (fun key broker => broker.shutdownClaim key (gaps key))
    (fun key _ hkept => shutdownClaim_spec hkept key) broker.claims.keys [] h
  exact hclaims.tail (.same rfl rfl (hclaims.kept h))

end ActivationBroker

end Skiff.Actor
