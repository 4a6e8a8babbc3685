import Skiff.Actor.Ownership

/-!
# Ownership along a run of calls

A claim token is spent once it is committed, aborted or overtaken by a new incarnation,
and a spent token is refused for good: claim numbers are never used twice. Renewals and
releases touch the owner they name and no other.

An eviction is fenced by its request id alone. It removes the owner it was requested for
as long as no commit installs a new owner over a recorded request: `commit` does not
clear the id, so the request for an expired owner then takes its successor.
-/

namespace Skiff.Actor

open ActorOwnershipRegistry Call Run List OrdMap

namespace ActorOwnershipRegistry

/-- One call of any caller. -/
def Step (registry : ActorOwnershipRegistry) (call : Call) (next : ActorOwnershipRegistry) : Prop :=
  call.apply registry = next

/-- A commit that is about to be accepted finds no eviction request in its entry. -/
def CommitFindsNoEviction (registry : ActorOwnershipRegistry) : Call → Prop
  | .commit token facts _ _ =>
    ∀ entry ∈ registry.entries.get? token.actorKey,
      entry.reservation = some token → entry.FactsMatch facts →
      entry.evictionRequestId = none
  | _ => True

instance (registry : ActorOwnershipRegistry) :
    (call : Call) → Decidable (CommitFindsNoEviction registry call)
  | .commit token facts _ _ =>
    inferInstanceAs (Decidable (∀ entry ∈ registry.entries.get? token.actorKey,
      entry.reservation = some token → entry.FactsMatch facts → entry.evictionRequestId = none))
  | .ensurePresent .. | .reserve .. | .abort _ | .renew .. | .release .. | .expire _
  | .requestEviction .. | .acknowledgeEviction .. | .advanceIncarnation _ => .isTrue trivial

/-- A step whose commit, if it is one, does not overtake an eviction. -/
def GuardedStep (registry : ActorOwnershipRegistry) (call : Call)
    (next : ActorOwnershipRegistry) : Prop :=
  Step registry call next ∧ CommitFindsNoEviction registry call

/-- The owners of all keys. -/
def owners (registry : ActorOwnershipRegistry) : List (ActorLogicalKey × ActorOwnerFence) :=
  registry.entries.entries.filterMap fun (key, entry) => entry.owner.map fun fence => (key, fence)

/-- The reservations of all keys. -/
def reservations (registry : ActorOwnershipRegistry) : List (ActorLogicalKey × ActorClaimToken) :=
  registry.entries.entries.filterMap fun (key, entry) =>
    entry.reservation.map fun token => (key, token)

end ActorOwnershipRegistry

/-- The call would commit or abort `token`. -/
def Call.Settles (token : ActorClaimToken) : Call → Prop
  | .commit committed .. => committed = token
  | .abort aborted => aborted = token
  | _ => False

/-- The eviction id a call requests. -/
def Call.evictionId? : Call → Option String
  | .requestEviction _ request => some request
  | _ => none

/-! ## The laws of a run -/

/-- Each key has at most one owner and one reservation, a reservation stands under the key
of its token, and a key without an owner has no eviction id. -/
structure OneOwner (registry : ActorOwnershipRegistry) : Prop where
  owners : (registry.owners.map Prod.fst).Nodup
  reservations : (registry.reservations.map fun pair => pair.2.actorKey).Nodup
  eviction : ∀ key entry, registry.entries.get? key = some entry → entry.owner = none →
    entry.evictionRequestId = none

/-- No token is settled twice. -/
def SettlesOnce (calls : List Call) : Prop :=
  ∀ before first between second after token s t,
    calls = before ++ first :: (between ++ second :: after) →
    Run Step .new before s → Run Step s (first :: between) t →
    first.Settles token → first.Accepted s → second.Settles token → ¬ second.Accepted t

/-- No token is settled after the incarnation it was reserved in. -/
def SettlesInItsIncarnation (calls : List Call) : Prop :=
  ∀ before reserved between later settling after token s t u,
    calls = before ++ reserved :: (between ++
      .advanceIncarnation token.actorKey :: (later ++ settling :: after)) →
    Run Step .new before s → Run Step s (reserved :: between) t →
    Run Step t (.advanceIncarnation token.actorKey :: later) u →
    (∃ next, reserved.run s = .ok (.token token, next)) →
    (advanceIncarnation token.actorKey).Accepted t →
    settling.Settles token → ¬ settling.Accepted u

/-- The call names a fence that is not the owner of its key. -/
def Call.NamesNoOwner (registry : ActorOwnershipRegistry) : Call → Prop
  | .renew key fence .. | .release key fence _ =>
    ¬ ∃ current, registry.currentOwner key = some current ∧ current.SameOwner fence
  | _ => False

/-- Renewals and releases act on the owner they name and on no other. -/
def ActsOnItsFence (calls : List Call) : Prop :=
  ∀ before call after s, calls = before ++ call :: after → Run Step .new before s →
    call.NamesNoOwner s → ¬ call.Accepted s ∧ call.apply s = s

/-- An acknowledged eviction was requested, and it removes the owner of the time of the
request, which has been the owner ever since. -/
def EvictsItsOwner (calls : List Call) : Prop :=
  ∀ before after key request s, calls = before ++ .acknowledgeEviction key request :: after →
    Run Step .new before s → (acknowledgeEviction key request).Accepted s →
    (∃ earlier later t, before = earlier ++ .requestEviction key request :: later ∧
      Run Step .new earlier t ∧ (requestEviction key request).Accepted t) ∧
    ∀ earlier later t, before = earlier ++ .requestEviction key request :: later →
      Run Step .new earlier t → (requestEviction key request).Accepted t →
      ∃ owner, t.currentOwner key = some owner ∧
        ∀ part u, part <+: later → Run Step t (.requestEviction key request :: part) u →
          ∃ current, u.currentOwner key = some current ∧ current.SameOwner owner

namespace ActorOwnershipRegistry

variable {registry next s t u : ActorOwnershipRegistry} {call : Call} {calls : List Call}
variable {key : ActorLogicalKey} {token : ActorClaimToken} {request : String}

theorem step_functional : Functional Step := by
  rintro s call t t' rfl rfl
  rfl

theorem step_of_guardedStep (h : GuardedStep s call t) : Step s call t := h.1

/-! ## What holds of every entry -/

/-- The number of a claim was given out before. -/
def Minted (registry : ActorOwnershipRegistry) (token : ActorClaimToken) : Prop :=
  ∃ n < registry.nextClaimSeq, token.claimId = .mint n

theorem Minted.apply (h : Minted registry token) (call : Call) :
    Minted (call.apply registry) token := by
  obtain ⟨n, hlt, hclaim⟩ := h
  exact ⟨n, lt_of_lt_of_le hlt (call.nextClaimSeq_le registry), hclaim⟩

/-- Reservations stand under their own key and carry a number that was given out, and no
eviction outlives its owner. -/
structure WellKept (registry : ActorOwnershipRegistry) : Prop where
  reserved : ∀ key entry token, registry.entries.get? key = some entry →
    entry.reservation = some token → token.actorKey = key ∧ Minted registry token
  unowned : ∀ key entry, registry.entries.get? key = some entry → entry.owner = none →
    entry.evictionRequestId = none

theorem wellKept_new : WellKept .new where
  reserved := by
    intro key entry token hget
    cases hget
  unowned := by
    intro key entry hget
    cases hget

variable {entry entry' : ActorEntry}

variable {seq : Nat}

theorem Moves.reserved
    (h : Moves key seq entry call entry') (htoken : entry'.reservation = some token) :
    entry.reservation = some token ∨
      (token.actorKey = key ∧ token.claimId = .mint seq ∧ call.mints = 1) := by
  cases h with
  | reserve _ _ _ hminted =>
    cases htoken
    rw [hminted]
    exact .inr ⟨rfl, rfl, rfl⟩
  | commit | abort | advanceIncarnation => cases htoken
  | renew | release | expire | requestEviction | acknowledgeEviction => exact .inl htoken

theorem Moves.unowned (h : Moves key seq entry call entry')
    (hbefore : entry.owner = none → entry.evictionRequestId = none)
    (howner : entry'.owner = none) : entry'.evictionRequestId = none := by
  cases h with
  | reserve | abort => exact hbefore howner
  | commit | renew => cases howner
  | release | expire | acknowledgeEviction | advanceIncarnation => rfl
  | requestEviction hpresent =>
    rw [hpresent] at howner
    cases howner

theorem WellKept.apply (h : WellKept registry) (call : Call) : WellKept (call.apply registry) where
  reserved := by
    intro key entry' token hget htoken
    cases call.apply_effect registry key with
    | kept hkept =>
      obtain ⟨hkey, hminted⟩ := h.reserved key entry' token (hkept ▸ hget) htoken
      exact ⟨hkey, hminted.apply call⟩
    | created _ hcreated =>
      rw [hcreated] at hget
      cases hget
      cases htoken
    | moved hbefore hafter hmoves hseq =>
      rw [hafter] at hget
      cases hget
      obtain hsame | ⟨hkey, hclaim, hmints⟩ := Moves.reserved hmoves htoken
      · obtain ⟨hkey, hminted⟩ := h.reserved key _ token hbefore hsame
        exact ⟨hkey, hminted.apply call⟩
      · exact ⟨hkey, registry.nextClaimSeq, by omega, hclaim⟩
  unowned := by
    intro key entry' hget howner
    cases call.apply_effect registry key with
    | kept hkept => exact h.unowned key entry' (hkept ▸ hget) howner
    | created _ hcreated =>
      rw [hcreated] at hget
      cases hget
      rfl
    | moved hbefore hafter hmoves hseq =>
      rw [hafter] at hget
      cases hget
      exact Moves.unowned hmoves (h.unowned key _ hbefore) howner

theorem wellKept_run (h : Run Step .new calls registry) : WellKept registry := by
  refine invariant ?_ h wellKept_new
  rintro s call t hs rfl
  exact hs.apply call

theorem nodup_keys_filterMap {α : Type} (field : ActorEntry → Option α)
    (registry : ActorOwnershipRegistry) :
    ((registry.entries.entries.filterMap fun (key, entry) =>
      (field entry).map fun value => (key, value)).map Prod.fst).Nodup := by
  have hsub : Sublist ((registry.entries.entries.filterMap fun (key, entry) =>
      (field entry).map fun value => (key, value)).map Prod.fst) registry.entries.keys := by
    unfold OrdMap.keys
    induction registry.entries.entries with
    | nil => exact .slnil
    | cons pair rest ih =>
      cases hfield : field pair.2 with
      | none =>
        rw [filterMap_cons_none (by simp [hfield])]
        exact ih.cons _
      | some value =>
        rw [filterMap_cons_some (b := (pair.1, value)) (by simp [hfield])]
        exact ih.cons_cons _
  exact hsub.nodup registry.entries.nodup_keys

theorem WellKept.oneOwner (h : WellKept registry) : OneOwner registry where
  owners := nodup_keys_filterMap ActorEntry.owner registry
  reservations := by
    have hkeys : (registry.reservations.map fun pair => pair.2.actorKey) =
        registry.reservations.map Prod.fst := by
      apply map_congr_left
      rintro ⟨key, token⟩ hmem
      obtain ⟨⟨key', entry⟩, hentry, hpair⟩ := mem_filterMap.mp hmem
      obtain ⟨token', htoken, hpair⟩ := Option.map_eq_some_iff.mp hpair
      cases hpair
      exact (h.reserved key entry token (get?_eq_some_iff.mpr hentry) htoken).1
    rw [hkeys]
    exact nodup_keys_filterMap ActorEntry.reservation registry
  eviction := h.unowned

/-! ## Spent tokens -/

/-- The token was given out and is not reserved any more. -/
def Spent (registry : ActorOwnershipRegistry) (token : ActorClaimToken) : Prop :=
  Minted registry token ∧
    ∀ entry, registry.entries.get? token.actorKey = some entry → entry.reservation ≠ some token

/-- Nothing reserves a spent token again: a new reservation has a new number. -/
theorem Spent.apply (h : Spent registry token) (call : Call) :
    Spent (call.apply registry) token := by
  refine ⟨h.1.apply call, ?_⟩
  intro entry' hget htoken
  cases call.apply_effect registry token.actorKey with
  | kept hkept => exact h.2 entry' (hkept ▸ hget) htoken
  | created _ hcreated =>
    rw [hcreated] at hget
    cases hget
    cases htoken
  | moved hbefore hafter hmoves _ =>
    rw [hafter] at hget
    cases hget
    obtain hsame | ⟨-, hclaim, -⟩ := Moves.reserved hmoves htoken
    · exact h.2 _ hbefore hsame
    obtain ⟨n, hlt, hminted⟩ := h.1
    have hseq : n = registry.nextClaimSeq := ActorClaimId.mint_injective (hminted.symm.trans hclaim)
    omega

theorem Spent.run (hrun : Run Step s calls t) (h : Spent s token) : Spent t token := by
  refine invariant (P := fun r => Spent r token) ?_ hrun h
  rintro s call t hs rfl
  exact hs.apply call

/-- Settling a token takes its reservation away. -/
theorem settles_replaces (hsettles : call.Settles token) (haccepted : call.Accepted registry) :
    ∃ entry entry', registry.entries.get? token.actorKey = some entry ∧
      entry.reservation = some token ∧ entry'.reservation = none ∧
      (call.apply registry).entries.get? token.actorKey = some entry' := by
  obtain ⟨reply, next, hrun⟩ := haccepted
  rw [apply_of_run hrun]
  cases call with
  | commit committed facts now ttl =>
    obtain rfl : committed = token := hsettles
    obtain ⟨entry, entry', hget, hmoves, rfl⟩ := run_replaces hrun rfl
    cases hmoves with
    | commit _ hreserved _ => exact ⟨entry, _, hget, hreserved, rfl, get?_insert_self _ _ _⟩
  | abort aborted =>
    obtain rfl : aborted = token := hsettles
    obtain ⟨entry, entry', hget, hmoves, rfl⟩ := run_replaces hrun rfl
    cases hmoves with
    | abort _ hreserved => exact ⟨entry, _, hget, hreserved, rfl, get?_insert_self _ _ _⟩
  | _ => cases hsettles

theorem Spent.not_accepted (h : Spent registry token) (hsettles : call.Settles token) :
    ¬ call.Accepted registry := by
  intro haccepted
  obtain ⟨entry, -, hget, hreserved, -⟩ := settles_replaces hsettles haccepted
  exact h.2 entry hget hreserved

theorem spent_of_settles (h : WellKept registry) (hsettles : call.Settles token)
    (haccepted : call.Accepted registry) : Spent (call.apply registry) token := by
  obtain ⟨entry, entry', hget, hreserved, hnone, hafter⟩ := settles_replaces hsettles haccepted
  refine ⟨(h.reserved _ entry token hget hreserved).2.apply call, ?_⟩
  intro entry'' hget'' htoken
  rw [hafter] at hget''
  cases hget''
  rw [hnone] at htoken
  cases htoken

theorem settlesOnce (calls : List Call) : SettlesOnce calls := by
  intro before first between second after token s t _ hbefore hbetween hfirst haccepted hsecond
  obtain ⟨_, rfl, hrest⟩ := cons_iff.mp hbetween
  have hspent := spent_of_settles (wellKept_run hbefore) hfirst haccepted
  exact (hspent.run hrest).not_accepted hsecond

theorem minted_of_reserve {reply : Reply} (h : call.run registry = .ok (reply, next))
    (htoken : reply = .token token) : Minted (call.apply registry) token := by
  rw [apply_of_run h]
  cases call with
  | reserve =>
    obtain ⟨minted, hreserve, hreply⟩ := map_map_eq_ok h
    obtain ⟨⟨entry, entry', -, -, rfl⟩, hmint⟩ := replaces_reserve hreserve
    rw [htoken] at hreply
    cases hreply
    exact ⟨registry.nextClaimSeq, Nat.lt_succ_self _, by rw [hmint]; rfl⟩
  | ensurePresent | expire =>
    cases h
    cases htoken
  | commit | abort | renew | release | requestEviction | acknowledgeEviction | advanceIncarnation =>
    obtain ⟨answer, -, hreply⟩ := map_map_eq_ok h
    rw [htoken] at hreply
    cases hreply

theorem spent_of_advance (hminted : Minted registry token)
    (haccepted : (Call.advanceIncarnation token.actorKey).Accepted registry) :
    Spent ((Call.advanceIncarnation token.actorKey).apply registry) token := by
  refine ⟨hminted.apply _, ?_⟩
  obtain ⟨reply, next, hrun⟩ := haccepted
  obtain ⟨entry, entry', -, hmoves, rfl⟩ := run_replaces hrun rfl
  rw [apply_of_run hrun]
  cases hmoves with
  | advanceIncarnation =>
    intro entry' hget htoken
    rw [get?_insert_self] at hget
    cases hget
    cases htoken

theorem settlesInItsIncarnation (calls : List Call) : SettlesInItsIncarnation calls := by
  intro before reserved between later settling after token s t u _ _ hbetween hlater hreserved
    hadvanced hsettling
  obtain ⟨_, rfl, hbetween⟩ := cons_iff.mp hbetween
  obtain ⟨_, rfl, hlater⟩ := cons_iff.mp hlater
  obtain ⟨next, hreserved⟩ := hreserved
  have hminted : Minted t token := by
    refine invariant (P := fun r => Minted r token) ?_ hbetween (minted_of_reserve hreserved rfl)
    rintro s call t hs rfl
    exact hs.apply call
  exact ((spent_of_advance hminted hadvanced).run hlater).not_accepted hsettling

/-! ## Renewals and releases -/

theorem apply_of_not_accepted (h : ¬ call.Accepted registry) : call.apply registry = registry := by
  unfold apply
  cases hrun : call.run registry with
  | error => rfl
  | ok result => exact absurd ⟨result.1, result.2, hrun⟩ h

theorem actsOnItsFence (calls : List Call) : ActsOnItsFence calls := by
  intro before call after s _ _ hnames
  have hrefused : ¬ call.Accepted s := by
    rintro ⟨reply, next, hrun⟩
    cases call with
    | renew =>
      obtain ⟨entry, entry', hget, hmoves, -⟩ := run_replaces hrun rfl
      cases hmoves with
      | renew howner hsame _ => exact hnames ⟨_, by simp [currentOwner, hget, howner], hsame⟩
    | release =>
      obtain ⟨entry, entry', hget, hmoves, -⟩ := run_replaces hrun rfl
      cases hmoves with
      | release howner hsame => exact hnames ⟨_, by simp [currentOwner, hget, howner], hsame⟩
    | _ => exact hnames
  exact ⟨hrefused, apply_of_not_accepted hrefused⟩

/-! ## Evictions -/

/-- The eviction `request` of `key` is recorded, and its owner is still `owner`. -/
def Evicting (registry : ActorOwnershipRegistry) (key : ActorLogicalKey) (request : String)
    (owner : ActorOwnerFence) : Prop :=
  ∃ entry current, registry.entries.get? key = some entry ∧
    entry.evictionRequestId = some request ∧ entry.owner = some current ∧ current.SameOwner owner

/-- The eviction `request` is not the recorded one. -/
def Lost (registry : ActorOwnershipRegistry) (key : ActorLogicalKey) (request : String) : Prop :=
  ∀ entry, registry.entries.get? key = some entry → entry.evictionRequestId ≠ some request

variable {owner : ActorOwnerFence}

/-- Only its own request records an eviction id. -/
theorem Moves.evictionRequestId (h : Moves key seq entry call entry')
    (hrequest : entry'.evictionRequestId = some request) :
    entry.evictionRequestId = some request ∨ call = .requestEviction key request := by
  cases h with
  | requestEviction =>
    cases hrequest
    exact .inr rfl
  | reserve | commit | abort | renew => exact .inl hrequest
  | release | expire | acknowledgeEviction | advanceIncarnation => cases hrequest

theorem Lost.apply (h : Lost registry key request) (hcall : call.evictionId? ≠ some request) :
    Lost (call.apply registry) key request := by
  intro entry' hget hrequest
  cases call.apply_effect registry key with
  | kept hkept => exact h entry' (hkept ▸ hget) hrequest
  | created _ hcreated =>
    rw [hcreated] at hget
    cases hget
    cases hrequest
  | moved hbefore hafter hmoves _ =>
    rw [hafter] at hget
    cases hget
    obtain hsame | rfl := Moves.evictionRequestId hmoves hrequest
    · exact h _ hbefore hsame
    · exact hcall rfl

/-- While an eviction is recorded its owner stays, commits over it apart. -/
theorem Moves.evicting {current : ActorOwnerFence} (h : Moves key seq entry call entry')
    (hclear : ∀ token facts now ttl, call = .commit token facts now ttl →
      entry.evictionRequestId = none) (hrequest : entry'.evictionRequestId = some request)
    (hrecorded : entry.evictionRequestId = some request)
    (howner : entry.owner = some current) (hsame : current.SameOwner owner) :
    ∃ current', entry'.owner = some current' ∧ current'.SameOwner owner := by
  cases h with
  | reserve | abort | requestEviction => exact ⟨current, howner, hsame⟩
  | renew hpresent _ _ =>
    rw [howner] at hpresent
    cases hpresent
    exact ⟨_, rfl, hsame ▸ rfl⟩
  | commit =>
    rw [hclear _ _ _ _ rfl] at hrecorded
    cases hrecorded
  | release | expire | acknowledgeEviction | advanceIncarnation => cases hrequest

theorem Evicting.apply (h : Evicting registry key request owner)
    (hguard : CommitFindsNoEviction registry call) (hcall : call.evictionId? ≠ some request) :
    Evicting (call.apply registry) key request owner ∨ Lost (call.apply registry) key request := by
  obtain ⟨entry, current, hget, hrecorded, howner, hsame⟩ := h
  cases call.apply_effect registry key with
  | kept hkept => exact .inl ⟨entry, current, hkept.trans hget, hrecorded, howner, hsame⟩
  | created habsent _ =>
    rw [hget] at habsent
    cases habsent
  | @moved _ before after hbefore hafter hmoves _ =>
    rw [hget] at hbefore
    cases hbefore
    by_cases hrequest : after.evictionRequestId = some request
    · have hclear : ∀ token facts now ttl, call = .commit token facts now ttl →
          entry.evictionRequestId = none := by
        rintro token facts now ttl rfl
        cases hmoves with
        | commit hkey hreserved hfacts => exact hguard entry (hkey ▸ hget) hreserved hfacts
      obtain ⟨current', howner', hsame'⟩ :=
        Moves.evicting hmoves hclear hrequest hrecorded howner hsame
      exact .inl ⟨after, current', hafter, hrequest, howner', hsame'⟩
    refine .inr ?_
    intro entry' hget' hrequest'
    rw [hafter] at hget'
    cases hget'
    exact hrequest hrequest'

theorem Lost.run (hrun : Run GuardedStep s calls t)
    (hcalls : ∀ call ∈ calls, call.evictionId? ≠ some request) (h : Lost s key request) :
    Lost t key request := by
  induction hrun with
  | nil => exact h
  | cons hstep _ ih =>
    obtain ⟨rfl, -⟩ := hstep
    exact ih (fun call hmem => hcalls call (.tail _ hmem)) (h.apply (hcalls _ (.head _)))

theorem Evicting.run (hrun : Run GuardedStep s calls t)
    (hcalls : ∀ call ∈ calls, call.evictionId? ≠ some request) (h : Evicting s key request owner) :
    Evicting t key request owner ∨ Lost t key request := by
  induction hrun with
  | nil => exact .inl h
  | cons hstep hrest ih =>
    obtain ⟨rfl, hguard⟩ := hstep
    have hrestCalls := fun call hmem => hcalls call (.tail _ hmem)
    obtain hevicting | hlost := h.apply hguard (hcalls _ (.head _))
    · exact ih hrestCalls hevicting
    · exact .inr (hlost.run hrest hrestCalls)

theorem accepted_requestEviction {entry : ActorEntry}
    (hget : registry.entries.get? key = some entry) (howner : entry.owner = some owner) :
    (Call.requestEviction key request).Accepted registry := by
  refine ⟨.done, { registry with
    entries := registry.entries.insert key { entry with evictionRequestId := some request } }, ?_⟩
  simp [Call.run, ActorOwnershipRegistry.requestEviction, updateEntry, hget,
    ActorEntry.requestEviction, howner, bind, Except.bind, Except.map, pure, Except.pure]

/-- A recorded eviction was requested before. -/
theorem requested_of_recorded {entry : ActorEntry} (hrun : Run Step .new calls registry)
    (hget : registry.entries.get? key = some entry)
    (hrecorded : entry.evictionRequestId = some request) :
    ∃ earlier later t, calls = earlier ++ .requestEviction key request :: later ∧
      Run Step .new earlier t ∧ (Call.requestEviction key request).Accepted t := by
  refine history (P := fun calls registry => ∀ entry,
    registry.entries.get? key = some entry → entry.evictionRequestId = some request →
    ∃ earlier later t, calls = earlier ++ .requestEviction key request :: later ∧
      Run Step .new earlier t ∧ (Call.requestEviction key request).Accepted t)
    ?_ ?_ hrun entry hget hrecorded
  · intro entry hget
    cases hget
  rintro calls s call t hbefore ih rfl entry' hget' hrecorded'
  have hextend : (∃ entry, s.entries.get? key = some entry ∧
        entry.evictionRequestId = some request) →
      ∃ earlier later t, calls ++ [call] = earlier ++ .requestEviction key request :: later ∧
        Run Step .new earlier t ∧ (Call.requestEviction key request).Accepted t := by
    rintro ⟨entry, hget, hrecorded⟩
    obtain ⟨earlier, later, t, rfl, hearlier, haccepted⟩ := ih entry hget hrecorded
    exact ⟨earlier, later ++ [call], t, by simp, hearlier, haccepted⟩
  cases call.apply_effect s key with
  | kept hkept => exact hextend ⟨entry', hkept ▸ hget', hrecorded'⟩
  | created _ hcreated =>
    rw [hcreated] at hget'
    cases hget'
    cases hrecorded'
  | moved hpresent hafter hmoves _ =>
    rw [hafter] at hget'
    cases hget'
    obtain hsame | rfl := Moves.evictionRequestId hmoves hrecorded'
    · exact hextend ⟨_, hpresent, hsame⟩
    cases hmoves with
    | requestEviction howner =>
      exact ⟨calls, [], s, rfl, hbefore, accepted_requestEviction hpresent howner⟩

theorem recorded_of_acknowledge (h : (Call.acknowledgeEviction key request).Accepted registry) :
    ∃ entry, registry.entries.get? key = some entry ∧ entry.evictionRequestId = some request := by
  obtain ⟨reply, next, hrun⟩ := h
  obtain ⟨entry, entry', hget, hmoves, -⟩ := run_replaces hrun rfl
  cases hmoves with
  | acknowledgeEviction _ hrecorded => exact ⟨entry, hget, hrecorded⟩

theorem evicting_of_request (h : (Call.requestEviction key request).Accepted registry) :
    ∃ owner, registry.currentOwner key = some owner ∧
      Evicting ((Call.requestEviction key request).apply registry) key request owner := by
  obtain ⟨reply, next, hrun⟩ := h
  rw [apply_of_run hrun]
  obtain ⟨entry, entry', hget, hmoves, rfl⟩ := run_replaces hrun rfl
  cases hmoves with
  | requestEviction howner =>
    exact ⟨_, by simp [currentOwner, hget, howner], _, _, get?_insert_self _ _ _, rfl,
      howner, .refl _⟩

theorem Evicting.currentOwner (h : Evicting registry key request owner) :
    ∃ current, registry.currentOwner key = some current ∧ current.SameOwner owner := by
  obtain ⟨entry, current, hget, -, howner, hsame⟩ := h
  exact ⟨current, by simp [ActorOwnershipRegistry.currentOwner, hget, howner], hsame⟩

/-- A fresh eviction id is requested once. -/
theorem not_requested_again {earlier later after : List Call}
    (hfresh : ((earlier ++ .requestEviction key request :: (later ++ after)).filterMap
      evictionId?).Nodup) :
    ∀ call ∈ later, call.evictionId? ≠ some request := by
  intro call hmem hid
  have hid' : (Call.requestEviction key request).evictionId? = some request := rfl
  rw [filterMap_append, filterMap_cons_some hid'] at hfresh
  have hnot := (nodup_cons.mp (nodup_append.mp hfresh).2.1).1
  exact hnot (mem_filterMap.mpr ⟨call, mem_append_left _ hmem, hid⟩)

theorem evictsItsOwner (hrun : Run GuardedStep .new calls registry)
    (hfresh : (calls.filterMap Call.evictionId?).Nodup) : EvictsItsOwner calls := by
  rintro before after key request s rfl hbefore hack
  obtain ⟨entry, hget, hrecorded⟩ := recorded_of_acknowledge hack
  refine ⟨requested_of_recorded hbefore hget hrecorded, ?_⟩
  rintro earlier later t rfl hearlier hrequest
  rw [append_assoc, cons_append] at hfresh hrun
  have hlater := not_requested_again hfresh
  obtain ⟨t', ht', hrest⟩ := append_iff.mp hrun
  obtain rfl := functional step_functional hearlier (ht'.mono step_of_guardedStep)
  obtain ⟨_, ⟨rfl, -⟩, hrest⟩ := cons_iff.mp hrest
  obtain ⟨s', hs', -⟩ := append_iff.mp hrest
  have hs : s' = s := by
    obtain ⟨t', ht', hs⟩ := append_iff.mp hbefore
    obtain rfl := functional step_functional hearlier ht'
    exact functional step_functional (.cons rfl (hs'.mono step_of_guardedStep)) hs
  subst hs
  obtain ⟨owner, howner, hevicting⟩ := evicting_of_request hrequest
  refine ⟨owner, howner, ?_⟩
  rintro part u ⟨rest, rfl⟩ hpart
  obtain ⟨_, rfl, hpart⟩ := cons_iff.mp hpart
  obtain ⟨u', hu', hrest'⟩ := append_iff.mp hs'
  obtain rfl := functional step_functional hpart (hu'.mono step_of_guardedStep)
  -- an id that is lost in between is not recorded when the answer comes
  obtain hstill | hlost := hevicting.run hu' fun call hmem => hlater call (by simp [hmem])
  · exact hstill.currentOwner
  exact absurd hrecorded
    (hlost.run hrest' (fun call hmem => hlater call (by simp [hmem])) entry hget)

/-- The registry keeps one owner for each key along every run in which no commit overtakes a
recorded eviction. -/
theorem owners_fenced (hrun : Run GuardedStep .new calls registry)
    (hfresh : (calls.filterMap evictionId?).Nodup) :
    OneOwner registry ∧ SettlesOnce calls ∧ SettlesInItsIncarnation calls ∧
      ActsOnItsFence calls ∧ EvictsItsOwner calls :=
  ⟨(wellKept_run (hrun.mono step_of_guardedStep)).oneOwner, settlesOnce calls,
    settlesInItsIncarnation calls, actsOnItsFence calls, evictsItsOwner hrun hfresh⟩

/-- The registry after a list of calls. -/
def after (calls : List Call) : ActorOwnershipRegistry :=
  calls.foldl (fun registry call => call.apply registry) .new

theorem run_after (calls : List Call) : Run Step .new calls (after calls) :=
  of_foldl (fun registry (call : Call) => call.apply registry) .new calls

section Overtaken

def sessionKey : ActorLogicalKey :=
  ⟨"svc.session", "SessionActor", "string", "v1", "base64:user-1", "sha256:user-1"⟩

def sessionFacts (ownerLeaseId : String) : CommitFenceFacts where
  actorAbiIdentity := ⟨"skiff-actor-runtime-abi-v1"⟩
  actorImplementationIdentity := ⟨"impl-v1"⟩
  declarationOwner := ⟨.service, .fileIrIdentity "file-ir-v1", "SessionActor"⟩
  ownerLeaseId := ownerLeaseId

def sessionToken (seq : Nat) (ownerRuntimeId : String) : ActorClaimToken :=
  ⟨.mint seq, sessionKey, 1, ownerRuntimeId, ⟨"sha256:build-v1"⟩⟩

/-- `runtime-a` owns the session until its lease ends at 10. -/
def ownedCalls : List Call :=
  [ .ensurePresent sessionKey ⟨"skiff-actor-runtime-abi-v1"⟩ ⟨"impl-v1"⟩
      ⟨.service, .fileIrIdentity "file-ir-v1", "SessionActor"⟩ [],
    .reserve sessionKey 1 "runtime-a" ⟨"sha256:build-v1"⟩ 0,
    .commit (sessionToken 0 "runtime-a") (sessionFacts "owner-lease-1") 0 10 ]

/-- Its lease has run out and `runtime-b` is about to take over when the eviction of the
session is requested. -/
def overtakenCalls : List Call :=
  ownedCalls ++
    [ .reserve sessionKey 1 "runtime-b" ⟨"sha256:build-v1"⟩ 20,
      .requestEviction sessionKey "evict-1",
      .commit (sessionToken 1 "runtime-b") (sessionFacts "owner-lease-2") 20 10 ]

/-- The request made for `runtime-a` removes `runtime-b`. -/
theorem eviction_takes_successor :
    ((overtakenCalls ++ [Call.acknowledgeEviction sessionKey "evict-1"]).filterMap
      Call.evictionId?).Nodup ∧
    ¬ EvictsItsOwner (overtakenCalls ++ [.acknowledgeEviction sessionKey "evict-1"]) := by
  refine ⟨by decide, ?_⟩
  intro hevicts
  have hack : (Call.acknowledgeEviction sessionKey "evict-1").Accepted (after overtakenCalls) :=
    ⟨.done, _, rfl⟩
  obtain ⟨-, hforall⟩ := hevicts overtakenCalls [] _ _ _ rfl (run_after overtakenCalls) hack
  have hrequest : (Call.requestEviction sessionKey "evict-1").Accepted
      (after (ownedCalls ++ [.reserve sessionKey 1 "runtime-b" ⟨"sha256:build-v1"⟩ 20])) :=
    ⟨.done, _, rfl⟩
  obtain ⟨owner, howner, hstays⟩ := hforall _ _ _ rfl (run_after _) hrequest
  obtain ⟨current, hcurrent, hsame⟩ := hstays _ _ (prefix_refl _) (.cons rfl (.cons rfl (.nil _)))
  have hruntime : (after overtakenCalls).currentOwner sessionKey = some current := hcurrent
  have ha : ((after (ownedCalls ++ [.reserve sessionKey 1 "runtime-b" ⟨"sha256:build-v1"⟩
      20])).currentOwner sessionKey).map ActorOwnerFence.ownerRuntimeId = some "runtime-a" := by
    decide
  have hb : ((after overtakenCalls).currentOwner sessionKey).map
      ActorOwnerFence.ownerRuntimeId = some "runtime-b" := by
    decide
  rw [howner, Option.map_some] at ha
  rw [hruntime, Option.map_some, hsame] at hb
  have heq : some "runtime-a" = some "runtime-b" := ha.symm.trans hb
  exact absurd heq (by decide)

/-- Without a successor the request is answered by the owner it was made for. -/
theorem owners_fenced_evicted :
    EvictsItsOwner (ownedCalls ++
      [Call.requestEviction sessionKey "evict-1", .acknowledgeEviction sessionKey "evict-1"]) := by
  have hrun : Run GuardedStep .new (ownedCalls ++
      [Call.requestEviction sessionKey "evict-1", .acknowledgeEviction sessionKey "evict-1"]) _ :=
    .cons ⟨rfl, by decide⟩ (.cons ⟨rfl, by decide⟩ (.cons ⟨rfl, by decide⟩
      (.cons ⟨rfl, by decide⟩ (.cons ⟨rfl, by decide⟩ (.nil _)))))
  exact (owners_fenced hrun (by decide)).2.2.2.2

end Overtaken

end ActorOwnershipRegistry
end Skiff.Actor
