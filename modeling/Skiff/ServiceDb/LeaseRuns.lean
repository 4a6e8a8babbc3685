import Skiff.Data.Run
import Skiff.ServiceDb.LeaseWrites
import Skiff.ServiceDb.CascadeReads

/-!
# What a lease excludes

Along a run of one record, a claim that succeeded holds its slot until its expiry, as
moved by its renewals, or its release. The other claims of the slot wait for that, and
the writes guarded by the hold go through while its lease is stored and live.

`heldUntil` and `lastClaim` read the history of a run, `Kept` ties them to the stored
leases, and `Lawful` is what the next step then has to respect. The runs are those in
which no replacement drops the leases of the record.
-/

namespace Skiff.ServiceDb

open List.Subset OrdMap List Option

namespace LeaseState

variable {ρ κ : Type}

/-! ## The history of a run -/

/-- The slot, token and expiry of a claim that succeeded. -/
def claimOf : LeaseEvent ρ κ × LeaseReply ρ κ → Option (String × String × Int)
  | (.claim slot _ _ token _, .claimed expiresAtMs) => some (slot, token, expiresAtMs)
  | _ => none

/-- The slot, token and new expiry of a renewal that succeeded. -/
def renewalOf : LeaseEvent ρ κ × LeaseReply ρ κ → Option (String × String × Int)
  | (_, .renewed slot token expiresAtMs) => some (slot, token, expiresAtMs)
  | _ => none

def releaseOf : LeaseEvent ρ κ × LeaseReply ρ κ → Option (String × String)
  | (.release slot token, _) => some (slot, token)
  | _ => none

def holdAfter (slot token : String) (held : Option Int)
    (label : LeaseEvent ρ κ × LeaseReply ρ κ) : Option Int :=
  match (claimOf label).or (renewalOf label), releaseOf label with
  | some (slot', token', expiresAtMs), _ =>
    if slot' = slot ∧ token' = token then some expiresAtMs else held
  | none, some (slot', token') => if slot' = slot ∧ token' = token then none else held
  | none, none => held

/-- Until when the token's claim of the slot holds: the expiry of its last claim or
renewal, unless it was released since. -/
def heldUntil (slot token : String) (labels : List (LeaseEvent ρ κ × LeaseReply ρ κ)) :
    Option Int :=
  labels.foldl (holdAfter slot token) none

def claimAfter (slot : String) (last : Option String)
    (label : LeaseEvent ρ κ × LeaseReply ρ κ) : Option String :=
  match claimOf label with
  | some (slot', token, _) => if slot' = slot then some token else last
  | none => last

/-- The token of the last claim of the slot that succeeded. -/
def lastClaim (slot : String) (labels : List (LeaseEvent ρ κ × LeaseReply ρ κ)) : Option String :=
  labels.foldl (claimAfter slot) none

def Claimed (slot token : String) (labels : List (LeaseEvent ρ κ × LeaseReply ρ κ)) : Prop :=
  ∃ label ∈ labels, ∃ expiresAtMs, claimOf label = some (slot, token, expiresAtMs)

variable {slot token : String} {labels : List (LeaseEvent ρ κ × LeaseReply ρ κ)}
  {label : LeaseEvent ρ κ × LeaseReply ρ κ}

theorem heldUntil_snoc : heldUntil slot token (labels ++ [label]) =
    holdAfter slot token (heldUntil slot token labels) label := by
  rw [heldUntil, foldl_append]
  rfl

theorem lastClaim_snoc : lastClaim slot (labels ++ [label]) =
    claimAfter slot (lastClaim slot labels) label := by
  rw [lastClaim, foldl_append]
  rfl

theorem lastClaim_of_not_claim (h : claimOf label = none) :
    lastClaim slot (labels ++ [label]) = lastClaim slot labels := by
  rw [lastClaim_snoc, claimAfter, h]

theorem Claimed.of_not_claim (hlabel : claimOf label = none)
    (h : Claimed slot token (labels ++ [label])) : Claimed slot token labels := by
  obtain ⟨other, hmem, expiresAtMs, hother⟩ := h
  obtain hmem | hmem := mem_append.mp hmem
  · exact ⟨other, hmem, expiresAtMs, hother⟩
  rw [mem_singleton.mp hmem, hlabel] at hother
  cases hother

/-- The replies that hand out nothing and commit nothing. -/
def isQuiet : LeaseReply ρ κ → Bool
  | .claimed _ | .renewed _ _ _ | .committed _ => false
  | _ => true

variable {event : LeaseEvent ρ κ} {reply : LeaseReply ρ κ}

theorem claimOf_of_quiet (h : isQuiet reply = true) : claimOf (event, reply) = none := by
  cases reply with
  | claimed expiresAtMs => cases h
  | _ => cases event <;> rfl

theorem renewalOf_of_quiet (h : isQuiet reply = true) : renewalOf (event, reply) = none := by
  cases reply with
  | renewed slot token expiresAtMs => cases h
  | _ => rfl

/-! ## The laws -/

/-- The holds an event commits under, with the reading of the check. -/
def finishes [DecidableEq κ] (site : Site ρ κ) : LeaseEvent ρ κ → List (DbLeaseHold κ × Int)
  | .write call => site.finishes call
  | .transaction _ holds finishNow _ =>
    (site.ownGuards holds).map fun hold => (hold, finishNow hold)
  | _ => []

def isBusinessWrite : LeaseEvent ρ κ → Bool
  | .write _ | .upsert _ | .transaction _ _ _ _ => true
  | _ => false

/-- What a step after the history `labels` respects. A claim succeeds when every other
hold of the slot is over, and if that hold is the latest one, the claim's own reading
says so. A write guarded by a hold that was claimed commits while that hold's lease is
stored and live, at the reading of its filter and at that of the check before the
commit. And no business write changes the stored leases. -/
structure Lawful [DecidableEq κ] (site : Site ρ κ) (labels : List (LeaseEvent ρ κ × LeaseReply ρ κ))
    (s : LeaseState ρ κ) (label : LeaseEvent ρ κ × LeaseReply ρ κ) (t : LeaseState ρ κ) : Prop where
  excluded : ∀ slot owner requestId token nowMs expiresAtMs,
    label = (.claim slot owner requestId token nowMs, .claimed expiresAtMs) →
    ∀ other e, heldUntil slot other labels = some e →
      e ≤ s.clock ∧ (lastClaim slot labels = some other → e ≤ nowMs)
  guarded : ∀ hits, label.2 = .committed hits → ∀ call ∈ hits,
    ∀ guard ∈ site.ownGuards call.guards, Claimed guard.slot guard.token labels →
      leaseLive s.leases guard.slot guard.token call.guardNow = true
  finished : ∀ hits, label.2 = .committed hits → ∀ finish ∈ finishes site label.1,
    leaseLive s.leases finish.1.slot finish.1.token finish.2 = true
  unchanged : isBusinessWrite label.1 = true → t.leases = s.leases

/-- The event is no replacement that drops a lease. -/
def Carries [DecidableEq κ] (site : Site ρ κ) (s : LeaseState ρ κ) : LeaseEvent ρ κ → Prop
  | .write call => site.Carries call s.record
  | .transaction calls _ _ _ => site.CarriesAll calls s.record
  | _ => True

def CarryingStep [DecidableEq κ] (site : Site ρ κ) (s : LeaseState ρ κ)
    (label : LeaseEvent ρ κ × LeaseReply ρ κ) (t : LeaseState ρ κ) : Prop :=
  Step site s label t ∧ s.Carries site label.1

/-! ## What holds along a run -/

/-- The stored leases against the history: a stored lease is that of the last claim and
expires before its maximum; a hold is stored with its expiry, or over and superseded;
and the calls in flight know the right maximum and what they prepared. -/
structure Kept (site : Site ρ κ) (labels : List (LeaseEvent ρ κ × LeaseReply ρ κ))
    (s : LeaseState ρ κ) : Prop where
  stored : ∀ slot lease, s.leases.get? slot = some lease →
    lastClaim slot labels = some lease.token ∧
      ∀ max, lease.maxExpiresAtMs = some max → lease.expiresAtMs ≤ max
  held : ∀ slot token e, heldUntil slot token labels = some e →
    (∃ lease, s.leases.get? slot = some lease ∧ lease.token = token ∧ lease.expiresAtMs = e) ∨
      e ≤ s.clock ∧ lastClaim slot labels ≠ some token
  renewals : ∀ renewal ∈ s.renewals, renewal.token ∈ s.issued ∧
    ∀ lease, s.leases.get? renewal.slot = some lease → lease.token = renewal.token →
      lease.maxExpiresAtMs = renewal.maxExpiresAtMs
  upserts : ∀ pending ∈ s.upserts,
    site.prepare pending.call = .ok (.upsert pending.insert pending.update)
  present : ∀ slot token, Claimed slot token labels → s.record ≠ none

/-- Beside the record: time and tokens only grow, and new calls in flight know as much. -/
structure Advances (site : Site ρ κ) (s t : LeaseState ρ κ) : Prop where
  clock : s.clock ≤ t.clock
  issued : s.issued ⊆ t.issued
  renewals : ∀ renewal ∈ t.renewals, renewal ∈ s.renewals ∨ renewal.token ∈ t.issued ∧
    ∀ lease, s.leases.get? renewal.slot = some lease → lease.token = renewal.token →
      lease.maxExpiresAtMs = renewal.maxExpiresAtMs
  upserts : ∀ pending ∈ t.upserts, pending ∈ s.upserts ∨
    site.prepare pending.call = .ok (.upsert pending.insert pending.update)

theorem Advances.refl {site : Site ρ κ} (s : LeaseState ρ κ) : Advances site s s :=
  ⟨le_rfl, List.Subset.refl _, fun _ => .inl, fun _ => .inl⟩

namespace Kept

variable {site : Site ρ κ} {s t : LeaseState ρ κ}

theorem initial (clock : Int) : Kept site [] (LeaseState.initial clock) := by
  refine ⟨?_, ?_, ?_, ?_, ?_⟩
  · intro slot lease hlease
    cases hlease
  · intro slot token e hheld
    cases hheld
  · intro renewal hmem
    cases hmem
  · intro pending hmem
    cases hmem
  rintro slot token ⟨label, hmem, -⟩
  cases hmem

/-- A step that is no claim and no renewal and leaves the leases alone. -/
theorem frame (h : Kept site labels s) (hclaim : claimOf label = none)
    (hrenewal : renewalOf label = none) (hleases : t.leases = s.leases)
    (hadvances : Advances site s t) (hpresent : s.record ≠ none → t.record ≠ none) :
    Kept site (labels ++ [label]) t := by
  refine ⟨?_, ?_, ?_, ?_, ?_⟩
  · intro slot lease hlease
    rw [hleases] at hlease
    rw [lastClaim_of_not_claim hclaim]
    exact h.stored slot lease hlease
  · intro slot token e hheld
    -- a release can only end a hold
    have hbefore : heldUntil slot token labels = some e := by
      rw [heldUntil_snoc, holdAfter, hclaim, hrenewal, or_none] at hheld
      split at hheld
      case h_1 heq => cases heq
      · split at hheld
        · cases hheld
        · exact hheld
      · exact hheld
    rw [hleases, lastClaim_of_not_claim hclaim]
    obtain hstored | ⟨hover, hlast⟩ := h.held slot token e hbefore
    · exact .inl hstored
    · exact .inr ⟨hover.trans hadvances.clock, hlast⟩
  · intro renewal hmem
    rw [hleases]
    obtain hmem | hnew := hadvances.renewals renewal hmem
    · obtain ⟨htoken, hmax⟩ := h.renewals renewal hmem
      exact ⟨hadvances.issued htoken, hmax⟩
    · exact hnew
  · intro pending hmem
    exact (hadvances.upserts pending hmem).elim (h.upserts pending) id
  intro slot token hclaimed
  exact hpresent (h.present slot token (hclaimed.of_not_claim hclaim))

end Kept

/-! ## What the steps do -/

variable {site : Site ρ κ} {s t : LeaseState ρ κ} {reply : LeaseReply ρ κ}

theorem leaseClaimExpiresAtMs_le {nowMs max : Int} {ttlMs : Nat} {maxExpiresAtMs : Option Int}
    (h : maxExpiresAtMs = some max) : leaseClaimExpiresAtMs nowMs ttlMs maxExpiresAtMs ≤ max := by
  subst h
  exact min_le_right _ _

variable {lease : DbLease} {nowMs : Int} {slots : OrdMap String DbLease} {owner requestId : String}
variable {index : Nat}

/-- An available slot has no lease, or one that has expired. -/
theorem expires_le_of_available
    (h : leaseAvailable slots slot nowMs = true) (hlease : slots.get? slot = some lease)
    (hmax : ∀ max, lease.maxExpiresAtMs = some max → lease.expiresAtMs ≤ max) :
    lease.expiresAtMs ≤ nowMs := by
  rw [leaseAvailable, hlease] at h
  simp only [Bool.or_eq_true, decide_eq_true_eq, Option.any_eq_true] at h
  obtain h | ⟨max, hsome, hover⟩ := h
  · exact h
  · exact (hmax max hsome).trans hover

theorem claim_cases (h : s.claim site slot owner requestId token nowMs = (t, reply)) :
    (∃ record lease, s.record = some record ∧ leaseAvailable s.leases slot nowMs = true ∧
      lease.token = token ∧
      (∀ max, lease.maxExpiresAtMs = some max → lease.expiresAtMs ≤ max) ∧
      reply = .claimed lease.expiresAtMs ∧
      t = { s with
        record := some (record.setLeases (record.leases.insert slot lease))
        issued := token :: s.issued }) ∨
    isQuiet reply = true ∧ ∃ issued, s.issued ⊆ issued ∧ t = { s with issued := issued } := by
  unfold claim at h
  split at h
  · cases h
    exact .inr ⟨rfl, s.issued, refl _, rfl⟩
  · cases h
    exact .inr ⟨rfl, s.issued, refl _, rfl⟩
  case h_3 declared record _ hrecord =>
    split at h
    case isTrue havailable =>
      cases h
      refine .inl ⟨record, _, hrecord, ?_, rfl, ?_, rfl, rfl⟩
      · rw [leases, hrecord]
        exact havailable
      intro max hmax
      exact leaseClaimExpiresAtMs_le hmax
    · cases h
      exact .inr ⟨rfl, _, subset_cons_self _ _, rfl⟩

theorem renewRead_cases (h : s.renewRead site slot token nowMs = (t, reply)) :
    isQuiet reply = true ∧ (t = s ∨ ∃ renewal : Renewal, renewal.token = token ∧
      (∀ lease, s.leases.get? renewal.slot = some lease → lease.token = token →
        lease.maxExpiresAtMs = renewal.maxExpiresAtMs) ∧
      t = { s with renewals := s.renewals ++ [renewal] }) := by
  unfold renewRead at h
  split at h
  · cases h
    exact ⟨rfl, .inl rfl⟩
  dsimp only at h
  split at h
  · cases h
    exact ⟨rfl, .inl rfl⟩
  cases h
  refine ⟨rfl, .inr ⟨_, rfl, ?_, rfl⟩⟩
  intro lease hlease htoken
  dsimp only at hlease ⊢
  rw [hlease, bind_some, if_pos htoken]

theorem renewWrite_cases (h : s.renewWrite index = (t, reply)) :
    isQuiet reply = true ∧
        (∃ renewals, renewals ⊆ s.renewals ∧ t = { s with renewals := renewals }) ∨
      ∃ renewal ∈ s.renewals, ∃ record lease, s.record = some record ∧
        s.leases.get? renewal.slot = some lease ∧ lease.token = renewal.token ∧
        ∃ expiresAtMs, (∀ max, renewal.maxExpiresAtMs = some max → expiresAtMs ≤ max) ∧
          reply = .renewed renewal.slot renewal.token expiresAtMs ∧
          t = { s with
            record := some (record.setLeases (record.leases.insert renewal.slot
              { lease with expiresAtMs := expiresAtMs }))
            renewals := s.renewals.eraseIdx index } := by
  unfold renewWrite at h
  split at h
  · cases h
    exact .inl ⟨rfl, s.renewals, refl _, rfl⟩
  case h_2 renewal hrenewal =>
    have hrest : s.renewals.eraseIdx index ⊆ s.renewals := eraseIdx_subset
    dsimp only at h
    split at h
    case h_1 record lease hrecord hlease =>
      split at h
      case isTrue hlive =>
        cases h
        simp only [Bool.and_eq_true, decide_eq_true_eq] at hlive
        refine .inr ⟨renewal, mem_of_getElem? hrenewal, record, lease, hrecord, hlease,
          hlive.1, _, ?_, rfl, rfl⟩
        intro max hmax
        exact leaseClaimExpiresAtMs_le hmax
      · cases h
        exact .inl ⟨rfl, _, hrest, rfl⟩
    · cases h
      exact .inl ⟨rfl, _, hrest, rfl⟩

theorem release_cases (h : s.release slot token = (t, reply)) :
    reply = .done ∧ (t = s ∨ ∃ record lease, s.record = some record ∧
      s.leases.get? slot = some lease ∧ lease.token = token ∧
      t = { s with record := some (record.setLeases (record.leases.erase slot)) }) := by
  unfold release at h
  split at h
  case h_1 record lease hrecord hlease =>
    split at h
    case isTrue htoken =>
      cases h
      exact ⟨rfl, .inr ⟨record, lease, hrecord, hlease, htoken, rfl⟩⟩
    · cases h
      exact ⟨rfl, .inl rfl⟩
  · cases h
    exact ⟨rfl, .inl rfl⟩

section Writes

variable [DecidableEq κ] {call : WriteCall ρ κ}

/-- A call on its own fails, waits for its turn as an upsert, or commits. -/
theorem write_cases (hcarries : site.Carries call s.record) (h : s.write site call = (t, reply)) :
    isQuiet reply = true ∧ (∃ upserts, t = { s with upserts := upserts } ∧
        ∀ pending ∈ upserts, pending ∈ s.upserts ∨
          site.prepare pending.call = .ok (.upsert pending.insert pending.update)) ∨
      ∃ hits next, reply = .committed hits ∧ t = { s with record := next } ∧
        site.Commits hits s.record next ∧ ∀ finish ∈ site.finishes call,
          leaseLive s.leases finish.1.slot finish.1.token finish.2 = true := by
  unfold write at h
  split at h
  case h_1 insert update hprepared =>
    split at h
    · cases h
      refine .inl ⟨rfl, _, rfl, ?_⟩
      intro pending hmem
      obtain hmem | hmem := mem_append.mp hmem
      · exact .inl hmem
      obtain rfl := mem_singleton.mp hmem
      exact .inr hprepared
    cases h
    exact .inl ⟨rfl, s.upserts, rfl, fun _ => .inl⟩
  · split at h
    case h_1 hit next hwritten =>
      cases h
      obtain ⟨hcommits, hfinishes⟩ := Site.write_commits hcarries hwritten
      exact .inr ⟨_, next, rfl, rfl, hcommits, hfinishes⟩
    · cases h
      exact .inl ⟨rfl, s.upserts, rfl, fun _ => .inl⟩

/-- A try of an upsert in flight fails, is put back for the second, or commits. -/
theorem upsert_cases (hupserts : ∀ pending ∈ s.upserts,
      site.prepare pending.call = .ok (.upsert pending.insert pending.update))
    (h : s.upsert site index = (t, reply)) :
    ∃ upserts, (∀ pending ∈ upserts,
        site.prepare pending.call = .ok (.upsert pending.insert pending.update)) ∧
      (isQuiet reply = true ∧ t = { s with upserts := upserts } ∨
        ∃ hits next, reply = .committed hits ∧
          t = { s with record := next, upserts := upserts } ∧ site.Commits hits s.record next) := by
  unfold upsert at h
  split at h
  · cases h
    exact ⟨s.upserts, hupserts, .inl ⟨rfl, rfl⟩⟩
  case h_2 pending hpending =>
    have hprepared := hupserts pending (mem_of_getElem? hpending)
    have hrest : ∀ other ∈ s.upserts.eraseIdx index,
        site.prepare other.call = .ok (.upsert other.insert other.update) :=
      fun other hmem => hupserts other (eraseIdx_subset hmem)
    have hfree := fun assignment hmem =>
      (Site.prepare_assigned hprepared assignment hmem).topLevel_ne
    dsimp only at h
    split at h
    case h_1 hit next hwritten =>
      cases h
      refine ⟨_, hrest, .inr ⟨_, next, rfl, rfl, ?_⟩⟩
      split at hwritten
      · exact (Site.retryUpsert_writes hfree hwritten).commits
      · exact (Site.upsertOnce_writes hfree hwritten).commits
    · split at h
      · cases h
        exact ⟨_, hrest, .inl ⟨rfl, rfl⟩⟩
      cases h
      refine ⟨_, ?_, .inl ⟨rfl, rfl⟩⟩
      intro other hmem
      obtain hmem | hmem := mem_append.mp hmem
      · exact hrest other hmem
      rw [mem_singleton.mp hmem]
      exact hprepared
    cases h
    exact ⟨_, hrest, .inl ⟨rfl, rfl⟩⟩

theorem transaction_cases {calls : List (WriteCall ρ κ)} {holds : List (DbLeaseHold κ)}
    {finishNow : DbLeaseHold κ → Int} {othersLive : Bool}
    (hcarries : site.CarriesAll calls s.record)
    (h : s.transaction site calls holds finishNow othersLive = (t, reply)) :
    isQuiet reply = true ∧ t = s ∨
      ∃ hits next, reply = .committed hits ∧ t = { s with record := next } ∧
        site.Commits hits s.record next ∧ ∀ hold ∈ site.ownGuards holds,
          leaseLive s.leases hold.slot hold.token (finishNow hold) = true := by
  unfold transaction at h
  split at h
  · cases h
    exact .inl ⟨rfl, rfl⟩
  case h_2 hits next hwritten =>
    have hcommits := Site.writeAll_commits hcarries hwritten
    split at h
    case h_1 hlive =>
      cases h
      refine .inr ⟨hits, next, rfl, rfl, hcommits, ?_⟩
      rw [leases, ← hcommits.leases]
      exact Site.assertLeaseHoldsLive_eq_ok hlive
    · cases h
      exact .inl ⟨rfl, rfl⟩

end Writes

/-! ## One step -/

theorem leases_set {record : StoredRecord} {issued : List String}
    {renewals : List Renewal} (s : LeaseState ρ κ) :
    ({ s with record := some (record.setLeases slots), issued := issued, renewals := renewals } :
      LeaseState ρ κ).leases = slots :=
  StoredRecord.leases_setLeases record slots

theorem leases_of_record {record : StoredRecord} (h : s.record = some record) :
    s.leases = record.leases := by
  rw [leases, h, storedLeases_some]

namespace Kept

variable {record : StoredRecord}

theorem claimed (h : Kept site labels s) (hnow : nowMs ≤ s.clock) (hfresh : token ∉ s.issued)
    (hrecord : s.record = some record) (havailable : leaseAvailable s.leases slot nowMs = true)
    (htoken : lease.token = token)
    (hmax : ∀ max, lease.maxExpiresAtMs = some max → lease.expiresAtMs ≤ max) :
    Kept site
      (labels ++ [(.claim slot owner requestId token nowMs, .claimed lease.expiresAtMs)])
      { s with
        record := some (record.setLeases (record.leases.insert slot lease))
        issued := token :: s.issued } := by
  have hleases := leases_of_record hrecord
  refine ⟨?_, ?_, ?_, ?_, ?_⟩
  · intro slot' lease' hlease'
    rw [leases_set] at hlease'
    rw [lastClaim_snoc, claimAfter]
    dsimp only [claimOf]
    by_cases hslot : slot = slot'
    · subst hslot
      rw [get?_insert_self] at hlease'
      cases hlease'
      rw [if_pos rfl, htoken]
      exact ⟨rfl, hmax⟩
    rw [get?_insert_of_ne _ _ (Ne.symm hslot), ← hleases] at hlease'
    rw [if_neg hslot]
    exact h.stored slot' lease' hlease'
  · intro slot' token' e hheld
    rw [heldUntil_snoc, holdAfter] at hheld
    rw [leases_set, lastClaim_snoc, claimAfter]
    dsimp only [claimOf, some_or] at hheld ⊢
    split at hheld
    case isTrue hown =>
      obtain ⟨rfl, rfl⟩ := hown
      cases hheld
      exact .inl ⟨lease, get?_insert_self _ _ _, htoken, rfl⟩
    case isFalse hother =>
      have hbefore := h.held slot' token' e hheld
      by_cases hslot : slot = slot'
      · -- whoever had the slot, its hold is over and no longer the last
        subst hslot
        right
        rw [if_pos rfl]
        refine ⟨?_, fun heq => hother ⟨rfl, some.inj heq⟩⟩
        obtain ⟨old, hold, -, rfl⟩ | ⟨hover, -⟩ := hbefore
        · exact (expires_le_of_available havailable hold (h.stored slot old hold).2).trans hnow
        · exact hover
      rw [get?_insert_of_ne _ _ (Ne.symm hslot), ← hleases, if_neg hslot]
      exact hbefore
  · intro renewal hmem
    obtain ⟨hissued, hread⟩ := h.renewals renewal hmem
    refine ⟨.tail _ hissued, ?_⟩
    intro lease' hlease' htoken'
    rw [leases_set] at hlease'
    by_cases hslot : slot = renewal.slot
    · subst hslot
      rw [get?_insert_self] at hlease'
      cases hlease'
      rw [← htoken', htoken] at hissued
      exact absurd hissued hfresh
    rw [get?_insert_of_ne _ _ (Ne.symm hslot), ← hleases] at hlease'
    exact hread lease' hlease' htoken'
  · exact h.upserts
  intro slot' token' _
  exact some_ne_none _

theorem renewed {renewal : Renewal}
    {expiresAtMs : Int} (h : Kept site labels s) (hmem : renewal ∈ s.renewals)
    (hrecord : s.record = some record) (hlease : s.leases.get? renewal.slot = some lease)
    (htoken : lease.token = renewal.token)
    (hmax : ∀ max, renewal.maxExpiresAtMs = some max → expiresAtMs ≤ max) :
    Kept site
      (labels ++ [(.renewWrite index, .renewed renewal.slot renewal.token expiresAtMs)])
      { s with
        record := some (record.setLeases (record.leases.insert renewal.slot
          { lease with expiresAtMs := expiresAtMs }))
        renewals := s.renewals.eraseIdx index } := by
  have hleases := leases_of_record hrecord
  obtain ⟨hissued, hread⟩ := h.renewals renewal hmem
  refine ⟨?_, ?_, ?_, ?_, ?_⟩
  · intro slot' lease' hlease'
    rw [leases_set] at hlease'
    rw [lastClaim_of_not_claim rfl]
    by_cases hslot : renewal.slot = slot'
    · subst hslot
      rw [get?_insert_self] at hlease'
      cases hlease'
      refine ⟨(h.stored _ lease hlease).1, ?_⟩
      intro max hsome
      rw [hread lease hlease htoken] at hsome
      exact hmax max hsome
    rw [get?_insert_of_ne _ _ (Ne.symm hslot), ← hleases] at hlease'
    exact h.stored slot' lease' hlease'
  · intro slot' token' e hheld
    rw [heldUntil_snoc, holdAfter] at hheld
    rw [leases_set, lastClaim_of_not_claim rfl]
    dsimp only [claimOf, renewalOf, none_or] at hheld
    split at hheld
    case isTrue hown =>
      obtain ⟨rfl, rfl⟩ := hown
      cases hheld
      exact .inl ⟨_, get?_insert_self _ _ _, htoken, rfl⟩
    case isFalse hother =>
      obtain ⟨old, hold, rfl, rfl⟩ | hover := h.held slot' token' e hheld
      · left
        have hslot : renewal.slot ≠ slot' := by
          rintro rfl
          rw [hlease] at hold
          cases hold
          exact hother ⟨rfl, htoken.symm⟩
        rw [get?_insert_of_ne _ _ (Ne.symm hslot), ← hleases]
        exact ⟨old, hold, rfl, rfl⟩
      · exact .inr hover
  · intro other hother
    obtain ⟨hissued', hread'⟩ := h.renewals other (eraseIdx_subset hother)
    refine ⟨hissued', ?_⟩
    intro lease' hlease' htoken'
    rw [leases_set] at hlease'
    by_cases hslot : renewal.slot = other.slot
    · rw [← hslot, get?_insert_self] at hlease'
      cases hlease'
      rw [hslot] at hlease
      exact hread' lease hlease htoken'
    rw [get?_insert_of_ne _ _ (Ne.symm hslot), ← hleases] at hlease'
    exact hread' lease' hlease' htoken'
  · exact h.upserts
  intro slot' token' _
  exact some_ne_none _

theorem released (h : Kept site labels s)
    (hrecord : s.record = some record) (hlease : s.leases.get? slot = some lease)
    (htoken : lease.token = token) :
    Kept site (labels ++ [(.release slot token, .done)])
      { s with record := some (record.setLeases (record.leases.erase slot)) } := by
  have hleases := leases_of_record hrecord
  have hstays : ∀ {slot' lease'}, (record.leases.erase slot).get? slot' = some lease' →
      s.leases.get? slot' = some lease' := by
    intro slot' lease' hget
    obtain ⟨-, hget⟩ := get?_erase_eq_some.mp hget
    rw [hleases]
    exact hget
  refine ⟨?_, ?_, ?_, ?_, ?_⟩
  · intro slot' lease' hlease'
    rw [leases_set] at hlease'
    rw [lastClaim_of_not_claim rfl]
    exact h.stored slot' lease' (hstays hlease')
  · intro slot' token' e hheld
    rw [heldUntil_snoc, holdAfter] at hheld
    rw [leases_set, lastClaim_of_not_claim rfl]
    dsimp only [claimOf, renewalOf, releaseOf, none_or] at hheld
    split at hheld
    · cases hheld
    case isFalse hother =>
      obtain ⟨old, hold, rfl, rfl⟩ | hover := h.held slot' token' e hheld
      · left
        have hslot : slot ≠ slot' := by
          rintro rfl
          rw [hlease] at hold
          cases hold
          exact hother ⟨rfl, htoken.symm⟩
        rw [get?_erase_of_ne _ (Ne.symm hslot), ← hleases]
        exact ⟨old, hold, rfl, rfl⟩
      · exact .inr hover
  · intro renewal hmem
    obtain ⟨hissued, hread⟩ := h.renewals renewal hmem
    refine ⟨hissued, ?_⟩
    intro lease' hlease' htoken'
    rw [leases_set] at hlease'
    exact hread lease' (hstays hlease') htoken'
  · exact h.upserts
  intro slot' token' _
  exact some_ne_none _

end Kept

section Step

variable [DecidableEq κ] {event : LeaseEvent ρ κ}

/-- A step that neither claims nor writes. -/
theorem Lawful.apart (hclaim : claimOf label = none) (hreply : ∀ hits, label.2 ≠ .committed hits)
    (hwrite : isBusinessWrite label.1 = false) : Lawful site labels s label t := by
  refine ⟨?_, ?_, ?_, ?_⟩
  · rintro slot owner requestId token nowMs expiresAtMs rfl
    cases hclaim
  · intro hits heq
    exact absurd heq (hreply hits)
  · intro hits heq
    exact absurd heq (hreply hits)
  intro htrue
  rw [hwrite] at htrue
  cases htrue

/-- A step with a quiet reply that leaves the record alone. -/
theorem Kept.quiet (h : Kept site labels s) (hreply : isQuiet reply = true)
    (hrecord : t.record = s.record) (hadvances : Advances site s t) :
    Lawful site labels s (event, reply) t ∧ Kept site (labels ++ [(event, reply)]) t := by
  have hclaim : claimOf (event, reply) = none := claimOf_of_quiet hreply
  have hleases : t.leases = s.leases := by
    rw [leases, leases, hrecord]
  constructor
  · refine ⟨?_, ?_, ?_, fun _ => hleases⟩
    · intro slot owner requestId token nowMs expiresAtMs heq
      rw [heq] at hclaim
      cases hclaim
    · rintro hits rfl
      cases hreply
    rintro hits rfl
    cases hreply
  refine h.frame hclaim (renewalOf_of_quiet hreply) hleases hadvances ?_
  rw [hrecord]
  exact id

/-- A step that commits business writes. -/
theorem Kept.committed {hits : List (WriteCall ρ κ)} {next : Option StoredRecord}
    {upserts : List (PendingUpsert ρ κ)} (h : Kept site labels s)
    (hcommits : site.Commits hits s.record next) (hfinishes : ∀ finish ∈ finishes site event,
      leaseLive s.leases finish.1.slot finish.1.token finish.2 = true)
    (hupserts : ∀ pending ∈ upserts,
      site.prepare pending.call = .ok (.upsert pending.insert pending.update)) :
    Lawful site labels s (event, .committed hits) { s with record := next, upserts := upserts } ∧
      Kept site (labels ++ [(event, .committed hits)])
        { s with record := next, upserts := upserts } := by
  constructor
  · refine ⟨?_, ?_, fun _ _ => hfinishes, fun _ => hcommits.leases⟩
    · intro slot owner requestId token nowMs expiresAtMs heq
      cases heq
    intro hits' heq call hmem guard hguard hclaimed
    cases heq
    exact hcommits.live (h.present _ _ hclaimed) call hmem guard hguard
  refine h.frame ?_ rfl hcommits.leases
    ⟨le_rfl, refl _, fun _ => .inl, fun pending hmem => .inr (hupserts pending hmem)⟩
    hcommits.present
  cases event <;> rfl

/-- One step of a carrying run: it is lawful, and what is kept stays so. -/
theorem step_lawful (h : Kept site labels s) (hstep : CarryingStep site s label t) :
    Lawful site labels s label t ∧ Kept site (labels ++ [label]) t := by
  obtain ⟨event, reply⟩ := label
  obtain ⟨⟨hallowed, happly⟩, hcarries⟩ := hstep
  cases event with
  | tick nowMs =>
    cases happly
    exact h.quiet rfl rfl ⟨hallowed, refl _, fun _ => .inl, fun _ => .inl⟩
  | claim slot owner requestId token nowMs =>
    obtain ⟨record, lease, hrecord, havailable, htoken, hmax, hreply, rfl⟩ |
      ⟨hreply, issued, hissued, rfl⟩ := claim_cases happly
    · cases hreply
      refine ⟨⟨?_, ?_, ?_, ?_⟩, h.claimed hallowed.1 hallowed.2 hrecord havailable htoken hmax⟩
      · intro slot' owner' requestId' token' nowMs' expiresAtMs heq other e hheld
        cases heq
        obtain ⟨old, hold, -, rfl⟩ | ⟨hover, hlast⟩ := h.held slot other e hheld
        · have hexpired := expires_le_of_available havailable hold (h.stored slot old hold).2
          exact ⟨hexpired.trans hallowed.1, fun _ => hexpired⟩
        · exact ⟨hover, fun heq => absurd heq hlast⟩
      · intro hits heq
        cases heq
      · intro hits heq
        cases heq
      intro hwrite
      cases hwrite
    · exact h.quiet hreply rfl ⟨le_rfl, hissued, fun _ => .inl, fun _ => .inl⟩
  | renewRead slot token nowMs =>
    obtain ⟨hreply, rfl | ⟨renewal, rfl, hread, rfl⟩⟩ := renewRead_cases happly
    · exact h.quiet hreply rfl (.refl _)
    refine h.quiet hreply rfl ⟨le_rfl, refl _, ?_, fun _ => .inl⟩
    intro other hmem
    obtain hmem | hmem := mem_append.mp hmem
    · exact .inl hmem
    obtain rfl := mem_singleton.mp hmem
    exact .inr ⟨hallowed.2, hread⟩
  | renewWrite index =>
    obtain ⟨hreply, renewals, hsubset, rfl⟩ |
      ⟨renewal, hmem, record, lease, hrecord, hlease, htoken, expiresAtMs, hmax, hreply, rfl⟩ :=
      renewWrite_cases happly
    · exact h.quiet hreply rfl
        ⟨le_rfl, refl _, fun _ hmem => .inl (hsubset hmem), fun _ => .inl⟩
    cases hreply
    exact ⟨.apart rfl nofun rfl, h.renewed hmem hrecord hlease htoken hmax⟩
  | release slot token =>
    obtain ⟨rfl, rfl | ⟨record, lease, hrecord, hlease, htoken, rfl⟩⟩ := release_cases happly
    · exact h.quiet rfl rfl (.refl _)
    · exact ⟨.apart rfl nofun rfl, h.released hrecord hlease htoken⟩
  | write call =>
    obtain ⟨hreply, upserts, rfl, hupserts⟩ | ⟨hits, next, rfl, rfl, hcommits, hfinishes⟩ :=
      write_cases hcarries happly
    · exact h.quiet hreply rfl ⟨le_rfl, refl _, fun _ => .inl, hupserts⟩
    · exact h.committed hcommits hfinishes h.upserts
  | upsert index =>
    obtain ⟨upserts, hupserts, ⟨hreply, rfl⟩ | ⟨hits, next, rfl, rfl, hcommits⟩⟩ :=
      upsert_cases h.upserts happly
    · exact h.quiet hreply rfl
        ⟨le_rfl, refl _, fun _ => .inl, fun pending hmem => .inr (hupserts pending hmem)⟩
    refine h.committed hcommits ?_ hupserts
    intro finish hmem
    cases hmem
  | transaction calls holds finishNow othersLive =>
    obtain ⟨hreply, rfl⟩ | ⟨hits, next, rfl, rfl, hcommits, hlive⟩ :=
      transaction_cases hcarries happly
    · exact h.quiet hreply rfl (.refl _)
    refine h.committed hcommits ?_ h.upserts
    intro finish hmem
    obtain ⟨hold, hhold, rfl⟩ := mem_map.mp hmem
    exact hlive hold hhold

end Step

/-! ## Every run -/

/-- In every run whose replacements carry the leases of the record, every step is
lawful. -/
theorem carryingRun_lawful [DecidableEq κ] {clock : Int}
    (hrun : Run (CarryingStep site) (initial clock) labels s)
    (hstep : CarryingStep site s label t) : Lawful site labels s label t := by
  have hkept : Kept site labels s := by
    refine Run.history (P := fun labels s => Kept site labels s) (Kept.initial clock) ?_ hrun
    intro labels s label t _ hkept hstep
    exact (step_lawful hkept hstep).2
  exact (step_lawful hkept hstep).1

/-! ## A collection of jobs -/

theorem reply_of_claimOf {nowMs expiresAtMs : Int}
    (h : claimOf (.claim slot owner requestId token nowMs, reply) =
      some (slot, token, expiresAtMs)) : reply = .claimed expiresAtMs := by
  cases reply with
  | claimed e =>
    cases h
    rfl
  | _ => cases h

/-- Jobs have a key, no other field, and a lease of ten milliseconds. -/
def jobs : DbCollectionMetadata where
  targetKey := "app.Job"
  typeName := "Job"
  keyField := "key"
  keyTypeRef := .builtin "string" []
  fields := ∅
  leases := (∅ : OrdMap String DbLeaseMetadata).insert "main" ⟨10, none⟩
  id_undeclared := get?_empty _
  key_typed := by
    intro field hfield
    rw [get?_empty] at hfield
    cases hfield

def jobValue : Json.Value where
  tree := .object [("key", .string "row")]
  distinct := .object (by decide) (by simp [Json.Tree.Distinct.string])

def jobSite : Site Unit Unit := ⟨plainCodecs, ⟨fun _ _ _ _ => none⟩, jobs, (), .string "row"⟩

def jobWrite (write : BusinessWrite Unit) (guards : List (DbLeaseHold Unit)) :
    WriteCall Unit Unit :=
  ⟨write, fun _ => true, none, guards, 0, fun _ => 0, fun _ => 0, true, true⟩

def createJob : LeaseEvent Unit Unit := .write (jobWrite (.create jobValue) [])

def claimJob (owner requestId token : String) (nowMs : Int) : LeaseEvent Unit Unit :=
  .claim "main" owner requestId token nowMs

def secondClaim : Int → LeaseEvent Unit Unit := claimJob "second" "request-2" "token-2"

def replaceJob (guards : List (DbLeaseHold Unit)) : LeaseEvent Unit Unit :=
  .write (jobWrite (.replaceOne jobValue) guards)

def firstHold : DbLeaseHold Unit := ⟨"app.Job", (), "main", "token-1"⟩

/-- An event at the job, with the reply it gets. -/
def jobLabel (s : LeaseState Unit Unit) (event : LeaseEvent Unit Unit) :
    LeaseEvent Unit Unit × LeaseReply Unit Unit :=
  (event, (s.apply jobSite event).2)

def jobCreated : LeaseState Unit Unit := ((initial 0).apply jobSite createJob).1

def jobClaimed : LeaseState Unit Unit :=
  (jobCreated.apply jobSite (claimJob "first" "request-1" "token-1" 0)).1

def jobReplaced : LeaseState Unit Unit := (jobClaimed.apply jobSite (replaceJob [])).1

def claimedLabels : List (LeaseEvent Unit Unit × LeaseReply Unit Unit) :=
  [jobLabel (initial 0) createJob, jobLabel jobCreated (claimJob "first" "request-1" "token-1" 0)]

theorem createJob_step :
    CarryingStep jobSite (initial 0) (jobLabel (initial 0) createJob) jobCreated := by
  refine ⟨⟨⟨le_rfl, ?_⟩, rfl⟩, ?_⟩
  · intro guard hmem
    cases hmem
  intro hreplace
  cases hreplace

theorem claimJob_step : CarryingStep jobSite jobCreated
    (jobLabel jobCreated (claimJob "first" "request-1" "token-1" 0)) jobClaimed :=
  ⟨⟨⟨by decide +kernel, by decide +kernel⟩, rfl⟩, trivial⟩

/-- The first claim, until 10, is kept by its holder's replacement. -/
def jobKept : LeaseState Unit Unit := (jobClaimed.apply jobSite (replaceJob [firstHold])).1

def jobExpired : LeaseState Unit Unit := (jobKept.apply jobSite (.tick 10)).1

def expiredLabels : List (LeaseEvent Unit Unit × LeaseReply Unit Unit) :=
  claimedLabels ++ [jobLabel jobClaimed (replaceJob [firstHold]), (.tick 10, .done)]

/-- A second owner is refused before 10 and has the lease at 10. -/
theorem carryingRun_lawful_jobs :
    Lawful jobSite expiredLabels jobExpired (jobLabel jobExpired (secondClaim 10))
      (jobExpired.apply jobSite (secondClaim 10)).1 ∧
    heldUntil "main" "token-1" expiredLabels = some 10 ∧
    claimOf (jobLabel jobClaimed (secondClaim 0)) = none ∧
    claimOf (jobLabel jobExpired (secondClaim 10)) = some ("main", "token-2", 20) := by
  have hclock : jobClaimed.clock = 0 := by decide +kernel
  have hreplace : CarryingStep jobSite jobClaimed (jobLabel jobClaimed (replaceJob [firstHold]))
      jobKept := by
    refine ⟨⟨⟨?_, ?_⟩, rfl⟩, ?_⟩
    · rw [hclock]
      exact le_rfl
    · intro guard _
      rw [hclock]
      exact ⟨le_rfl, le_rfl⟩
    · intro _ _ hunguarded
      exact absurd hunguarded (by decide)
  have hbefore : jobKept.clock ≤ 10 := by decide +kernel
  have htick : CarryingStep jobSite jobKept (.tick 10, .done) jobExpired :=
    ⟨⟨hbefore, rfl⟩, trivial⟩
  refine ⟨?_, by decide +kernel, by decide +kernel, by decide +kernel⟩
  exact carryingRun_lawful
    (.cons createJob_step (.cons claimJob_step (.cons hreplace (.cons htick (.nil _)))))
    ⟨⟨⟨by decide +kernel, by decide +kernel⟩, rfl⟩, trivial⟩

/-- A job is created and claimed until 10; a request without leases replaces it; and at
0 a second claim succeeds. -/
theorem claim_not_exclusive_after_replace :
    ¬ ∀ labels s label t, Run (Step jobSite) (initial 0) labels s → Step jobSite s label t →
      Lawful jobSite labels s label t := by
  intro hlawful
  have hclock : jobClaimed.clock = 0 := by decide +kernel
  have hreplace : Step jobSite jobClaimed (jobLabel jobClaimed (replaceJob [])) jobReplaced := by
    refine ⟨⟨?_, ?_⟩, rfl⟩
    · rw [hclock]
      exact le_rfl
    · intro guard hmem
      cases hmem
  have hrun : Run (Step jobSite) (initial 0)
      (claimedLabels ++ [jobLabel jobClaimed (replaceJob [])]) jobReplaced :=
    .cons createJob_step.1 (.cons claimJob_step.1 (.cons hreplace (.nil _)))
  have hsecond : Step jobSite jobReplaced
      (jobLabel jobReplaced (secondClaim 0)) _ :=
    ⟨⟨by decide +kernel, by decide +kernel⟩, rfl⟩
  have hclaimed : claimOf (jobLabel jobReplaced (secondClaim 0)) =
      some ("main", "token-2", 10) := by
    decide +kernel
  have hheld : heldUntil "main" "token-1"
      (claimedLabels ++ [jobLabel jobClaimed (replaceJob [])]) = some 10 := by
    decide +kernel
  obtain ⟨hover, -⟩ := (hlawful _ _ _ _ hrun hsecond).excluded _ _ _ _ _ _
    (congrArg _ (reply_of_claimOf hclaimed)) _ _ hheld
  exact absurd hover (by decide +kernel)

end LeaseState

end Skiff.ServiceDb
