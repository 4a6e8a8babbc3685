import Skiff.Actor.Lease

/-!
# Evictions of idle actors

The scheduler keeps the eviction it has requested for a key, and the registry marks the owner with
it. They agree for as long as nobody but the handler of a closed session takes the owner of such
a key away. The acknowledgement of an owner never gets as far as either of them: no request is
registered with the control broker that it has to pass.
-/

namespace Skiff.Actor

open ActorOwnershipRegistry Call OrdMap ControlBroker

/-! ## Marks of the registry -/

namespace ActorOwnershipRegistry

/-- The current owner of the key is marked with an eviction. -/
def Marked (registry : ActorOwnershipRegistry) (key : ActorLogicalKey)
    (evictionRequestId : String) : Prop :=
  ∃ entry, registry.entries.get? key = some entry ∧ entry.owner.isSome ∧
    entry.evictionRequestId = some evictionRequestId

end ActorOwnershipRegistry

/-- After the call, the owner of the key or its mark may be another one. -/
def Call.Disturbs (key : ActorLogicalKey) : Call → Prop
  | .release other _ _ | .requestEviction other _ | .acknowledgeEviction other
      _ | .advanceIncarnation other =>
    other = key
  | .ensurePresent .. | .reserve .. | .commit .. | .abort _ | .renew .. | .expire _ => False

section Marks

variable {registry : ActorOwnershipRegistry} {key : ActorLogicalKey} {id : String} {call : Call}

theorem ActorOwnershipRegistry.Marked.apply (h : registry.Marked key id)
    (hcall : ¬call.Disturbs key) :
    (call.apply registry).Marked key id := by
  obtain ⟨entry, hget, howner, hmark⟩ := h
  cases apply_effect call registry key with
  | kept hkept => exact ⟨entry, hkept.trans hget, howner, hmark⟩
  | created hnone => cases hnone.symm.trans hget
  | @moved _ found entry' hfound hnext hmoves =>
    obtain rfl : found = entry := Option.some.inj (hfound.symm.trans hget)
    cases hmoves with
    | reserve | abort => exact ⟨_, hnext, howner, hmark⟩
    | commit | renew => exact ⟨_, hnext, rfl, hmark⟩
    | release | requestEviction | acknowledgeEviction | advanceIncarnation => exact absurd rfl hcall
    | expire _ hunmarked => cases hunmarked.symm.trans hmark

theorem owned_apply (h : (registry.currentOwner key).isSome) (hcall : ¬call.Disturbs key)
    (hexpire : ∀ now, call ≠ .expire now) : ((call.apply registry).currentOwner key).isSome := by
  unfold currentOwner at *
  cases apply_effect call registry key with
  | kept hkept =>
    rw [hkept]
    exact h
  | created hnone =>
    rw [hnone] at h
    cases h
  | @moved _ entry entry' hget hnext hmoves =>
    rw [hget] at h
    rw [hnext]
    cases hmoves with
    | reserve | abort => exact h
    | commit => rfl
    | renew => rfl
    | release | requestEviction | acknowledgeEviction | advanceIncarnation => exact absurd rfl hcall
    | expire => exact absurd rfl (hexpire _)

theorem marked_requestEviction (h : (registry.currentOwner key).isSome) :
    ((Call.requestEviction key id).apply registry).Marked key id := by
  unfold currentOwner at h
  cases hget : registry.entries.get? key with
  | none =>
    rw [hget] at h
    cases h
  | some entry =>
    rw [hget] at h
    have howner : entry.owner.isNone = false := by
      cases howner : entry.owner with
      | none =>
        rw [Option.bind_some, howner] at h
        cases h
      | some fence => rfl
    refine ⟨{ entry with evictionRequestId := some id }, ?_, h, rfl⟩
    have hrun : (Call.requestEviction key id).run registry =
        .ok (.done, { registry with
          entries := registry.entries.insert key
            { entry with evictionRequestId := some id } }) := by
      simp [run, ActorOwnershipRegistry.requestEviction, updateEntry, hget,
        ActorEntry.requestEviction, howner]
      rfl
    rw [apply_of_run hrun]
    exact get?_insert_self _ _ _

theorem acknowledges_of_marked (h : registry.Marked key id) :
    ∃ result, registry.acknowledgeEviction key id = .ok result := by
  obtain ⟨entry, hget, howner, hmark⟩ := h
  have howned : entry.owner.isNone = false := by
    rw [← Option.not_isSome, howner]
    rfl
  simp [ActorOwnershipRegistry.acknowledgeEviction, updateEntry, hget,
    ActorEntry.acknowledgeEviction, howned, hmark]

end Marks

/-! ## Clean steps -/

def Access.Disturbs (key : ActorLogicalKey) : Access → Prop
  | .call registryCall => registryCall.Disturbs key
  | .disconnect _ _ => False

def Access.IsExpire : Access → Prop
  | .call (.expire _) => True
  | _ => False

namespace ActorLane

/-- A sweep at this time may request an eviction for the key, or has one already. -/
def Watched (options : LeaseSchedulerOptions) (now : Nat) (lane : ActorLane)
    (key : ActorLogicalKey) : Prop :=
  (lane.lease.evictions.get? key).isSome ∨ lane.lease.Idle options now key

/-- During a sweep, nobody but the handlers of closed sessions takes the owner of a watched key. -/
def CleanGap (options : LeaseSchedulerOptions) (now : Nat) (lane : ActorLane) (gap : List Access) :
    Prop :=
  ∀ access ∈ gap, ¬access.IsExpire ∧ ∀ key, lane.Watched options now key → ¬access.Disturbs key

/-- Nobody but the handlers of closed sessions takes the owner of a key that is being evicted. -/
def CleanEvent (options : LeaseSchedulerOptions) (lane : ActorLane) : LaneEvent → Prop
  | .access access => ∀ key, (lane.lease.evictions.get? key).isSome → ¬access.Disturbs key
  | .sweep now _ gaps =>
    (∀ key, CleanGap options now lane (gaps.beforeOwner key) ∧
      CleanGap options now lane (gaps.beforeRequest key)) ∧
      CleanGap options now lane gaps.beforeExpire
  | _ => True

def CleanStep (options : LeaseSchedulerOptions) (lane : ActorLane) (event : LaneEvent)
    (next : ActorLane) : Prop :=
  lane.Step options event next ∧ lane.CleanEvent options event

/-- The scheduler's eviction of a key is the one that the registry has marked its owner with,
unless the handler of a closed session is about to have it forgotten. -/
def Agreed (lane : ActorLane) : Prop :=
  ∀ key state, lane.lease.evictions.get? key = some state → key ∉ lane.closing →
    lane.registry.Marked key state.evictionRequestId

section Agreement

variable {options : LeaseSchedulerOptions} {lane next : ActorLane} {key : ActorLogicalKey}
    {a : Access}
variable {now : Nat} {port : IdleEvictControlPort} {fence : ActorOwnerFence} {gap : List Access}

/-- A call of others is a call of the registry, and a disconnect closes its key. -/
theorem access_cases (lane : ActorLane) (access : Access) : ∃ call : Call,
    (lane.access access).registry = call.apply lane.registry ∧
      (lane.access access).lease = lane.lease ∧ (lane.access access).control = lane.control ∧
        ((access = .call call ∧ (lane.access access).closing = lane.closing) ∨
          ∃ closed, (∀ key, key ≠ closed → ¬call.Disturbs key) ∧
            (lane.access access).closing = insert closed lane.closing ∧ ∀ now, call ≠ .expire now) ∨
      lane.access access = lane := by
  cases access with
  | call call => exact ⟨call, .inl ⟨rfl, rfl, rfl, .inl ⟨rfl, rfl⟩⟩⟩
  | disconnect closed fence =>
    refine ⟨.release closed fence .disconnected, ?_⟩
    unfold ActorLane.access
    dsimp only
    cases hrelease : lane.registry.release closed fence .disconnected with
    | error => exact .inr rfl
    | ok result =>
      obtain ⟨answer, registry⟩ := result
      have hrun : (release closed fence .disconnected).run lane.registry =
        .ok (.done, registry) := by
        rw [run, hrelease]
        rfl
      exact .inl ⟨(apply_of_run hrun).symm, rfl, rfl,
        .inr ⟨closed, fun key hkey heq => hkey heq.symm, rfl, fun _ h => by cases h⟩⟩

theorem access_kept (lane : ActorLane) (access : Access) :
    (lane.access access).lease = lane.lease ∧ (lane.access access).control = lane.control ∧
      lane.closing ⊆ (lane.access access).closing := by
  obtain ⟨call, ⟨-, hlease, hcontrol, hclosing⟩ | hsame⟩ := access_cases lane access
  · refine ⟨hlease, hcontrol, ?_⟩
    obtain ⟨-, hsame⟩ | ⟨closed, -, hmore, -⟩ := hclosing
    · rw [hsame]
    rw [hmore]
    exact Finset.subset_insert _ _
  rw [hsame]
  exact ⟨rfl, rfl, subset_rfl⟩

theorem wait_kept (lane : ActorLane) (gap : List Access) :
    (lane.wait gap).lease = lane.lease ∧ (lane.wait gap).control = lane.control ∧
      lane.closing ⊆ (lane.wait gap).closing := by
  induction gap generalizing lane with
  | nil => exact ⟨rfl, rfl, subset_rfl⟩
  | cons access rest ih =>
    obtain ⟨hlease, hcontrol, hclosing⟩ := access_kept lane access
    obtain ⟨hlease', hcontrol', hclosing'⟩ := ih (lane.access access)
    exact ⟨hlease'.trans hlease, hcontrol'.trans hcontrol, hclosing.trans hclosing'⟩

theorem Agreed.access (h : lane.Agreed)
    (hclean : ∀ key, (lane.lease.evictions.get? key).isSome → ¬a.Disturbs key) :
    (lane.access a).Agreed := by
  intro key state hstate hopen
  obtain ⟨call, ⟨hregistry, hlease, -, hclosing⟩ | hsame⟩ := access_cases lane a
  · rw [hlease] at hstate
    rw [hregistry]
    have hheld : (lane.lease.evictions.get? key).isSome := by
      rw [hstate]
      rfl
    obtain ⟨rfl, hsame⟩ | ⟨closed, hothers, hmore, -⟩ := hclosing
    · rw [hsame] at hopen
      exact (h key state hstate hopen).apply (hclean key hheld)
    rw [hmore, Finset.mem_insert, not_or] at hopen
    exact (h key state hstate hopen.2).apply (hothers key hopen.1)
  rw [hsame] at hstate hopen ⊢
  exact h key state hstate hopen

theorem Agreed.wait (h : lane.Agreed)
    (hclean : ∀ access ∈ gap, ∀ key, (lane.lease.evictions.get? key).isSome →
      ¬access.Disturbs key) :
    (lane.wait gap).Agreed := by
  induction gap generalizing lane with
  | nil => exact h
  | cons access rest ih =>
    refine ih (h.access (hclean access (.head _))) fun other hother => ?_
    rw [(access_kept lane access).1]
    exact hclean other (.tail _ hother)

/-- The owner of a key stays, unless a disconnect takes it. -/
theorem owned_wait (h : (lane.registry.currentOwner key).isSome)
    (hclean : ∀ access ∈ gap, ¬access.IsExpire ∧ ¬access.Disturbs key) :
    key ∈ (lane.wait gap).closing ∨ ((lane.wait gap).registry.currentOwner key).isSome := by
  induction gap generalizing lane with
  | nil => exact .inr h
  | cons access rest ih =>
    have hrest := fun other hother => hclean other (.tail _ hother)
    obtain ⟨hexpire, hdisturbs⟩ := hclean access (.head _)
    obtain ⟨call, ⟨hregistry, -, -, hclosing⟩ | hsame⟩ := access_cases lane access
    · have hkept := fun howned : ((lane.access access).registry.currentOwner key).isSome =>
        ih howned hrest
      rw [hregistry] at hkept
      obtain ⟨rfl, -⟩ | ⟨closed, hothers, hmore, hnever⟩ := hclosing
      · refine hkept (owned_apply h hdisturbs fun now hcall => hexpire ?_)
        rw [hcall]
        trivial
      by_cases hkey : key = closed
      · refine .inl ((wait_kept _ rest).2.2 ?_)
        rw [hmore, hkey]
        exact Finset.mem_insert_self _ _
      · exact hkept (owned_apply h (hothers key hkey) hnever)
    change key ∈ ((lane.access access).wait rest).closing ∨
      (((lane.access access).wait rest).registry.currentOwner key).isSome
    rw [hsame]
    exact ih h hrest

theorem sendIdleEvict_kept (port : IdleEvictControlPort) (key : ActorLogicalKey)
    (fence : ActorOwnerFence) (lane : ActorLane) (id : String) :
    (lane.sendIdleEvict port key fence id).registry = lane.registry ∧
      (lane.sendIdleEvict port key fence id).lease = lane.lease ∧
        (lane.sendIdleEvict port key fence id).control = lane.control ∧
          (lane.sendIdleEvict port key fence id).closing = lane.closing := by
  unfold sendIdleEvict
  dsimp only
  split <;> exact ⟨rfl, rfl, rfl, rfl⟩

variable {state : EvictionState}

theorem Agreed.setEviction (h : lane.Agreed)
    (hmark : key ∉ lane.closing → lane.registry.Marked key state.evictionRequestId) :
    (lane.setEviction key state).Agreed := by
  intro other found hfound hopen
  change (lane.lease.evictions.insert key state).get? other = some found at hfound
  obtain ⟨hkey, rfl⟩ | ⟨-, hfound⟩ := get?_insert_eq_some.mp hfound
  · rw [hkey] at hopen ⊢
    exact hmark hopen
  · exact h other found hfound hopen

/-- The registry, the scheduler and the closing keys are all that agreement is about. -/
theorem Agreed.of_eq (h : lane.Agreed) (hregistry : next.registry = lane.registry)
    (hevictions : next.lease.evictions = lane.lease.evictions)
    (hclosing : next.closing = lane.closing) :
    next.Agreed := by
  unfold Agreed
  rw [hregistry, hevictions, hclosing]
  exact h

/-- Where a sweep is: it has requested evictions of idle keys only. -/
structure Sweeping (options : LeaseSchedulerOptions) (now : Nat) (start lane : ActorLane) :
    Prop where
  agreed : lane.Agreed
  idle : lane.lease.idleSince = start.lease.idleSince
  watched : ∀ key, (lane.lease.evictions.get? key).isSome → start.Watched options now key

variable {start : ActorLane}

section

variable (h : Sweeping options now start lane)
include h

theorem Sweeping.wait (hclean : CleanGap options now start gap) :
    Sweeping options now start (lane.wait gap) := by
  obtain ⟨hlease, -, -⟩ := wait_kept lane gap
  refine ⟨h.agreed.wait fun access hmem key hkey =>
    (hclean access hmem).2 key (h.watched key hkey), ?_, ?_⟩
  · rw [hlease]
    exact h.idle
  rw [hlease]
  exact h.watched

/-- An eviction is recorded for a watched key, and the registry has marked its owner with it. -/
theorem Sweeping.record (hkey : start.Watched options now key)
    (hmark : key ∉ lane.closing → lane.registry.Marked key state.evictionRequestId) :
    Sweeping options now start (lane.setEviction key state) := by
  refine ⟨h.agreed.setEviction hmark, h.idle, fun other hother => ?_⟩
  change ((lane.lease.evictions.insert key state).get? other).isSome at hother
  rw [get?_insert] at hother
  split at hother
  case isTrue hsame =>
    rw [hsame]
    exact hkey
  case isFalse => exact h.watched other hother

theorem Sweeping.send (id : String) :
    Sweeping options now start (lane.sendIdleEvict port key fence id) := by
  obtain ⟨hregistry, hlease, -, hclosing⟩ := sendIdleEvict_kept port key fence lane id
  refine ⟨h.agreed.of_eq hregistry (congrArg _ hlease) hclosing, ?_, ?_⟩
  · rw [hlease]
    exact h.idle
  rw [hlease]
  exact h.watched

theorem Sweeping.retryEviction
    (hstate : lane.lease.evictions.get? key = some state) :
    Sweeping options now start (lane.retryEviction options port key fence state) := by
  have hkey : start.Watched options now key := h.watched key (by rw [hstate]; rfl)
  unfold ActorLane.retryEviction
  split
  · exact h
  split
  · exact h.record hkey fun hopen => h.agreed key state hstate hopen
  obtain ⟨hregistry, -, -, hclosing⟩ := sendIdleEvict_kept port key fence lane
    state.evictionRequestId
  refine (h.send _).record hkey fun hopen => ?_
  rw [hclosing] at hopen
  rw [hregistry]
  exact h.agreed key state hstate hopen

theorem Sweeping.requestEviction
    (howned : (lane.registry.currentOwner key).isSome) (hkey : start.Watched options now key)
    (hnone : lane.lease.evictions.get? key = none) (hclean : CleanGap options now start gap) :
    Sweeping options now start (lane.requestEviction port key fence gap) := by
  unfold ActorLane.requestEviction
  dsimp only
  generalize hnumbered :
    ({ lane with lease := { lane.lease with evictionSeq := lane.lease.evictionSeq + 1 } } :
    ActorLane) = numbered
  generalize "evict:" ++ toString (lane.lease.evictionSeq + 1) = id
  have hstart : Sweeping options now start numbered := by
    rw [← hnumbered]
    exact ⟨h.agreed, h.idle, h.watched⟩
  have hwaited := hstart.wait hclean
  have hstill : key ∈ (numbered.wait gap).closing ∨
    ((numbered.wait gap).registry.currentOwner key).isSome := by
    refine owned_wait ?_ fun access hmem =>
      ⟨(hclean access hmem).1, (hclean access hmem).2 key hkey⟩
    rw [← hnumbered]
    exact howned
  have hfree : (numbered.wait gap).lease.evictions.get? key = none := by
    rw [(wait_kept numbered gap).1, ← hnumbered]
    exact hnone
  -- the mark is new for this key, which the scheduler has no eviction for yet
  have hmarked : Sweeping options now start { numbered.wait gap with
      registry := (Call.requestEviction key id).apply (numbered.wait gap).registry } := by
    refine ⟨fun other state hstate hopen => ?_, hwaited.idle, hwaited.watched⟩
    refine (hwaited.agreed other state hstate hopen).apply fun hsame => ?_
    rw [← show key = other from hsame, hfree] at hstate
    cases hstate
  obtain ⟨hregistry, -, -, hclosing⟩ := sendIdleEvict_kept port key fence
    { numbered.wait gap with registry :=
      (Call.requestEviction key id).apply (numbered.wait gap).registry } id
  refine (hmarked.send id).record hkey fun hopen => ?_
  rw [hclosing] at hopen
  rw [hregistry]
  exact marked_requestEviction (hstill.resolve_left hopen)

theorem Sweeping.sweepKey {gaps : SweepGaps}
    (howner : CleanGap options now start (gaps.beforeOwner key))
    (hrequest : CleanGap options now start (gaps.beforeRequest key)) :
    Sweeping options now start (lane.sweepKey options now port gaps key) := by
  have hwaited := h.wait howner
  unfold ActorLane.sweepKey
  dsimp only
  split
  case h_1 => exact hwaited
  case h_2 fence hfence =>
    split
    case isTrue => exact hwaited
    case isFalse hidle =>
      have hkey : start.Watched options now key := by
        refine .inr ?_
        unfold LeaseScheduler.Idle at hidle ⊢
        rw [hwaited.idle] at hidle
        exact not_not.mp hidle
      split
      case h_1 state hstate => exact hwaited.retryEviction hstate
      case h_2 hnone =>
        refine hwaited.requestEviction ?_ hkey hnone hrequest
        rw [hfence]
        rfl

end

theorem get?_foldl_forget {expired : List ExpiredOwner} {lease : LeaseScheduler}
    (h : (expired.foldl (fun lease owner => lease.forget owner.actorKey) lease).evictions.get? key =
      some state) :
    lease.evictions.get? key = some state := by
  induction expired generalizing lease with
  | nil => exact h
  | cons owner rest ih =>
    have hrest := ih h
    change (lease.evictions.erase owner.actorKey).get? key = some state at hrest
    exact (get?_erase_eq_some.mp hrest).2

theorem Agreed.expireLeases (h : lane.Agreed) : (lane.expireLeases now).Agreed := by
  intro key state hstate hopen
  have hmarked := h key state (get?_foldl_forget hstate) hopen
  have hkept : ((expire now).apply lane.registry).Marked key state.evictionRequestId :=
    hmarked.apply fun hfalse => hfalse
  exact hkept

theorem Agreed.sweep {gaps : SweepGaps} (h : lane.Agreed)
    (hclean : lane.CleanEvent options (.sweep now port gaps)) :
    (lane.sweep options now port gaps).Agreed := by
  obtain ⟨hkeys, hlast⟩ := hclean
  have hloop : ∀ (keys : List ActorLogicalKey) (reached : ActorLane),
    Sweeping options now lane reached →
      Sweeping options now lane
        (keys.foldl (ActorLane.sweepKey options now port gaps) reached) := by
    intro keys
    induction keys with
    | nil => exact fun _ hreached => hreached
    | cons key rest ih =>
      exact fun reached hreached => ih _ (hreached.sweepKey (hkeys key).1 (hkeys key).2)
  exact ((hloop _ lane ⟨h, rfl, fun _ hkey => .inl hkey⟩).wait hlast).agreed.expireLeases

theorem Agreed.forget (h : lane.Agreed) (key : ActorLogicalKey) : (lane.forget key).Agreed := by
  intro other state hstate hopen
  change (lane.lease.evictions.erase key).get? other = some state at hstate
  obtain ⟨hother, hstate⟩ := get?_erase_eq_some.mp hstate
  exact h other state hstate fun hmem => hopen (Finset.mem_erase.mpr ⟨hother, hmem⟩)

theorem Agreed.onEvictionAck (h : lane.Agreed) {id : String}
    (hack : lane.onEvictionAck key id = some next) :
    next.Agreed := by
  unfold ActorLane.onEvictionAck at hack
  split at hack
  case h_1 => cases hack
  case h_2 state hstate =>
    split at hack
    case isTrue => cases hack
    case isFalse =>
      split at hack
      case h_2 => cases hack
      case h_1 answer registry hok =>
        cases hack
        have hrun : (acknowledgeEviction key id).run lane.registry = .ok (.done, registry) := by
          rw [run, hok]
          rfl
        intro other found hfound hopen
        change (lane.lease.evictions.erase key).get? other = some found at hfound
        obtain ⟨hother, hfound⟩ := get?_erase_eq_some.mp hfound
        change registry.Marked other found.evictionRequestId
        rw [← apply_of_run hrun]
        exact (h other found hfound hopen).apply fun hsame => hother hsame.symm

theorem Agreed.evictionAck (h : lane.Agreed) (key : ActorLogicalKey) (id : String) :
    ((lane.onEvictionAck key id).getD lane).Agreed := by
  cases hack : lane.onEvictionAck key id with
  | none => exact h
  | some next => exact h.onEvictionAck hack

theorem Agreed.step {event : LaneEvent} (h : lane.Agreed)
    (hstep : lane.CleanStep options event next) :
    next.Agreed := by
  obtain ⟨rfl, hclean⟩ := hstep
  cases event with
  | access access => exact h.access hclean
  | forget key => exact h.forget key
  | markLive | markActive | expireControls | ownerDisconnect => exact h.of_eq rfl rfl rfl
  | sweep => exact h.sweep hclean
  | evictionAck key id => exact h.evictionAck key id
  | ownerControlAck =>
    unfold ActorLane.apply handleOwnerControlAck
    dsimp only
    split
    · split
      · exact h.of_eq rfl rfl rfl
      split
      · exact h.of_eq rfl rfl rfl
      refine Agreed.evictionAck ?_ _ _
      exact h.of_eq rfl rfl rfl
    · exact h.of_eq rfl rfl rfl

end Agreement

end ActorLane

/-! ## Runs -/

namespace ActorLane

section Runs

variable {options : LeaseSchedulerOptions} {lane next : ActorLane} {key : ActorLogicalKey}
variable {events : List LaneEvent}

/-- The scheduler and the registry agree. In every run in which nobody but the handlers of closed
sessions takes the owner of a key that is being evicted, the eviction that the scheduler holds
for a key is the one that the registry has marked its owner with, and can be acknowledged, but
between the release and the forgetting of a closed session. -/
theorem evictions_agree (hrun : Run (CleanStep options) {} events lane) :
    lane.Agreed ∧ ∀ key state, lane.lease.evictions.get? key = some state → key ∉ lane.closing →
      (lane.onEvictionAck key state.evictionRequestId).isSome := by
  have hagreed : lane.Agreed := by
    refine Run.invariant (P := Agreed) (fun h hstep => h.step hstep) hrun fun key state hstate => ?_
    cases hstate.symm.trans (get?_empty key)
  refine ⟨hagreed, fun key state hstate hopen => ?_⟩
  obtain ⟨⟨answer, registry⟩, hok⟩ := acknowledges_of_marked (hagreed key state hstate hopen)
  unfold onEvictionAck
  rw [hstate]
  dsimp only
  rw [if_neg (not_not.mpr rfl), hok]
  rfl

/-- What the router does: it calls `on_eviction_ack` in the handler of an acknowledgement only. -/
def RouterStep (options : LeaseSchedulerOptions) (lane : ActorLane) (event : LaneEvent)
    (next : ActorLane) : Prop :=
  lane.Step options event next ∧ ∀ key evictionRequestId, event ≠ .evictionAck key evictionRequestId

/-- Acknowledgements and expiries. -/
def AcksOrExpires (event : LaneEvent) : Prop :=
  (∃ runtimeId requestId operation connection accepted,
      event = .ownerControlAck runtimeId requestId operation connection accepted) ∨
    (∃ now, event = .access (.call (.expire now))) ∨ ∃ now, event = .expireControls now

/-- Without a pending control request, an acknowledgement changes nothing. -/
theorem handleOwnerControlAck_eq (h : lane.control.pending = ∅) (runtimeId requestId : String)
    (operation : ActorOwnerControlOperation) (connection : String) (accepted : Bool) :
    lane.handleOwnerControlAck runtimeId requestId operation connection accepted = lane := by
  unfold handleOwnerControlAck onAck
  rw [h, get?_empty]
  dsimp only
  rw [if_neg]
  rintro ⟨-, haccepted, -⟩
  split at haccepted <;> cases haccepted

theorem control_sweepKey (now : Nat) (port : IdleEvictControlPort) (gaps : SweepGaps) :
    (lane.sweepKey options now port gaps key).control = lane.control := by
  have hwaited := (wait_kept lane (gaps.beforeOwner key)).2.1
  unfold sweepKey
  dsimp only
  split
  · exact hwaited
  split
  · exact hwaited
  split
  · unfold retryEviction
    split
    · exact hwaited
    split
    · exact hwaited
    · exact (sendIdleEvict_kept _ _ _ _ _).2.2.1.trans hwaited
  · exact (sendIdleEvict_kept _ _ _ _ _).2.2.1.trans ((wait_kept _ _).2.1.trans hwaited)

/-- No step of the router registers a control request. -/
theorem pending_empty_of_step {event : LaneEvent} (h : lane.control.pending = ∅)
    (hstep : lane.Step options event next) : next.control.pending = ∅ := by
  obtain rfl := hstep
  have hnone : ∀ select, lane.control.pendingIds select = [] := by
    intro select
    unfold pendingIds
    rw [h]
    rfl
  cases event with
  | access a =>
    change (lane.access a).control.pending = ∅
    rw [(access_kept lane a).2.1]
    exact h
  | forget | markLive | markActive => exact h
  | sweep now port gaps =>
    have hloop : ∀ (keys : List ActorLogicalKey) (reached : ActorLane),
        (keys.foldl (sweepKey options now port gaps) reached).control = reached.control := by
      intro keys
      induction keys with
      | nil => exact fun _ => rfl
      | cons key rest ih => exact fun reached => (ih _).trans (control_sweepKey now port gaps)
    change (((lane.ownedKeys.foldl (sweepKey options now port gaps) lane).wait
      gaps.beforeExpire).control).pending = ∅
    rw [(wait_kept _ _).2.1, hloop]
    exact h
  | evictionAck key id =>
    change ((lane.onEvictionAck key id).getD lane).control.pending = ∅
    unfold onEvictionAck
    split
    · exact h
    split
    · exact h
    · split <;> exact h
  | ownerControlAck =>
    change (lane.handleOwnerControlAck _ _ _ _ _).control.pending = ∅
    rw [handleOwnerControlAck_eq h]
    exact h
  | expireControls =>
    change (lane.control.expireDeadlines _).pending = ∅
    unfold expireDeadlines
    rw [hnone]
    exact h
  | ownerDisconnect =>
    change (lane.control.onOwnerDisconnect _ _).pending = ∅
    unfold onOwnerDisconnect
    rw [hnone]
    exact h

theorem get?_expire_of_marked {registry : ActorOwnershipRegistry} {entry : ActorEntry} (now : Nat)
    (hget : registry.entries.get? key = some entry) (hmark : entry.evictionRequestId.isSome) :
    ((expire now).apply registry).entries.get? key = some entry := by
  have hkept : entry.expire now = entry := by
    unfold ActorEntry.expire ActorEntry.expiredFence
    rw [hmark]
    cases entry.owner <;> rfl
  change (registry.entries.map (·.expire now)).get? key = some entry
  rw [get?_map, hget, Option.map_some, hkept]

/-- An idle eviction never completes. In every state that the router can reach, whoever
acknowledges an eviction that the scheduler holds, the owner and the eviction stay; and when the
registry has marked the owner, it stays through all later acknowledgements and expiries. -/
theorem idle_eviction_never_completes (hrun : Run (RouterStep options) {} events lane)
    {state : EvictionState} {fence : ActorOwnerFence}
    (hissued : lane.lease.evictions.get? key = some state)
    (howner : lane.registry.currentOwner key = some fence) (runtimeId connection : String) :
    let next := lane.handleOwnerControlAck runtimeId
      ("control:idle-evict-" ++ state.evictionRequestId) .idleEvict
      connection true
    next.registry.currentOwner key = some fence ∧ next.lease.evictions.get? key = some state ∧
      ∀ evictionRequestId, next.registry.Marked key evictionRequestId → ∀ later after,
        Run (RouterStep options) next later after → (∀ event ∈ later, AcksOrExpires event) →
        after.registry.currentOwner key = some fence ∧
          after.registry.Marked key evictionRequestId := by
  have hempty : lane.control.pending = ∅ :=
    Run.invariant (P := fun lane => lane.control.pending = ∅)
      (fun h hstep => pending_empty_of_step h hstep.1) hrun rfl
  dsimp only
  rw [handleOwnerControlAck_eq hempty]
  refine ⟨howner, hissued, ?_⟩
  rintro evictionRequestId ⟨entry, hget, howned, hmark⟩ later after hlater hkinds
  have hentry : after.registry.entries.get? key = some entry := by
    clear hissued howner hrun
    induction hlater with
    | nil => exact hget
    | @cons before middle _ event rest hstep hrest ih =>
      have hpending := pending_empty_of_step hempty hstep.1
      refine ih hpending ?_ fun other hother => hkinds other (.tail _ hother)
      obtain rfl := hstep.1
      obtain ⟨runtimeId, requestId, operation, connection, accepted, rfl⟩ | ⟨now, rfl⟩ | ⟨now,
        rfl⟩ :=
        hkinds event (.head _)
      · change (before.handleOwnerControlAck _ _ _ _ _).registry.entries.get? key = some entry
        rw [handleOwnerControlAck_eq hempty]
        exact hget
      · refine get?_expire_of_marked now hget ?_
        rw [hmark]
        rfl
      · exact hget
  refine ⟨?_, entry, hentry, howned, hmark⟩
  unfold currentOwner at howner ⊢
  rw [hentry, ← howner, hget]

end Runs

/-! ## An actor that is removed, and one that is acknowledged -/

namespace Evicted

def key : ActorLogicalKey := ⟨"service", "actor", "id", "v1", "YQ==", "hash"⟩

def unit : ActorDeclarationOwnerFrameHeader := ⟨.service, .loadedFileIndex 0, "Actor"⟩

def fence :
    ActorOwnerFence := ⟨1, "runtime", "lease", "build", 30000, ⟨"abi"⟩, ⟨"implementation"⟩, unit⟩

def token : ActorClaimToken := ⟨.mint 0, key, 1, "runtime", ⟨"build"⟩⟩

/-- The owner is idle until the sweep, which writes to it. -/
def events : List LaneEvent :=
  [.access (.call (.ensurePresent key ⟨"abi"⟩ ⟨"implementation"⟩ unit [])),
    .access (.call (.reserve key 1 "runtime" ⟨"build"⟩ 0)),
    .access (.call (.commit token ⟨⟨"abi"⟩, ⟨"implementation"⟩, unit, "lease"⟩ 0 30000)),
    .markLive key 0 "runtime#1",
    .sweep 30000 (fun _ _ _ => .written) ⟨fun _ => [], fun _ => [], []⟩]

def lane (events : List LaneEvent) : ActorLane := events.foldl (apply {}) {}

/-- `handle_remove` takes the owner. -/
def removal : LaneEvent := .access (.call (.release key fence .upgraded))

theorem issued : (lane events).lease.evictions.get? key = some ⟨"evict:1", 0, false⟩ := by decide

theorem owned : (lane events).registry.currentOwner key = some fence := by decide

theorem routerRun (reached : ActorLane) (events : List LaneEvent)
    (hrouter : ∀ event ∈ events, ∀ key evictionRequestId,
      event ≠ .evictionAck key evictionRequestId) :
    Run (RouterStep {}) reached events (events.foldl (apply {}) reached) := by
  induction events generalizing reached with
  | nil => exact .nil reached
  | cons event rest ih =>
    exact .cons ⟨rfl, hrouter event (.head _)⟩
      (ih _ fun other hother => hrouter other (.tail _ hother))

theorem fromRouter :
    ∀ event ∈ events, ∀ key evictionRequestId, event ≠ .evictionAck key evictionRequestId := by
  intro event hmem key id heq
  rw [heq] at hmem
  simp [events] at hmem

/-- Calls of others are clean where no key is being evicted. -/
theorem clean_of_empty {reached : ActorLane} (h : reached.lease.evictions = ∅) (a : Access) :
    reached.CleanStep {} (.access a) (reached.access a) := by
  refine ⟨rfl, fun other hheld => ?_⟩
  rw [h, get?_empty] at hheld
  cases hheld

theorem cleanRun : Run (CleanStep {}) {} events (lane events) := by
  refine .cons (clean_of_empty rfl _) (.cons (clean_of_empty rfl _) (.cons (clean_of_empty rfl _)
    (.cons ⟨rfl, trivial⟩ (.single ⟨rfl, fun key => ⟨?_, ?_⟩, ?_⟩))))
  all_goals exact fun _ hmem => absurd hmem List.not_mem_nil

end Evicted

open Evicted in
theorem evictions_agree_idle : ((lane events).onEvictionAck key "evict:1").isSome :=
  (evictions_agree cleanRun).2 key _ issued (Finset.notMem_empty key)

open Evicted in
/-- The actor is removed while it is being evicted: no call is in progress, and the scheduler
holds an eviction of a key without an owner, which nobody can acknowledge. -/
theorem removed_while_evicted :
    Run (Step {}) {} (events ++ [removal]) (lane (events ++ [removal])) ∧
      (lane (events ++ [removal])).closing = ∅ ∧ ¬(lane (events ++ [removal])).Agreed ∧
        (lane (events ++ [removal])).lease.evictions.get? key = some ⟨"evict:1", 0, false⟩ ∧
          (lane (events ++ [removal])).onEvictionAck key "evict:1" = none := by
  have hheld : (lane (events ++ [removal])).lease.evictions.get? key =
    some ⟨"evict:1", 0, false⟩ := by decide
  have hunowned : (lane (events ++ [removal])).registry.currentOwner key = none := by decide
  refine ⟨Run.of_foldl _ _ _, rfl, fun hagreed => ?_, hheld, rfl⟩
  obtain ⟨entry, hget, howner, -⟩ := hagreed key _ hheld (Finset.notMem_empty key)
  rw [currentOwner, hget, Option.bind_some] at hunowned
  rw [hunowned] at howner
  cases howner

open Evicted in
theorem idle_eviction_never_completes_here :
    ((lane events).handleOwnerControlAck "runtime"
      ("control:idle-evict-" ++ "evict:1") .idleEvict "runtime#1"
      true).registry.currentOwner key = some fence :=
  (idle_eviction_never_completes
    (routerRun {} events fromRouter) issued owned "runtime" "runtime#1").1

open Evicted in
/-- The sweep requests an eviction and writes its frame; the owner accepts it, and stays. -/
theorem acknowledged_and_kept :
    Run (RouterStep {}) {} events (lane events) ∧
      (lane events).lease.evictions.get? key = some ⟨"evict:1", 0, false⟩ ∧
        ⟨"evict:1", key, fence⟩ ∈ (lane events).written ∧
          (lane (events ++
            [.ownerControlAck "runtime" "control:idle-evict-evict:1" .idleEvict "runtime#1"
            true])).registry.Marked key "evict:1" :=
  ⟨routerRun {} events fromRouter, issued, by decide, ⟨_, rfl, rfl, rfl⟩⟩

end ActorLane

end Skiff.Actor
