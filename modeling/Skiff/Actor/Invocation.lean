import Skiff.Actor.Activation

/-!
# The invocation relay

`ActorInvocationRelay` correlates actor method calls: an invocation is pending from its
admission until the owner settles it, the caller cancels it, a side disconnects, its
deadline passes or the router shuts down. `ended` records these outcomes in order.

`invoke` looks at the pending invocations only. It does not ask the tombstones, so an id
that has ended can be admitted again; the relay keeps its promise of one outcome for each
id exactly in the runs in which this does not happen.
-/

namespace Skiff.Actor

open List OrdMap Run

structure ActorInvocationRelayOptions where
  maxConcurrency : Nat := 64
  maxTombstones : Nat := 1024

structure ActorInvokeInput where
  invocationId : String
  callerConnection : String
  callerRuntimeId : String
  ownerFence : ActorOwnerFence
  ownerConnection : String
  routeAuthority : ActorOwnerRouteAuthority
  correlation : String
  deadline : Option ActorMethodDeadlineFrameHeader
  testCaseCapability : Option String
  now : Nat

inductive InvocationError where
  | duplicate
  | saturated

inductive OwnerSettleKind where
  | returned
  | error

structure InvocationSettled where
  invocationId : String
  kind : OwnerSettleKind

inductive InvocationTerminalKind where
  | ownerUnavailable
  | deadline
  | callerDisconnected
  | routerShutdown

structure InvocationTerminal where
  invocationId : String
  kind : InvocationTerminalKind

inductive ActorMethodCancelReason where
  | cancelled
  | deadlineExceeded

structure OwnerCancel where
  invocationId : String
  correlation : String
  reason : ActorMethodCancelReason

structure PendingInvocation where
  callerConnection : String
  ownerFence : ActorOwnerFence
  ownerConnection : String
  correlation : String
  deadlineAt : Option Nat
  testCaseCapability : Option String

/-- How an invocation ended. -/
inductive InvocationOutcome where
  | settled (kind : OwnerSettleKind)
  | cancelled
  | terminal (kind : InvocationTerminalKind)

structure InvocationRelay where
  pending : OrdMap String PendingInvocation
  tombstones : Finset String
  ended : List (String × InvocationOutcome)

namespace InvocationRelay

variable (options : ActorInvocationRelayOptions) (relay : InvocationRelay)

def new : InvocationRelay where
  pending := ∅
  tombstones := ∅
  ended := []

/-- The invocation leaves the pending ones with this outcome. -/
def finish (invocationId : String) (outcome : InvocationOutcome) : InvocationRelay where
  pending := relay.pending.erase invocationId
  tombstones := insert invocationId relay.tombstones
  ended := relay.ended ++ [(invocationId, outcome)]

def newPending (input : ActorInvokeInput) : PendingInvocation where
  callerConnection := input.callerConnection
  ownerFence := input.ownerFence
  ownerConnection := input.ownerConnection
  correlation := input.correlation
  deadlineAt := input.deadline.map fun deadline => saturatingAdd input.now deadline.timeoutMs
  testCaseCapability := input.testCaseCapability

def invoke (input : ActorInvokeInput) : Except InvocationError InvocationRelay :=
  if relay.pending.contains input.invocationId then .error .duplicate
  else if options.maxConcurrency ≤ relay.pending.size then .error .saturated
  else
    .ok { relay with pending := relay.pending.insert input.invocationId (newPending input) }

def onOwnerSettle (invocationId : String) (fence : ActorOwnerFence) (connection : String)
    (kind : OwnerSettleKind) : Except String (InvocationSettled × InvocationRelay) :=
  match relay.pending.get? invocationId with
  | none => .error "already settled (duplicate settle or unknown invocation)"
  | some pending =>
    if pending.ownerFence ≠ fence ∨ pending.ownerConnection ≠ connection then
      .error "settle did not come from the exact admitted owner"
    else .ok (⟨invocationId, kind⟩, relay.finish invocationId (.settled kind))

def onCallerCancel (callerConnection invocationId correlation : String) :
    Except String (OwnerCancel × InvocationRelay) :=
  match relay.pending.get? invocationId with
  | none => .error "already settled (duplicate settle or unknown invocation)"
  | some pending =>
    if pending.callerConnection ≠ callerConnection ∨ pending.correlation ≠ correlation then
      .error "cancel did not come from the correlated caller"
    else
      .ok (⟨invocationId, pending.correlation, .cancelled⟩, relay.finish invocationId .cancelled)

/-- `terminal_locked`: those of the listed invocations that are pending end. -/
def terminalLocked (ids : List String) (kind : InvocationTerminalKind) :
    List InvocationTerminal × InvocationRelay :=
  ids.foldl (fun (terminals, relay) id =>
    if relay.pending.contains id then
      (terminals ++ [⟨id, kind⟩], relay.finish id (.terminal kind))
    else (terminals, relay)) ([], relay)

/-- The pending ids with a property. -/
def pendingIds (select : PendingInvocation → Bool) : List String :=
  (relay.pending.entries.filter fun (_, pending) => select pending).map Prod.fst

def onOwnerDisconnect (runtimeId connection : String) : List InvocationTerminal × InvocationRelay :=
  relay.terminalLocked (relay.pendingIds fun pending =>
    pending.ownerFence.ownerRuntimeId = runtimeId && pending.ownerConnection = connection)
    .ownerUnavailable

def onCallerDisconnect (callerConnection : String) :
    (List OwnerCancel × List InvocationTerminal) × InvocationRelay :=
  let ids := relay.pendingIds fun pending => pending.callerConnection = callerConnection
  let cancels := ids.filterMap fun id =>
    (relay.pending.get? id).map fun pending => ⟨id, pending.correlation, .cancelled⟩
  let (terminals, next) := relay.terminalLocked ids .callerDisconnected
  ((cancels, terminals), next)

def onDeadline (invocationId : String) :
    Option (OwnerCancel × InvocationTerminal) × InvocationRelay :=
  match relay.pending.get? invocationId with
  | none => (none, relay)
  | some pending =>
    (some (⟨invocationId, pending.correlation, .deadlineExceeded⟩, ⟨invocationId, .deadline⟩),
      relay.finish invocationId (.terminal .deadline))

/-- Every invocation whose deadline has passed ends, each under its own lock. -/
def expireDeadlines (now : Nat) : List (OwnerCancel × InvocationTerminal) × InvocationRelay :=
  (relay.pendingIds fun pending => pending.deadlineAt.any (· ≤ now)).foldl
    (fun (outcomes, relay) id =>
      let (outcome, relay) := relay.onDeadline id
      (outcomes ++ outcome.toList, relay)) ([], relay)

def shutdown : List InvocationTerminal × InvocationRelay :=
  let (terminals, next) := relay.terminalLocked relay.pending.keys .routerShutdown
  (terminals, { next with tombstones := ∅ })

end InvocationRelay

/-- One call of the relay. -/
inductive RelayEvent where
  | invoke (input : ActorInvokeInput)
  | onOwnerSettle (invocationId : String) (fence : ActorOwnerFence) (connection : String)
      (kind : OwnerSettleKind)
  | onCallerCancel (callerConnection invocationId correlation : String)
  | onOwnerDisconnect (runtimeId connection : String)
  | onCallerDisconnect (callerConnection : String)
  | onDeadline (invocationId : String)
  | expireDeadlines (now : Nat)
  | shutdown

namespace InvocationRelay

variable {options : ActorInvocationRelayOptions} {relay next s t : InvocationRelay}
variable {event : RelayEvent} {events : List RelayEvent} {id : String}

/-- The relay after a call; a refused call leaves it alone. -/
def applyEvent (options : ActorInvocationRelayOptions) (relay : InvocationRelay) :
    RelayEvent → InvocationRelay
  | .invoke input => (relay.invoke options input).toOption.getD relay
  | .onOwnerSettle invocationId fence connection kind =>
    ((relay.onOwnerSettle invocationId fence connection kind).map Prod.snd).toOption.getD relay
  | .onCallerCancel callerConnection invocationId correlation =>
    ((relay.onCallerCancel callerConnection invocationId correlation).map
      Prod.snd).toOption.getD relay
  | .onOwnerDisconnect runtimeId connection => (relay.onOwnerDisconnect runtimeId connection).2
  | .onCallerDisconnect callerConnection => (relay.onCallerDisconnect callerConnection).2
  | .onDeadline invocationId => (relay.onDeadline invocationId).2
  | .expireDeadlines now => (relay.expireDeadlines now).2
  | .shutdown => relay.shutdown.2

def Step (options : ActorInvocationRelayOptions) (relay : InvocationRelay) (event : RelayEvent)
    (next : InvocationRelay) : Prop :=
  relay.applyEvent options event = next

theorem step_functional : Functional (Step options) := by
  rintro s event t t' rfl rfl
  rfl

def endedIds (relay : InvocationRelay) : List String := relay.ended.map Prod.fst

def Pending (relay : InvocationRelay) (id : String) : Prop :=
  ∃ pending, relay.pending.get? id = some pending

/-! ## What a call does -/

/-- One pending invocation ends. -/
def Ends (relay next : InvocationRelay) : Prop :=
  ∃ id outcome, relay.Pending id ∧ next.pending = relay.pending.erase id ∧
    next.ended = relay.ended ++ [(id, outcome)]

theorem ends_finish (h : relay.Pending id) (outcome : InvocationOutcome) :
    Ends relay (relay.finish id outcome) :=
  ⟨id, outcome, h, rfl, rfl⟩

/-- Pending invocations end, one after another. -/
abbrev EndsMany : InvocationRelay → InvocationRelay → Prop := Relation.ReflTransGen Ends

/-- A sweep in which every round ends pending invocations does. -/
theorem endsMany_foldl {α β : Type} {round : β × InvocationRelay → α → β × InvocationRelay}
    (hround : ∀ state a, EndsMany state.2 (round state a).2) (l : List α)
    (state : β × InvocationRelay) : EndsMany state.2 (l.foldl round state).2 := by
  induction l generalizing state with
  | nil => exact .refl
  | cons a rest ih => exact (hround state a).trans (ih _)

theorem endsMany_terminalLocked (relay : InvocationRelay) (ids : List String)
    (kind : InvocationTerminalKind) : EndsMany relay (relay.terminalLocked ids kind).2 := by
  refine endsMany_foldl ?_ ids ([], relay)
  rintro ⟨terminals, relay⟩ id
  simp only
  split
  · rename_i hpending
    exact .single (ends_finish (contains_iff.mp hpending) _)
  · exact .refl

theorem endsMany_onDeadline (relay : InvocationRelay) (id : String) :
    EndsMany relay (relay.onDeadline id).2 := by
  unfold onDeadline
  split
  · exact .refl
  rename_i pending hget
  exact .single (ends_finish ⟨pending, hget⟩ _)

theorem endsMany_expireDeadlines (relay : InvocationRelay) (now : Nat) :
    EndsMany relay (relay.expireDeadlines now).2 := by
  refine endsMany_foldl ?_ _ ([], relay)
  rintro ⟨outcomes, relay⟩ id
  exact endsMany_onDeadline relay id

theorem onOwnerSettle_eq_ok {fence : ActorOwnerFence} {connection : String}
    {kind : OwnerSettleKind} {settled : InvocationSettled}
    (h : relay.onOwnerSettle id fence connection kind = .ok (settled, next)) :
    ∃ pending, relay.pending.get? id = some pending ∧ pending.ownerFence = fence ∧
      pending.ownerConnection = connection ∧ next = relay.finish id (.settled kind) := by
  unfold onOwnerSettle at h
  split at h
  · cases h
  rename_i pending hget
  split at h
  · cases h
  rename_i hsame
  rw [not_or, not_not, not_not] at hsame
  cases h
  exact ⟨pending, hget, hsame.1, hsame.2, rfl⟩

theorem onCallerCancel_eq_ok {callerConnection correlation : String} {cancel : OwnerCancel}
    (h : relay.onCallerCancel callerConnection id correlation = .ok (cancel, next)) :
    relay.Pending id ∧ next = relay.finish id .cancelled := by
  unfold onCallerCancel at h
  split at h
  · cases h
  rename_i pending hget
  split at h
  · cases h
  cases h
  exact ⟨⟨pending, hget⟩, rfl⟩

/-- The invocation would be admitted. -/
def Admits (options : ActorInvocationRelayOptions) (relay : InvocationRelay)
    (input : ActorInvokeInput) : Prop :=
  ¬ relay.Pending input.invocationId ∧ relay.pending.size < options.maxConcurrency

variable {input : ActorInvokeInput}

theorem invoke_of_admits (h : relay.Admits options input) :
    relay.invoke options input =
      .ok { relay with pending := relay.pending.insert input.invocationId (newPending input) } := by
  have hfree : ¬ relay.pending.contains input.invocationId = true :=
    fun hcontains => h.1 (contains_iff.mp hcontains)
  rw [invoke, if_neg hfree, if_neg (not_le.mpr h.2)]

theorem admits_of_invoke (h : relay.invoke options input = .ok next) :
    relay.Admits options input := by
  unfold invoke at h
  split at h
  · cases h
  rename_i hfree
  split at h
  · cases h
  rename_i hroom
  exact ⟨fun hpending => hfree (contains_iff.mpr hpending), not_le.mp hroom⟩

/-- What a call does: it admits an invocation, or pending invocations end. -/
inductive Effect (options : ActorInvocationRelayOptions) (relay next : InvocationRelay) :
    RelayEvent → Prop
  | admitted {input : ActorInvokeInput} : relay.Admits options input →
      next.pending = relay.pending.insert input.invocationId (newPending input) →
      next.ended = relay.ended → Effect options relay next (.invoke input)
  | ended {event : RelayEvent} {last : InvocationRelay} :
      (∀ input, event = .invoke input → ¬ relay.Admits options input) →
      EndsMany relay last → next.pending = last.pending → next.ended = last.ended →
      Effect options relay next event

theorem effect (options : ActorInvocationRelayOptions) (relay : InvocationRelay)
    (event : RelayEvent) : Effect options relay (relay.applyEvent options event) event := by
  cases event with
  | invoke input =>
    by_cases hadmits : relay.Admits options input
    · rw [applyEvent, invoke_of_admits hadmits]
      exact .admitted hadmits rfl rfl
    have hrefused : relay.applyEvent options (.invoke input) = relay := by
      rw [applyEvent]
      cases hinvoke : relay.invoke options input with
      | error => rfl
      | ok => exact absurd (admits_of_invoke hinvoke) hadmits
    rw [hrefused]
    refine .ended ?_ .refl rfl rfl
    rintro _ ⟨⟩
    exact hadmits
  | onOwnerSettle invocationId fence connection kind =>
    refine .ended (by simp) ?_ rfl rfl
    rw [applyEvent]
    cases hsettle : relay.onOwnerSettle invocationId fence connection kind with
    | error => exact .refl
    | ok result =>
      obtain ⟨pending, hget, -, -, hnext⟩ := onOwnerSettle_eq_ok hsettle
      rw [Except.map, hnext]
      exact .single (ends_finish ⟨pending, hget⟩ _)
  | onCallerCancel callerConnection invocationId correlation =>
    refine .ended (by simp) ?_ rfl rfl
    rw [applyEvent]
    cases hcancel : relay.onCallerCancel callerConnection invocationId correlation with
    | error => exact .refl
    | ok result =>
      obtain ⟨hpending, hnext⟩ := onCallerCancel_eq_ok hcancel
      rw [Except.map, hnext]
      exact .single (ends_finish hpending _)
  | onOwnerDisconnect | onCallerDisconnect | shutdown =>
    exact .ended (by simp) (endsMany_terminalLocked _ _ _) rfl rfl
  | onDeadline => exact .ended (by simp) (endsMany_onDeadline _ _) rfl rfl
  | expireDeadlines => exact .ended (by simp) (endsMany_expireDeadlines _ _) rfl rfl

/-! ## Pending or ended -/

/-- No id has ended twice, and no pending id has ended. -/
structure Apart (relay : InvocationRelay) : Prop where
  once : relay.endedIds.Nodup
  pending : ∀ id, relay.Pending id → id ∉ relay.endedIds

theorem apart_new : Apart .new where
  once := nodup_nil
  pending := by
    intro id _ hmem
    cases hmem

theorem Ends.apart (hends : Ends relay next) (h : relay.Apart) : next.Apart := by
  obtain ⟨id, outcome, hpending, hnext, hended⟩ := hends
  have hids : next.endedIds = relay.endedIds ++ [id] := by simp [endedIds, hended]
  constructor
  · rw [hids, nodup_append]
    refine ⟨h.once, nodup_singleton _, ?_⟩
    intro other hmem last hlast heq
    rw [mem_singleton] at hlast
    subst hlast heq
    exact h.pending _ hpending hmem
  rintro other ⟨pending, hget⟩ hmem
  rw [hnext] at hget
  obtain ⟨hne, hget⟩ := get?_erase_eq_some.mp hget
  rw [hids, mem_append, mem_singleton] at hmem
  exact hmem.elim (h.pending other ⟨pending, hget⟩) hne

theorem EndsMany.apart (hends : EndsMany relay next) (h : relay.Apart) : next.Apart := by
  induction hends with
  | refl => exact h
  | tail _ hlast ih => exact hlast.apart ih

/-- An invocation that is accounted for stays so. -/
theorem Ends.accounted (hends : Ends relay next) (h : relay.Pending id ∨ id ∈ relay.endedIds) :
    next.Pending id ∨ id ∈ next.endedIds := by
  obtain ⟨last, outcome, -, hnext, hended⟩ := hends
  have hids : next.endedIds = relay.endedIds ++ [last] := by simp [endedIds, hended]
  rw [hids, mem_append, mem_singleton]
  obtain ⟨pending, hget⟩ | hmem := h
  · by_cases hid : id = last
    · exact .inr (.inr hid)
    refine .inl ⟨pending, ?_⟩
    rw [hnext, get?_erase_of_ne _ hid]
    exact hget
  · exact .inr (.inl hmem)

theorem EndsMany.accounted (hends : EndsMany relay next)
    (h : relay.Pending id ∨ id ∈ relay.endedIds) : next.Pending id ∨ id ∈ next.endedIds := by
  induction hends with
  | refl => exact h
  | tail _ hlast ih => exact hlast.accounted ih

theorem pending_congr (hpending : next.pending = relay.pending) :
    next.Pending id ↔ relay.Pending id := by
  simp [Pending, hpending]

theorem pending_insert
    (hnext : next.pending = relay.pending.insert input.invocationId (newPending input)) :
    next.Pending id ↔ id = input.invocationId ∨ relay.Pending id := by
  unfold Pending
  rw [hnext]
  simp only [get?_insert]
  by_cases hid : id = input.invocationId <;> simp [hid]

theorem accounted_apply (h : relay.Pending id ∨ id ∈ relay.endedIds) (event : RelayEvent) :
    (relay.applyEvent options event).Pending id ∨
      id ∈ (relay.applyEvent options event).endedIds := by
  cases effect options relay event with
  | admitted _ hpending hended =>
    rw [pending_insert hpending, endedIds, hended]
    exact h.imp_left .inr
  | ended _ hends hpending hended =>
    rw [pending_congr hpending, endedIds, hended]
    exact hends.accounted h

/-- A call keeps pending and ended apart unless it admits an id that has ended. -/
theorem Apart.apply (h : relay.Apart)
    (hfresh : ∀ input, event = .invoke input → relay.Admits options input →
      input.invocationId ∉ relay.endedIds) : (relay.applyEvent options event).Apart := by
  cases effect options relay event with
  | admitted hadmits hpending hended =>
    refine ⟨by rw [endedIds, hended]; exact h.once, ?_⟩
    intro id hid
    rw [endedIds, hended]
    obtain rfl | hid := (pending_insert hpending).mp hid
    · exact hfresh _ rfl hadmits
    · exact h.pending id hid
  | ended _ hends hpending hended =>
    have hapart := hends.apart h
    refine ⟨by rw [endedIds, hended]; exact hapart.once, ?_⟩
    intro id hid
    rw [endedIds, hended]
    exact hapart.pending id ((pending_congr hpending).mp hid)

/-! ## The law of a run -/

/-- The run admitted an invocation with this id. -/
def Admitted (options : ActorInvocationRelayOptions) (events : List RelayEvent)
    (id : String) : Prop :=
  ∃ before input after s, events = before ++ .invoke input :: after ∧
    Run (Step options) .new before s ∧ s.Admits options input ∧ input.invocationId = id

/-- Every id has at most one outcome, every admitted id is pending or has ended and not both,
and a settle that does not come from the fenced owner settles nothing. -/
structure SettlesOnce (options : ActorInvocationRelayOptions) (events : List RelayEvent)
    (relay : InvocationRelay) : Prop where
  once : ∀ id, relay.endedIds.count id ≤ 1
  either : ∀ id, Admitted options events id →
    (relay.Pending id ∧ id ∉ relay.endedIds) ∨ (¬ relay.Pending id ∧ id ∈ relay.endedIds)
  owner : ∀ id fence connection kind pending, relay.pending.get? id = some pending →
    fence.ownerRuntimeId ≠ pending.ownerFence.ownerRuntimeId ∨
      connection ≠ pending.ownerConnection →
    relay.applyEvent options (.onOwnerSettle id fence connection kind) = relay

/-- The law holds in every state of the run. -/
def Lawful (options : ActorInvocationRelayOptions) (events : List RelayEvent) : Prop :=
  ∀ before s, before <+: events → Run (Step options) .new before s → SettlesOnce options before s

/-- No invocation is admitted under an id that has ended before. -/
def FreshInvokes (options : ActorInvocationRelayOptions) (events : List RelayEvent) : Prop :=
  ∀ before input after s, events = before ++ .invoke input :: after →
    Run (Step options) .new before s → s.Admits options input →
    input.invocationId ∉ s.endedIds

theorem accounted_run (hrun : Run (Step options) .new events relay)
    (h : Admitted options events id) : relay.Pending id ∨ id ∈ relay.endedIds := by
  obtain ⟨before, input, after, s, rfl, hbefore, hadmits, rfl⟩ := h
  obtain ⟨s', hs', hrest⟩ := append_iff.mp hrun
  obtain rfl := functional step_functional hbefore hs'
  obtain ⟨_, rfl, hafter⟩ := cons_iff.mp hrest
  refine invariant (P := fun r => r.Pending input.invocationId ∨
    input.invocationId ∈ r.endedIds) ?_ hafter ?_
  · rintro s event t hs rfl
    exact accounted_apply hs event
  cases effect options s (.invoke input) with
  | admitted _ hpending _ => exact .inl ((pending_insert hpending).mpr (.inl rfl))
  | ended hrefused => exact absurd hadmits (hrefused input rfl)

theorem apart_run (hfresh : FreshInvokes options events)
    (hrun : Run (Step options) .new events relay) : relay.Apart := by
  induction events using reverseRecOn generalizing relay with
  | nil =>
    obtain rfl := nil_iff.mp hrun
    exact apart_new
  | append_singleton events event ih =>
    obtain ⟨s, hs, hlast⟩ := snoc_iff.mp hrun
    obtain rfl : s.applyEvent options event = relay := hlast
    have hbefore : FreshInvokes options events := by
      rintro before input after s rfl
      exact hfresh before input (after ++ [event]) s (by simp)
    refine (ih hbefore hs).apply ?_
    rintro input rfl
    exact hfresh events input [] s rfl hs

theorem settle_refused {fence : ActorOwnerFence} {connection : String} {kind : OwnerSettleKind}
    {pending : PendingInvocation} (hget : relay.pending.get? id = some pending)
    (hother : fence.ownerRuntimeId ≠ pending.ownerFence.ownerRuntimeId ∨
      connection ≠ pending.ownerConnection) :
    relay.applyEvent options (.onOwnerSettle id fence connection kind) = relay := by
  rw [applyEvent]
  cases hsettle : relay.onOwnerSettle id fence connection kind with
  | error => rfl
  | ok result =>
    obtain ⟨pending', hget', hfence, hconnection, -⟩ := onOwnerSettle_eq_ok hsettle
    rw [hget] at hget'
    cases hget'
    subst hfence hconnection
    simp at hother

/-- One invocation id settles at most once along a run, and stays in exactly one place,
if and only if no ended id is admitted again. -/
theorem lawful_iff_freshInvokes (options : ActorInvocationRelayOptions)
    (events : List RelayEvent) : Lawful options events ↔ FreshInvokes options events := by
  constructor
  · -- an ended id that is admitted again is pending and ended at once
    rintro hlawful before input after s rfl hbefore hadmits hended
    have hrun : Run (Step options) .new (before ++ [.invoke input])
        (s.applyEvent options (.invoke input)) := hbefore.trans (single rfl)
    have hinit : before ++ [.invoke input] <+: before ++ .invoke input :: after := ⟨after, by simp⟩
    have heither := (hlawful _ _ hinit hrun).either input.invocationId
      ⟨before, input, [], s, rfl, hbefore, hadmits, rfl⟩
    cases effect options s (.invoke input) with
    | admitted _ hpending hkept =>
      rw [pending_insert hpending, endedIds, hkept] at heither
      obtain ⟨-, hnot⟩ | ⟨hnot, -⟩ := heither
      · exact hnot hended
      · exact hnot (.inl rfl)
    | ended hrefused => exact hrefused input rfl hadmits
  rintro hfresh before s ⟨after, rfl⟩ hrun
  have hfresh' : FreshInvokes options before := by
    rintro earlier input later s rfl
    exact hfresh earlier input (later ++ after) s (by simp)
  have hapart := apart_run hfresh' hrun
  refine ⟨fun id => nodup_iff_count_le_one.mp hapart.once id, ?_, ?_⟩
  · intro id hadmitted
    by_cases hpending : s.Pending id
    · exact .inl ⟨hpending, hapart.pending id hpending⟩
    · exact .inr ⟨hpending, (accounted_run hrun hadmitted).resolve_left hpending⟩
  · intro id fence connection kind pending hget hother
    exact settle_refused hget hother

section Readmitted

/-- The owner of the invocations below. -/
def relayFence : ActorOwnerFence :=
  ⟨1, "runtime-a", "owner-lease-1", "sha256:build-v1", 30000, ⟨"skiff-actor-runtime-abi-v1"⟩,
    ⟨"impl-v1"⟩, ⟨.service, .fileIrIdentity "file-ir-v1", "SessionActor"⟩⟩

def relayInput : ActorInvokeInput :=
  ⟨"invocation-1", "caller-conn", "runtime-c", relayFence, "owner-conn", ⟨"sha256:build-v1"⟩,
    "correlation-1", none, none, 0⟩

/-- The same id is invoked and settled twice. -/
def readmittedEvents : List RelayEvent :=
  [ .invoke relayInput, .onOwnerSettle "invocation-1" relayFence "owner-conn" .returned,
    .invoke relayInput, .onOwnerSettle "invocation-1" relayFence "owner-conn" .error ]

theorem readmitted_settles_twice : ¬ Lawful {} readmittedEvents := by
  intro hlawful
  have honce := (hlawful _ _ (prefix_refl _)
    (of_foldl (applyEvent {}) .new readmittedEvents)).once "invocation-1"
  have htwice : (readmittedEvents.foldl (applyEvent {}) .new).endedIds.count "invocation-1" =
    2 := by
    decide
  omega

end Readmitted

end InvocationRelay
end Skiff.Actor
