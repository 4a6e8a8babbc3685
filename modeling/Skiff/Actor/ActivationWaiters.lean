import Skiff.Actor.ActivationClaims

/-!
# Runs of the activation broker

Along every run, with whatever the other users of the registry do in between: the tables
fit, every admitted caller waits in a live claim or has its one answer, a claim ends with
the same answer for all of its waiters, callers that share a claim share their lineage,
and an acknowledgement that does not name a live claim and its owner changes nothing.
-/

namespace Skiff.Actor

open ActorOwnershipRegistry BrokerEvent List OrdMap

def BrokerEvent.rpcId? : BrokerEvent → Option String
  | .getOrCreate request _ _ => some request.rpcId
  | _ => none

namespace ActivationBroker

variable {options : ActorActivationBrokerOptions} {broker next s t : ActivationBroker}
variable {request : ActorGetOrCreateRequest} {event : BrokerEvent} {events : List BrokerEvent}
variable {rpcId : String}

/-! ## One event -/

/-- Every event but `getOrCreate` is a row of quiet changes. -/
theorem apply_quiets (h : broker.Kept) (hquiet : event.rpcId? = none) :
    Quiets broker (event.apply options broker) := by
  cases event with
  | getOrCreate => cases hquiet
  | onActivationAck => exact .single (onActivationAck_spec h).1
  | onActivationTimeout => exact .single (onActivationTimeout_spec h)
  | expireDeadlines => exact expireDeadlines_spec h
  | shutdown => exact shutdown_spec h
  | outside call => exact .single (.same rfl rfl (h.wait [call]))

theorem apply_kept (h : broker.Kept) (event : BrokerEvent) : (event.apply options broker).Kept := by
  cases hrpc : event.rpcId? with
  | none => exact (apply_quiets h hrpc).kept h
  | some rpcId =>
    cases event with
    | getOrCreate request control gaps => exact (getOrCreate_spec h).1
    | _ => cases hrpc

theorem kept_run (hrun : Run (Step options) s events t) (h : s.Kept) : t.Kept := by
  refine Run.invariant ?_ hrun h
  rintro s event t hs rfl
  exact apply_kept hs event

/-! ## Waiting or answered -/

/-- How often `rpcId` waits in a live claim. -/
def waiting (broker : ActivationBroker) (rpcId : String) : Nat :=
  broker.claims.weight fun _ claim => claim.waiters.count rpcId

/-- How often `rpcId` was answered. -/
def answers (broker : ActivationBroker) (rpcId : String) : Nat :=
  (broker.answered.map Prod.fst).count rpcId

def total (broker : ActivationBroker) (rpcId : String) : Nat :=
  broker.waiting rpcId + broker.answers rpcId

theorem weightAt_of_get? {claim : ActivationClaim} {key : ActorLogicalKey}
    {f : ActorLogicalKey → ActivationClaim → Nat} (h : broker.claims.get? key = some claim) :
    broker.claims.weightAt f key = f key claim := by
  simp [weightAt, h]

theorem waiting_pos_iff : 0 < broker.waiting rpcId ↔
    ∃ key claim, broker.claims.get? key = some claim ∧ rpcId ∈ claim.waiters := by
  unfold waiting
  constructor
  · intro hpos
    by_contra hnone
    refine hpos.ne' (List.sum_eq_zero_iff_forall_eq_nat.mpr ?_)
    intro n hmem
    obtain ⟨⟨key, claim⟩, hentry, rfl⟩ := List.mem_map.mp hmem
    refine List.count_eq_zero.mpr fun hwaits => hnone ⟨key, claim, ?_, hwaits⟩
    exact get?_eq_some_iff.mpr hentry
  rintro ⟨key, claim, hget, hmem⟩
  have herase := broker.claims.weight_erase (fun _ claim => claim.waiters.count rpcId) key
  rw [weightAt_of_get? hget] at herase
  have hcount := count_pos_iff.mpr hmem
  omega

theorem Quiet.total (h : Quiet broker next) (rpcId : String) :
    next.total rpcId = broker.total rpcId := by
  unfold ActivationBroker.total waiting answers
  cases h with
  | same hclaims hanswered _ => rw [hclaims, hanswered]
  | @ends key claim outcome hget hclaims hanswered _ =>
    have herase := broker.claims.weight_erase (fun _ claim => claim.waiters.count rpcId) key
    rw [weightAt_of_get? hget] at herase
    rw [hclaims, hanswered, map_append, count_append, map_map]
    simp only [Function.comp_def, map_id']
    omega

theorem Quiets.total (h : Quiets broker next) (rpcId : String) :
    next.total rpcId = broker.total rpcId := by
  induction h with
  | refl => rfl
  | tail _ hlast ih => rw [hlast.total rpcId, ih]

variable {outcome : GetOrCreateOutcome}

theorem Admission.total (h : Admission broker request next outcome) (rpcId : String) :
    next.total rpcId = broker.total rpcId +
      if request.rpcId = rpcId ∧ outcome ≠ .saturated then 1 else 0 := by
  unfold ActivationBroker.total waiting answers
  cases h with
  | saturated hclaims hanswered => simp [hclaims, hanswered]
  | answered answer hroom hclaims hanswered =>
    rw [hclaims, hanswered, map_append, count_append]
    by_cases hrpc : request.rpcId = rpcId
    · simp [hrpc, hroom]
      omega
    · simp [hrpc]
  | @joined claim hget _ hclaims hanswered =>
    have hinsert := broker.claims.weight_insert
      (fun _ claim => claim.waiters.count rpcId) request.actorKey
      { claim with waiters := claim.waiters ++ [request.rpcId] }
    rw [weightAt_of_get? hget] at hinsert
    rw [hclaims, hanswered]
    simp only [count_append] at hinsert
    by_cases hrpc : request.rpcId = rpcId <;> simp [hrpc] at hinsert ⊢ <;> omega
  | @started claim requestId habsent hwaiters _ hclaims hanswered =>
    have hinsert := broker.claims.weight_insert
      (fun _ claim => claim.waiters.count rpcId) request.actorKey claim
    simp only [weightAt, habsent, Option.elim_none, hwaiters] at hinsert
    rw [hclaims, hanswered]
    by_cases hrpc : request.rpcId = rpcId <;> simp [hrpc] at hinsert ⊢ <;> omega

variable {control : ActivateInitialControlRequest → Except String Unit}

theorem getOrCreate_total {gaps : AdmissionGaps} (h : broker.Kept) (rpcId : String) :
    (broker.getOrCreate options request control gaps).2.total rpcId = broker.total rpcId +
      if request.rpcId = rpcId ∧ (broker.getOrCreate options request control gaps).1 ≠ .saturated
      then 1 else 0 :=
  (getOrCreate_spec h).2.total rpcId

theorem apply_total (h : broker.Kept) (hother : event.rpcId? ≠ some rpcId) :
    (event.apply options broker).total rpcId = broker.total rpcId := by
  cases hrpc : event.rpcId? with
  | none => exact (apply_quiets h hrpc).total rpcId
  | some other =>
    cases event with
    | getOrCreate request control gaps =>
      have hne : request.rpcId ≠ rpcId := fun heq => hother (congrArg some heq)
      refine (getOrCreate_total h rpcId).trans ?_
      rw [if_neg (fun hboth => hne hboth.1), Nat.add_zero]
    | _ => cases hrpc

/-- Events without this caller leave it where it is. -/
theorem total_run (hrun : Run (Step options) s events t) (h : s.Kept)
    (hother : ∀ event ∈ events, event.rpcId? ≠ some rpcId) : t.total rpcId = s.total rpcId := by
  induction hrun with
  | nil => rfl
  | @cons s _ u event rest hstep _ ih =>
    obtain rfl := hstep
    have hrest := ih (apply_kept h event) fun later hmem => hother later (.tail _ hmem)
    exact hrest.trans (apply_total h (hother event (.head _)))

/-! ## The end of a claim -/

/-- Answers are kept, and a live claim lives on or has one answer for all of its waiters. -/
structure Carries (broker next : ActivationBroker) : Prop where
  answered : broker.answered <+: next.answered
  claims : ∀ key claim, broker.claims.get? key = some claim →
    (∃ claim', next.claims.get? key = some claim' ∧ claim'.token = claim.token ∧
      claim.waiters ⊆ claim'.waiters) ∨
    ∃ outcome, ∀ waiter ∈ claim.waiters, (waiter, outcome) ∈ next.answered

theorem Carries.refl (broker : ActivationBroker) : Carries broker broker :=
  ⟨prefix_refl _, fun _ claim hget => .inl ⟨claim, hget, rfl, List.Subset.refl _⟩⟩

theorem Carries.trans (hst : Carries broker s) (htu : Carries s next) : Carries broker next where
  answered := hst.answered.trans htu.answered
  claims := by
    intro key claim hget
    obtain ⟨claim', hget', htoken, hsub⟩ | ⟨outcome, hall⟩ := hst.claims key claim hget
    · obtain ⟨last, hlast, htoken', hsub'⟩ | ⟨outcome, hall⟩ := htu.claims key claim' hget'
      · exact .inl ⟨last, hlast, htoken'.trans htoken, List.Subset.trans hsub hsub'⟩
      · exact .inr ⟨outcome, fun waiter hmem => hall waiter (hsub hmem)⟩
    · exact .inr ⟨outcome, fun waiter hmem => htu.answered.subset (hall waiter hmem)⟩

theorem Quiet.carries (h : Quiet broker next) : Carries broker next := by
  cases h with
  | same hclaims hanswered _ =>
    refine ⟨by rw [hanswered], fun key claim hget => .inl ⟨claim, ?_, rfl, List.Subset.refl _⟩⟩
    rw [hclaims]
    exact hget
  | @ends ended endedClaim outcome hended hclaims hanswered _ =>
    refine ⟨by rw [hanswered]; exact prefix_append _ _, ?_⟩
    intro key claim hget
    by_cases hkey : key = ended
    · subst hkey
      rw [hended] at hget
      cases hget
      refine .inr ⟨outcome, fun waiter hmem => ?_⟩
      rw [hanswered]
      exact mem_append_right _ (List.mem_map.mpr ⟨waiter, hmem, rfl⟩)
    refine .inl ⟨claim, ?_, rfl, List.Subset.refl _⟩
    rw [hclaims, get?_erase_of_ne _ hkey]
    exact hget

theorem Admission.carries (h : Admission broker request next outcome) : Carries broker next := by
  cases h with
  | saturated hclaims hanswered =>
    refine ⟨by rw [hanswered], fun key claim hget => .inl ⟨claim, ?_, rfl, List.Subset.refl _⟩⟩
    rw [hclaims]
    exact hget
  | answered answer _ hclaims hanswered =>
    refine ⟨by rw [hanswered]; exact prefix_append _ _,
      fun key claim hget => .inl ⟨claim, ?_, rfl, List.Subset.refl _⟩⟩
    rw [hclaims]
    exact hget
  | @joined joined hjoined _ hclaims hanswered =>
    refine ⟨by rw [hanswered], fun key claim hget => .inl ?_⟩
    rw [hclaims, get?_insert]
    split
    case isTrue hkey =>
      rw [hkey, hjoined] at hget
      cases hget
      exact ⟨_, rfl, rfl, subset_append_left _ _⟩
    case isFalse => exact ⟨claim, hget, rfl, List.Subset.refl _⟩
  | started habsent _ _ hclaims hanswered =>
    refine ⟨by rw [hanswered], fun key claim hget => .inl ⟨claim, ?_, rfl, List.Subset.refl _⟩⟩
    rw [hclaims]
    exact get?_insert_of_fresh habsent hget

theorem Quiets.carries (h : Quiets broker next) : Carries broker next := by
  induction h with
  | refl => exact .refl broker
  | tail _ hlast ih => exact ih.trans hlast.carries

theorem apply_carries (h : broker.Kept) (event : BrokerEvent) :
    Carries broker (event.apply options broker) := by
  cases hrpc : event.rpcId? with
  | none => exact (apply_quiets h hrpc).carries
  | some other =>
    cases event with
    | getOrCreate => exact (getOrCreate_spec h).2.carries
    | _ => cases hrpc

theorem carries_run (hrun : Run (Step options) s events t) (h : s.Kept) : Carries s t := by
  induction hrun with
  | nil => exact .refl _
  | @cons s _ u event rest hstep _ ih =>
    obtain rfl := hstep
    exact (apply_carries h event).trans (ih (apply_kept h event))

/-! ## Lineages -/

/-- Every waiter of a claim called for its key with its lineage. -/
def Called (events : List BrokerEvent) (broker : ActivationBroker) : Prop :=
  ∀ key claim waiter, broker.claims.get? key = some claim → waiter ∈ claim.waiters →
    ∃ request control gaps, BrokerEvent.getOrCreate request control gaps ∈ events ∧
      request.rpcId = waiter ∧ request.actorKey = key ∧ request.lineage = claim.lineage

theorem Called.mono {events' : List BrokerEvent} (h : Called events broker)
    (hsub : events ⊆ events') : Called events' broker := by
  intro key claim waiter hget hmem
  obtain ⟨request, control, gaps, hevent, hrest⟩ := h key claim waiter hget hmem
  exact ⟨request, control, gaps, hsub hevent, hrest⟩

theorem Quiet.called (hquiet : Quiet broker next) (h : Called events broker) :
    Called events next := by
  intro key claim waiter hget hmem
  cases hquiet with
  | same hclaims _ _ => exact h key claim waiter (hclaims ▸ hget) hmem
  | ends _ hclaims _ _ =>
    rw [hclaims] at hget
    obtain ⟨-, hget⟩ := get?_erase_eq_some.mp hget
    exact h key claim waiter hget hmem

theorem Quiets.called (hquiets : Quiets broker next) (h : Called events broker) :
    Called events next := by
  induction hquiets with
  | refl => exact h
  | tail _ hlast ih => exact hlast.called ih

theorem Admission.called {gaps : AdmissionGaps}
    (hadmission : Admission broker request next outcome) (h : Called events broker)
    (hevent : .getOrCreate request control gaps ∈ events) : Called events next := by
  intro key claim waiter hget hmem
  cases hadmission with
  | saturated hclaims _ | answered _ _ hclaims _ => exact h key claim waiter (hclaims ▸ hget) hmem
  | @joined joined hjoined hlineage hclaims _ =>
    rw [hclaims] at hget
    obtain ⟨hkey, rfl⟩ | ⟨-, hget⟩ := get?_insert_eq_some.mp hget
    · subst hkey
      obtain hold | hnew := mem_append.mp hmem
      · exact h _ joined waiter hjoined hold
      obtain rfl := mem_singleton.mp hnew
      exact ⟨request, control, gaps, hevent, rfl, rfl, hlineage.symm⟩
    · exact h key claim waiter hget hmem
  | started _ hwaiters hlineage hclaims _ =>
    rw [hclaims] at hget
    obtain ⟨hkey, rfl⟩ | ⟨-, hget⟩ := get?_insert_eq_some.mp hget
    · subst hkey
      rw [hwaiters, mem_singleton] at hmem
      exact ⟨request, control, gaps, hevent, hmem.symm, rfl, hlineage.symm⟩
    · exact h key claim waiter hget hmem

theorem called_run (hrun : Run (Step options) .new events broker) : Called events broker := by
  refine Run.history (P := Called) ?_ ?_ hrun
  · intro key claim waiter hget
    cases hget
  rintro events s event t hrun hs rfl
  have hkept := kept_run hrun Actor.Kept.new
  have hs' := hs.mono (subset_append_left events [event])
  cases hrpc : event.rpcId? with
  | none => exact (apply_quiets hkept hrpc).called hs'
  | some other =>
    cases event with
    | getOrCreate request control gaps =>
      exact (getOrCreate_spec hkept).2.called hs' (mem_append_right _ (.head _))
    | _ => cases hrpc

/-! ## The laws of a run -/

/-- The index lists the live claims, their tokens are the reservations of the registry up to
new incarnations, and nothing else is reserved. -/
structure Consistent (broker : ActivationBroker) : Prop where
  index : ∀ requestId key, broker.byRequestId.get? requestId = some key ↔
    ∃ claim, broker.claims.get? key = some claim ∧ claim.token.claimId.asStr = requestId
  held : ∀ key claim, broker.claims.get? key = some claim →
    ∃ entry, broker.registry.entries.get? key = some entry ∧
      (entry.reservation = some claim.token ∨ claim.token.expectedEpoch < entry.epoch)
  covered : ∀ key entry token, broker.registry.entries.get? key = some entry →
    entry.reservation = some token →
    ∃ claim, broker.claims.get? key = some claim ∧ claim.token = token

theorem Kept.consistent (h : broker.Kept) : broker.Consistent where
  index := h.index
  held := by
    intro key claim hget
    obtain ⟨entry, hentry, -, -, hheld⟩ := h.held key claim hget
    exact ⟨entry, hentry, hheld⟩
  covered key entry token hget hreserved :=
    (h.covered key entry token hget hreserved).resolve_left (by simp)

/-- A caller that was not turned away for lack of room has no answer while its claim is
live and one answer from then on. -/
def AnswersOnce (options : ActorActivationBrokerOptions) (events : List BrokerEvent) : Prop :=
  ∀ before request control gaps after s t,
    events = before ++ .getOrCreate request control gaps :: after →
    Run (Step options) .new before s →
    Run (Step options) s (.getOrCreate request control gaps :: after) t →
    (s.getOrCreate options request control gaps).1 ≠ .saturated →
    ((∃ key claim, t.claims.get? key = some claim ∧ request.rpcId ∈ claim.waiters) →
      t.answers request.rpcId = 0) ∧
    ((¬ ∃ key claim, t.claims.get? key = some claim ∧ request.rpcId ∈ claim.waiters) →
      t.answers request.rpcId = 1)

/-- A claim that is over has answered all of its waiters alike. -/
def AnswersAlike (options : ActorActivationBrokerOptions) (events : List BrokerEvent) : Prop :=
  ∀ before after s t key claim, events = before ++ after → Run (Step options) .new before s →
    Run (Step options) s after t → s.claims.get? key = some claim →
    (∃ claim', t.claims.get? key = some claim' ∧ claim'.token = claim.token ∧
      claim.waiters ⊆ claim'.waiters) ∨
    ∃ outcome, ∀ waiter ∈ claim.waiters, (waiter, outcome) ∈ t.answered

/-- Callers that wait in one claim have the lineage of the claim. -/
def LineagesApart (events : List BrokerEvent) (broker : ActivationBroker) : Prop :=
  ∀ key claim request control gaps, broker.claims.get? key = some claim →
    .getOrCreate request control gaps ∈ events → request.rpcId ∈ claim.waiters →
    request.lineage = claim.lineage

/-- An acknowledgement changes something only if it names a live claim, its owner and the
connection of the owner. -/
def AcksCorrelate (options : ActorActivationBrokerOptions) (broker : ActivationBroker) : Prop :=
  ∀ requestId runtimeId connection accepted now gap,
    ¬ broker.Correlates requestId runtimeId connection →
    (broker.onActivationAck options requestId runtimeId connection accepted now gap).2 = broker

theorem answersOnce (hdistinct : (events.filterMap rpcId?).Nodup) : AnswersOnce options events := by
  rintro before request control gaps after s t rfl hbefore hrest hroom
  have hid : (BrokerEvent.getOrCreate request control gaps).rpcId? = some request.rpcId := rfl
  rw [filterMap_append, filterMap_cons_some hid, nodup_append, nodup_cons] at hdistinct
  obtain ⟨-, ⟨hafter, -⟩, hdisjoint⟩ := hdistinct
  have hnotAfter : ∀ event ∈ after, event.rpcId? ≠ some request.rpcId := by
    intro event hmem heq
    exact hafter (mem_filterMap.mpr ⟨event, hmem, heq⟩)
  have hnotBefore : ∀ event ∈ before, event.rpcId? ≠ some request.rpcId := by
    intro event hmem heq
    exact hdisjoint _ (mem_filterMap.mpr ⟨event, hmem, heq⟩) _ (.head _) rfl
  have hkept := kept_run hbefore Actor.Kept.new
  have hstart : s.total request.rpcId = 0 := total_run hbefore Actor.Kept.new hnotBefore
  obtain ⟨u, hu, hrun⟩ := Run.cons_iff.mp hrest
  obtain rfl : (s.getOrCreate options request control gaps).2 = u := hu
  have hadmitted : (s.getOrCreate options request control gaps).2.total request.rpcId = 1 := by
    rw [getOrCreate_total hkept, if_pos ⟨rfl, hroom⟩, hstart]
  have htotal := total_run hrun (getOrCreate_spec hkept).1 hnotAfter
  rw [hadmitted] at htotal
  unfold total at htotal
  constructor
  · intro hlive
    have := waiting_pos_iff.mpr hlive
    omega
  intro hended
  have : ¬ 0 < t.waiting request.rpcId := fun hpos => hended (waiting_pos_iff.mp hpos)
  omega

theorem answersAlike (events : List BrokerEvent) : AnswersAlike options events := by
  intro before after s t key claim _ hbefore hafter hget
  exact (carries_run hafter (kept_run hbefore Actor.Kept.new)).claims key claim hget

/-- Callers are told apart by their rpc ids. -/
theorem eq_of_rpcId?_eq {a b : BrokerEvent}
    (hdistinct : (events.filterMap rpcId?).Nodup) (ha : a ∈ events) (hb : b ∈ events)
    (hida : a.rpcId? = some rpcId) (hidb : b.rpcId? = some rpcId) : a = b := by
  induction events with
  | nil => cases ha
  | cons event rest ih =>
    have hlater : ∀ c ∈ rest, c.rpcId? = some rpcId → event.rpcId? ≠ some rpcId := by
      intro c hc hidc hid
      rw [filterMap_cons_some hid, nodup_cons] at hdistinct
      exact hdistinct.1 (mem_filterMap.mpr ⟨c, hc, hidc⟩)
    have hrest : (rest.filterMap rpcId?).Nodup := by
      cases hid : event.rpcId? with
      | none => rwa [filterMap_cons_none hid] at hdistinct
      | some _ =>
        rw [filterMap_cons_some hid, nodup_cons] at hdistinct
        exact hdistinct.2
    obtain rfl | ha' := mem_cons.mp ha
    · obtain rfl | hb' := mem_cons.mp hb
      · rfl
      · exact absurd hida (hlater b hb' hidb)
    obtain rfl | hb' := mem_cons.mp hb
    · exact absurd hidb (hlater a ha' hida)
    · exact ih hrest ha' hb'

theorem lineagesApart (hrun : Run (Step options) .new events broker)
    (hdistinct : (events.filterMap rpcId?).Nodup) : LineagesApart events broker := by
  intro key claim request control gaps hget hevent hmem
  obtain ⟨request', control', gaps', hevent', hid, -, hlineage⟩ :=
    called_run hrun key claim request.rpcId hget hmem
  have hsame := eq_of_rpcId?_eq hdistinct hevent hevent' rfl (congrArg some hid)
  cases hsame
  exact hlineage

theorem acksCorrelate (h : broker.Kept) : AcksCorrelate options broker := by
  intro requestId runtimeId connection accepted now gap hno
  exact (onActivationAck_spec h).2 hno

/-- The broker, its index and the registry agree along every run with distinct rpc ids, and
every admitted caller is answered once. -/
theorem broker_lawful (hrun : Run (Step options) .new events broker)
    (hdistinct : (events.filterMap rpcId?).Nodup) :
    broker.Consistent ∧ AnswersOnce options events ∧ AnswersAlike options events ∧
      LineagesApart events broker ∧ AcksCorrelate options broker :=
  have hkept : broker.Kept := kept_run hrun Actor.Kept.new
  ⟨hkept.consistent, answersOnce hdistinct, answersAlike events,
    lineagesApart hrun hdistinct, acksCorrelate hkept⟩

section Sample

/-- A caller of `SessionActor` on `runtime-a`. -/
def sessionRequest (rpcId : String) : ActorGetOrCreateRequest where
  rpcId := rpcId
  actorKey := sessionKey
  actorAbiIdentity := ⟨"skiff-actor-runtime-abi-v1"⟩
  actorImplementationIdentity := ⟨"impl-v1"⟩
  declarationOwner := ⟨.service, .fileIrIdentity "file-ir-v1", "SessionActor"⟩
  bootstrapBytes := []
  ownerRuntimeId := "runtime-a"
  ownerConnection := "conn-a"
  routeAuthority := ⟨"sha256:build-v1"⟩
  deadline := none
  testCaseCapability := none
  testCaseParentRequestId := none
  now := 0

/-- Two callers share a claim, the incarnation is advanced in the middle of the
acknowledgement, and the commit is refused. -/
def overtakenEvents : List BrokerEvent :=
  [ .getOrCreate (sessionRequest "rpc-1") (fun _ => .ok ()) ⟨[], [], [], [], []⟩,
    .getOrCreate (sessionRequest "rpc-2") (fun _ => .ok ()) ⟨[], [], [], [], []⟩,
    .onActivationAck "actor-claim-0" "runtime-a" "conn-a" true 5
      [⟨.advanceIncarnation sessionKey, rfl⟩] ]

theorem broker_lawful_overtaken :
    (overtakenEvents.foldl (apply {}) .new).answered =
      [("rpc-1", .failed "CommitRejected"), ("rpc-2", .failed "CommitRejected")] ∧
    (overtakenEvents.foldl (apply {}) .new).Consistent :=
  ⟨by decide, (broker_lawful (Run.of_foldl (apply {}) .new overtakenEvents) (by decide)).1⟩

end Sample

end ActivationBroker
end Skiff.Actor
