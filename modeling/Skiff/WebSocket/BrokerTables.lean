import Skiff.Data.Tally
import Skiff.WebSocket.Broker

/-!
# The tables of the broker

Along every run the indexes of the broker name live entries only and find every one of
them, every entry belongs to an attached generation, and the counters of a generation
count its entries, within the capacities. `Outbound` and `Inbound` say so of the two
directions; each operation is a sequence of insertions and detachments that keep them.
-/

namespace Skiff.WebSocket

open OrdMap Option

namespace BrokerInner

variable {options : WebSocketRequestBrokerOptions} {answers : BrokerAnswers} {inner : BrokerInner}

/-! ## The invariant -/

/-- The generations have uids of their own, drawn from the counter. -/
structure Attached (inner : BrokerInner) : Prop where
  uid_lt : ∀ {c state}, inner.generations.get? c = some state → state.uid < inner.nextGenerationUid
  uid_inj : ∀ {c c' state state'}, inner.generations.get? c = some state →
    inner.generations.get? c' = some state' → state.uid = state'.uid → c = c'

structure Outbound (options : WebSocketRequestBrokerOptions) (inner : BrokerInner) : Prop where
  indexed : Indexed inner.outboundByPeer inner.outboundByRuntime OutboundEntry.runtimeKey
  keyed : ∀ {k entry}, inner.outboundByPeer.get? k = some entry →
    entry.peerKey = k ∧ entry.runtimeKey = entry.source.key entry.requestId
  requests : ∀ {i k}, inner.outboundByGenerationRequest.get? i = some k →
    ∃ entry, inner.outboundByPeer.get? k = some entry ∧
      toLex (entry.connectionId, entry.requestId) = i
  home : ∀ {k entry}, inner.outboundByPeer.get? k = some entry →
    ∃ state, inner.generations.get? entry.connectionId = some state ∧
      state.uid = entry.generationUid
  counted : ∀ {c state}, inner.generations.get? c = some state →
    state.outboundActive = inner.outboundByPeer.tallyOf OutboundEntry.generationUid state.uid
  bounded : ∀ {c state}, inner.generations.get? c = some state →
    state.outboundActive ≤ options.outboundPerGenerationCapacity
  global : inner.outboundByPeer.size ≤ options.outboundGlobalCapacity

structure Inbound (options : WebSocketRequestBrokerOptions) (inner : BrokerInner) : Prop where
  indexed : Indexed inner.inboundByPeer inner.inboundByToken InboundEntry.executionToken
  keyed : ∀ {k entry}, inner.inboundByPeer.get? k = some entry → entry.peerKey = k
  home : ∀ {k entry}, inner.inboundByPeer.get? k = some entry →
    ∃ state, inner.generations.get? entry.executionToken.connectionId = some state ∧
      state.uid = entry.generationUid ∧
      state.generation = entry.executionToken.socketGeneration ∧
      entry.executionToken.sequence < state.executionSequence
  counted : ∀ {c state}, inner.generations.get? c = some state →
    state.inboundActive = inner.inboundByPeer.tallyOf InboundEntry.generationUid state.uid
  bounded : ∀ {c state}, inner.generations.get? c = some state →
    state.inboundActive ≤ options.inboundPerGenerationCapacity
  global : inner.inboundByPeer.size ≤ options.inboundGlobalCapacity

structure Coherent (options : WebSocketRequestBrokerOptions) (inner : BrokerInner) : Prop where
  attached : inner.Attached
  outbound : inner.Outbound options
  inbound : inner.Inbound options

theorem Coherent.empty : (new options).Coherent options := by
  refine ⟨⟨?_, ?_⟩, ⟨.empty _, ?_, ?_, ?_, ?_, ?_, Nat.zero_le _⟩,
    ⟨.empty _, ?_, ?_, ?_, ?_, Nat.zero_le _⟩⟩ <;>
  · intros
    contradiction

/-! ## Frames -/

variable (inner) in
theorem updateGeneration_get? (c j : String) (f : GenerationState → GenerationState) :
    (inner.updateGeneration c f).generations.get? j =
      if j = c then (inner.generations.get? c).map f else inner.generations.get? j := by
  unfold updateGeneration
  cases hget : inner.generations.get? c with
  | none =>
    by_cases hj : j = c
    · rw [if_pos hj, hj]
      exact hget
    · rw [if_neg hj]
  | some state =>
    dsimp only
    rw [get?_insert]
    by_cases hj : j = c
    · rw [if_pos hj, if_pos hj]
      rfl
    · rw [if_neg hj, if_neg hj]

variable {f : GenerationState → GenerationState} {state : GenerationState}

/-- The generations after an update: each has its old state, or the updated one. -/
theorem updateGeneration_cases {c j : String}
    (h : (inner.updateGeneration c f).generations.get? j = some state) :
    ∃ old, inner.generations.get? j = some old ∧ (j = c ∧ state = f old ∨ j ≠ c ∧ state = old) := by
  rw [updateGeneration_get?] at h
  split at h
  case isTrue hj =>
    obtain ⟨old, hold, rfl⟩ := map_eq_some_iff.mp h
    exact ⟨old, hj ▸ hold, .inl ⟨hj, rfl⟩⟩
  case isFalse hj => exact ⟨state, h, .inr ⟨hj, rfl⟩⟩

theorem updateGeneration_some {c j : String}
    {old : GenerationState} (h : inner.generations.get? j = some old) :
    (inner.updateGeneration c f).generations.get? j = some (if j = c then f old else old) := by
  rw [updateGeneration_get?]
  split
  case isTrue hj => rw [← hj, h]; rfl
  · exact h

section Fields

variable (c : String) (f : GenerationState → GenerationState)

@[simp] theorem updateGeneration_outboundByPeer :
    (inner.updateGeneration c f).outboundByPeer = inner.outboundByPeer := by
  unfold updateGeneration
  split <;> rfl

@[simp] theorem updateGeneration_outboundByRuntime :
    (inner.updateGeneration c f).outboundByRuntime = inner.outboundByRuntime := by
  unfold updateGeneration
  split <;> rfl

@[simp] theorem updateGeneration_outboundByGenerationRequest :
    (inner.updateGeneration c f).outboundByGenerationRequest =
      inner.outboundByGenerationRequest := by
  unfold updateGeneration
  split <;> rfl

@[simp] theorem updateGeneration_inboundByPeer :
    (inner.updateGeneration c f).inboundByPeer = inner.inboundByPeer := by
  unfold updateGeneration
  split <;> rfl

@[simp] theorem updateGeneration_inboundByToken :
    (inner.updateGeneration c f).inboundByToken = inner.inboundByToken := by
  unfold updateGeneration
  split <;> rfl

@[simp] theorem updateGeneration_nextGenerationUid :
    (inner.updateGeneration c f).nextGenerationUid = inner.nextGenerationUid := by
  unfold updateGeneration
  split <;> rfl

end Fields

variable {after : BrokerInner}

/-- The outbound tables are those before. -/
abbrev SameOutbound (inner after : BrokerInner) : Prop :=
  after.outboundByPeer = inner.outboundByPeer ∧
    after.outboundByRuntime = inner.outboundByRuntime ∧
    after.outboundByGenerationRequest = inner.outboundByGenerationRequest

abbrev SameInbound (inner after : BrokerInner) : Prop :=
  after.inboundByPeer = inner.inboundByPeer ∧ after.inboundByToken = inner.inboundByToken

theorem sameOutbound_updateGeneration (c : String) (f : GenerationState → GenerationState) :
    SameOutbound inner (inner.updateGeneration c f) :=
  ⟨updateGeneration_outboundByPeer c f, updateGeneration_outboundByRuntime c f,
    updateGeneration_outboundByGenerationRequest c f⟩

theorem sameInbound_updateGeneration (c : String) (f : GenerationState → GenerationState) :
    SameInbound inner (inner.updateGeneration c f) :=
  ⟨updateGeneration_inboundByPeer c f, updateGeneration_inboundByToken c f⟩

/-- `Attached` survives an update that keeps the uids. -/
theorem Attached.of_generations (h : inner.Attached)
    (hnext : inner.nextGenerationUid ≤ after.nextGenerationUid)
    (hold : ∀ {c state}, after.generations.get? c = some state →
      ∃ old, inner.generations.get? c = some old ∧ state.uid = old.uid) : after.Attached := by
  refine ⟨?_, ?_⟩
  · intro c state hget
    obtain ⟨old, hgetOld, huid⟩ := hold hget
    have hlt := h.uid_lt hgetOld
    omega
  intro c c' state state' hget hget' heq
  obtain ⟨old, hgetOld, huid⟩ := hold hget
  obtain ⟨old', hgetOld', huid'⟩ := hold hget'
  exact h.uid_inj hgetOld hgetOld' (huid.symm.trans (heq.trans huid'))

/-- `Outbound` survives what leaves its tables alone and the generations' uids and counts. -/
theorem Outbound.of_generations (h : inner.Outbound options) (hsame : SameOutbound inner after)
    (hkept : ∀ {k entry state}, inner.outboundByPeer.get? k = some entry →
      inner.generations.get? entry.connectionId = some state → ∃ state',
        after.generations.get? entry.connectionId = some state' ∧ state'.uid = state.uid)
    (hold : ∀ {c state}, after.generations.get? c = some state →
      (∃ old, inner.generations.get? c = some old ∧ state.uid = old.uid ∧
        state.outboundActive = old.outboundActive) ∨
      (state.outboundActive = 0 ∧
        ∀ k entry, inner.outboundByPeer.get? k = some entry → entry.generationUid ≠ state.uid)) :
    after.Outbound options := by
  obtain ⟨hpeer, hruntime, hrequests⟩ := hsame
  refine ⟨hpeer ▸ hruntime ▸ h.indexed, hpeer ▸ h.keyed, hpeer ▸ hrequests ▸ h.requests, ?_, ?_,
    ?_, hpeer ▸ h.global⟩
  · intro k entry hget
    rw [hpeer] at hget
    obtain ⟨state, hstate, huid⟩ := h.home hget
    obtain ⟨state', hstate', huid'⟩ := hkept hget hstate
    exact ⟨state', hstate', huid'.trans huid⟩
  · intro c state hget
    rw [hpeer]
    obtain ⟨old, hgetOld, huid, hactive⟩ | ⟨hzero, hnone⟩ := hold hget
    · rw [hactive, huid]
      exact h.counted hgetOld
    · rw [hzero, tallyOf_eq_zero hnone]
  intro c state hget
  obtain ⟨old, hgetOld, -, hactive⟩ | ⟨hzero, -⟩ := hold hget
  · rw [hactive]
    exact h.bounded hgetOld
  rw [hzero]
  exact Nat.zero_le _

theorem Inbound.of_generations (h : inner.Inbound options) (hsame : SameInbound inner after)
    (hkept : ∀ {k entry state}, inner.inboundByPeer.get? k = some entry →
      inner.generations.get? entry.executionToken.connectionId = some state → ∃ state',
        after.generations.get? entry.executionToken.connectionId = some state' ∧
        state'.uid = state.uid ∧ state'.generation = state.generation ∧
        state.executionSequence ≤ state'.executionSequence)
    (hold : ∀ {c state}, after.generations.get? c = some state →
      (∃ old, inner.generations.get? c = some old ∧ state.uid = old.uid ∧
        state.inboundActive = old.inboundActive) ∨
      (state.inboundActive = 0 ∧
        ∀ k entry, inner.inboundByPeer.get? k = some entry → entry.generationUid ≠ state.uid)) :
    after.Inbound options := by
  obtain ⟨hpeer, htoken⟩ := hsame
  refine ⟨hpeer ▸ htoken ▸ h.indexed, hpeer ▸ h.keyed, ?_, ?_, ?_, hpeer ▸ h.global⟩
  · intro k entry hget
    rw [hpeer] at hget
    obtain ⟨state, hstate, huid, hgeneration, hlt⟩ := h.home hget
    obtain ⟨state', hstate', huid', hgeneration', hle⟩ := hkept hget hstate
    exact ⟨state', hstate', huid'.trans huid, hgeneration'.trans hgeneration, by omega⟩
  · intro c state hget
    rw [hpeer]
    obtain ⟨old, hgetOld, huid, hactive⟩ | ⟨hzero, hnone⟩ := hold hget
    · rw [hactive, huid]
      exact h.counted hgetOld
    · rw [hzero, tallyOf_eq_zero hnone]
  intro c state hget
  obtain ⟨old, hgetOld, -, hactive⟩ | ⟨hzero, -⟩ := hold hget
  · rw [hactive]
    exact h.bounded hgetOld
  rw [hzero]
  exact Nat.zero_le _

/-- Nothing changes but the tombstones, the counters of health, and of the generations the
number of the next request, which may rise, and the flag that they are open. -/
structure Quiet (inner after : BrokerInner) : Prop where
  outboundByPeer : after.outboundByPeer = inner.outboundByPeer
  outboundByRuntime : after.outboundByRuntime = inner.outboundByRuntime
  requests : after.outboundByGenerationRequest = inner.outboundByGenerationRequest
  inboundByPeer : after.inboundByPeer = inner.inboundByPeer
  inboundByToken : after.inboundByToken = inner.inboundByToken
  next : after.nextGenerationUid = inner.nextGenerationUid
  kept : ∀ {c state}, inner.generations.get? c = some state → ∃ isOpen sequence,
    state.sequence ≤ sequence ∧
    after.generations.get? c = some { state with isOpen := isOpen, sequence := sequence }
  gone : ∀ {c}, inner.generations.get? c = none → after.generations.get? c = none

theorem Quiet.of_generations_eq (houtbound : SameOutbound inner after)
    (hinbound : SameInbound inner after)
    (hnext : after.nextGenerationUid = inner.nextGenerationUid)
    (hgenerations : after.generations = inner.generations) : Quiet inner after := by
  refine ⟨houtbound.1, houtbound.2.1, houtbound.2.2, hinbound.1, hinbound.2, hnext, ?_, ?_⟩
  · intro c state hget
    exact ⟨state.isOpen, state.sequence, le_refl _, hgenerations ▸ hget⟩
  intro c hget
  exact hgenerations ▸ hget

theorem Quiet.sameOutbound (h : Quiet inner after) : SameOutbound inner after :=
  ⟨h.outboundByPeer, h.outboundByRuntime, h.requests⟩

theorem Quiet.sameInbound (h : Quiet inner after) : SameInbound inner after :=
  ⟨h.inboundByPeer, h.inboundByToken⟩

theorem Quiet.back (h : Quiet inner after) {c : String}
    (hget : after.generations.get? c = some state) :
    ∃ old isOpen sequence, inner.generations.get? c = some old ∧ old.sequence ≤ sequence ∧
      state = { old with isOpen := isOpen, sequence := sequence } := by
  cases hold : inner.generations.get? c with
  | none =>
    rw [h.gone hold] at hget
    cases hget
  | some old =>
    obtain ⟨isOpen, sequence, hle, hnew⟩ := h.kept hold
    exact ⟨old, isOpen, sequence, rfl, hle, some.inj (hget.symm.trans hnew)⟩

theorem Coherent.quiet (h : inner.Coherent options)
    (hquiet : Quiet inner after) : after.Coherent options := by
  refine ⟨h.attached.of_generations hquiet.next.ge ?_,
    h.outbound.of_generations hquiet.sameOutbound ?_ ?_,
    h.inbound.of_generations hquiet.sameInbound ?_ ?_⟩
  · intro c state hget
    obtain ⟨old, isOpen, sequence, hold, -, rfl⟩ := hquiet.back hget
    exact ⟨old, hold, rfl⟩
  · intro k entry state _ hget
    obtain ⟨isOpen, sequence, -, hnew⟩ := hquiet.kept hget
    exact ⟨_, hnew, rfl⟩
  · intro c state hget
    obtain ⟨old, isOpen, sequence, hold, -, rfl⟩ := hquiet.back hget
    exact .inl ⟨old, hold, rfl, rfl⟩
  · intro k entry state _ hget
    obtain ⟨isOpen, sequence, -, hnew⟩ := hquiet.kept hget
    exact ⟨_, hnew, rfl, rfl, le_refl _⟩
  intro c state hget
  obtain ⟨old, isOpen, sequence, hold, -, rfl⟩ := hquiet.back hget
  exact .inl ⟨old, hold, rfl, rfl⟩

/-- An update of the flag or of the number of the next request is quiet. -/
theorem Quiet.updateGeneration {c : String}
    (hf : ∀ state, ∃ isOpen sequence, state.sequence ≤ sequence ∧
      f state = { state with isOpen := isOpen, sequence := sequence }) :
    Quiet inner (inner.updateGeneration c f) := by
  refine ⟨updateGeneration_outboundByPeer c f, updateGeneration_outboundByRuntime c f,
    updateGeneration_outboundByGenerationRequest c f, updateGeneration_inboundByPeer c f,
    updateGeneration_inboundByToken c f, updateGeneration_nextGenerationUid c f, ?_, ?_⟩
  · intro j state hget
    rw [updateGeneration_some hget]
    split
    · obtain ⟨isOpen, sequence, hle, heq⟩ := hf state
      exact ⟨isOpen, sequence, hle, congrArg some heq⟩
    · exact ⟨state.isOpen, state.sequence, le_refl _, rfl⟩
  intro j hget
  rw [updateGeneration_get?]
  split
  case isTrue hj => rw [← hj, hget]; rfl
  · exact hget

variable (answers) in
theorem Quiet.sweep : Quiet inner (inner.sweep answers) :=
  .of_generations_eq ⟨rfl, rfl, rfl⟩ ⟨rfl, rfl⟩ rfl rfl

/-! ## Insertions and detachments -/

theorem Attached.uid_ne (h : inner.Attached) {c c' : String} {state state' : GenerationState}
    (hget : inner.generations.get? c = some state)
    (hget' : inner.generations.get? c' = some state') (hne : c ≠ c') : state.uid ≠ state'.uid :=
  fun heq => hne (h.uid_inj hget hget' heq)

/-- The generations after an operation: that of the connection is updated, and keeps its uid. -/
structure Updated (inner after : BrokerInner) (c : String) (f : GenerationState → GenerationState) :
    Prop where
  next : after.nextGenerationUid = inner.nextGenerationUid
  back : ∀ {j new}, after.generations.get? j = some new →
    ∃ old, inner.generations.get? j = some old ∧ (j = c ∧ new = f old ∨ j ≠ c ∧ new = old)
  kept : ∀ {j old}, inner.generations.get? j = some old →
    after.generations.get? j = some (if j = c then f old else old)
  uid : ∀ old, (f old).uid = old.uid
  generation : ∀ old, (f old).generation = old.generation
  sequence : ∀ old, old.executionSequence ≤ (f old).executionSequence

namespace Updated

variable {after : BrokerInner} {c : String} {f : GenerationState → GenerationState}

theorem of_updateGeneration {middle : BrokerInner}
    (hgenerations : middle.generations = inner.generations)
    (hnext : middle.nextGenerationUid = inner.nextGenerationUid)
    (huid : ∀ old, (f old).uid = old.uid) (hgeneration : ∀ old, (f old).generation = old.generation)
    (hsequence : ∀ old, old.executionSequence ≤ (f old).executionSequence) :
    Updated inner (middle.updateGeneration c f) c f := by
  refine ⟨(updateGeneration_nextGenerationUid c f).trans hnext, fun hget => ?_, fun hget =>
    ?_, huid, hgeneration,
    hsequence⟩
  · rw [← hgenerations]
    exact updateGeneration_cases hget
  · exact updateGeneration_some (hgenerations ▸ hget)

variable {new : GenerationState} {j : String}

theorem back_uid (hu : Updated inner after c f) (hget : after.generations.get? j = some new) :
    ∃ old, inner.generations.get? j = some old ∧ new.uid = old.uid := by
  obtain ⟨old, hold, ⟨-, rfl⟩ | ⟨-, rfl⟩⟩ := hu.back hget
  · exact ⟨old, hold, hu.uid old⟩
  · exact ⟨_, hold, rfl⟩

theorem kept_uid (hu : Updated inner after c f) {old : GenerationState}
    (hget : inner.generations.get? j = some old) : ∃ new, after.generations.get? j = some new ∧
      new.uid = old.uid ∧ new.generation = old.generation ∧
        old.executionSequence ≤ new.executionSequence := by
  refine ⟨_, hu.kept hget, ?_⟩
  split
  · exact ⟨hu.uid old, hu.generation old, hu.sequence old⟩
  · exact ⟨rfl, rfl, le_refl _⟩

theorem attached (hu : Updated inner after c f) (h : inner.Attached) : after.Attached :=
  h.of_generations hu.next.ge hu.back_uid

variable {active : GenerationState → Nat}

section

variable (hu : Updated inner after c f)
include hu

/-- A counter that the update leaves alone. -/
theorem active_eq (hactive : ∀ old, active (f old) = active old)
    (hget : after.generations.get? j = some new) :
    ∃ old, inner.generations.get? j = some old ∧ new.uid = old.uid ∧ active new = active old := by
  obtain ⟨old, hold, ⟨-, rfl⟩ | ⟨-, rfl⟩⟩ := hu.back hget
  · exact ⟨old, hold, hu.uid old, hactive old⟩
  · exact ⟨_, hold, rfl, rfl⟩

/-- A counter that changes with what it counts. -/
theorem counted (hattached : inner.Attached) {tally : Nat → Nat} {state : GenerationState}
    (hstate : inner.generations.get? c = some state)
    (hcounted : ∀ {j old}, inner.generations.get? j = some old → active old = tally old.uid)
    (hget : after.generations.get? j = some new) :
    active new = Function.update tally state.uid (active (f state)) new.uid := by
  obtain ⟨old, hold, ⟨rfl, rfl⟩ | ⟨hne, rfl⟩⟩ := hu.back hget
  · obtain rfl := some.inj (hold.symm.trans hstate)
    rw [hu.uid, Function.update_self]
  rw [Function.update_of_ne (hattached.uid_ne hold hstate hne)]
  exact hcounted hold

theorem bounded {capacity : Nat} {state : GenerationState}
    (hstate : inner.generations.get? c = some state) (hactive : active (f state) ≤ capacity)
    (hbounded : ∀ {j old}, inner.generations.get? j = some old → active old ≤ capacity)
    (hget : after.generations.get? j = some new) : active new ≤ capacity := by
  obtain ⟨old, hold, ⟨rfl, rfl⟩ | ⟨-, rfl⟩⟩ := hu.back hget
  · obtain rfl := some.inj (hold.symm.trans hstate)
    exact hactive
  · exact hbounded hold

/-- The outbound entries of an operation on inbound ones. -/
theorem outbound (hactive : ∀ old, (f old).outboundActive = old.outboundActive)
    (h : inner.Outbound options) (hsame : SameOutbound inner after) : after.Outbound options := by
  refine h.of_generations hsame (fun _ hold => ?_) fun hget =>
    .inl (hu.active_eq hactive hget)
  obtain ⟨new, hnew, huid, -⟩ := hu.kept_uid hold
  exact ⟨new, hnew, huid⟩

theorem inbound (hactive : ∀ old, (f old).inboundActive = old.inboundActive)
    (h : inner.Inbound options) (hsame : SameInbound inner after) : after.Inbound options :=
  h.of_generations hsame (fun _ hold => hu.kept_uid hold) fun hget =>
    .inl (hu.active_eq hactive hget)

end

end Updated

section

variable (h : inner.Coherent options)
include h

/-- A new outbound entry of an attached generation, below the capacities. -/
theorem Coherent.indexOutbound {entry : OutboundEntry}
    (hstate : inner.generations.get? entry.connectionId = some state)
    (huid : state.uid = entry.generationUid)
    (hpeer : inner.outboundByPeer.get? entry.peerKey = none)
    (hruntime : inner.outboundByRuntime.get? entry.runtimeKey = none)
    (hsource : entry.runtimeKey = entry.source.key entry.requestId)
    (hglobal : inner.outboundByPeer.size < options.outboundGlobalCapacity)
    (hactive : state.outboundActive < options.outboundPerGenerationCapacity) :
    (inner.indexOutbound entry).Coherent options := by
  have hu : Updated inner (inner.indexOutbound entry) entry.connectionId
      (fun old => { old with outboundActive := old.outboundActive + 1 }) :=
    .of_updateGeneration rfl rfl (fun _ => rfl) (fun _ => rfl) fun _ => le_refl _
  have htable : (inner.indexOutbound entry).outboundByPeer =
      inner.outboundByPeer.insert entry.peerKey entry :=
    updateGeneration_outboundByPeer _ _
  have hlookup : ∀ {k e}, (inner.indexOutbound entry).outboundByPeer.get? k = some e →
      k = entry.peerKey ∧ e = entry ∨ inner.outboundByPeer.get? k = some e := by
    intro k e hget
    rw [htable] at hget
    exact (get?_insert_eq_some.mp hget).imp_right And.right
  have hkeeps : ∀ {k e}, inner.outboundByPeer.get? k = some e →
      (inner.indexOutbound entry).outboundByPeer.get? k = some e := by
    intro k e hget
    rw [htable]
    exact get?_insert_of_fresh hpeer hget
  refine ⟨hu.attached h.attached,
    ⟨?_, ?_, ?_, ?_, ?_, hu.bounded hstate hactive h.outbound.bounded, ?_⟩,
    hu.inbound (fun _ => rfl) h.inbound (sameInbound_updateGeneration _ _)⟩
  · rw [htable, show (inner.indexOutbound entry).outboundByRuntime =
      inner.outboundByRuntime.insert entry.runtimeKey entry.peerKey from
      updateGeneration_outboundByRuntime _ _]
    exact h.outbound.indexed.insert hpeer hruntime
  · intro k e hget
    obtain ⟨rfl, rfl⟩ | hget := hlookup hget
    · exact ⟨rfl, hsource⟩
    · exact h.outbound.keyed hget
  · intro i k hget
    rw [show (inner.indexOutbound entry).outboundByGenerationRequest =
      inner.outboundByGenerationRequest.insert (toLex (entry.connectionId, entry.requestId))
        entry.peerKey from updateGeneration_outboundByGenerationRequest _ _,
      get?_insert] at hget
    split at hget
    case isTrue heq =>
      cases hget
      exact ⟨entry, htable ▸ get?_insert_self _ _ _, heq.symm⟩
    · obtain ⟨e, he, hi⟩ := h.outbound.requests hget
      exact ⟨e, hkeeps he, hi⟩
  · intro k e hget
    obtain ⟨rfl, rfl⟩ | hget := hlookup hget
    · obtain ⟨new, hnew, hnewUid, -⟩ := hu.kept_uid hstate
      exact ⟨new, hnew, hnewUid.trans huid⟩
    obtain ⟨old, hold, holdUid⟩ := h.outbound.home hget
    obtain ⟨new, hnew, hnewUid, -⟩ := hu.kept_uid hold
    exact ⟨new, hnew, hnewUid.trans holdUid⟩
  · intro j new hget
    rw [htable, tallyOf_insert hpeer, ← huid, ← h.outbound.counted hstate]
    exact hu.counted h.attached hstate h.outbound.counted hget
  rw [htable, size_insert hpeer]
  exact hglobal

/-- A new inbound entry of an attached generation, below the capacities, with the next
token of the generation. -/
theorem Coherent.indexInbound {entry : InboundEntry}
    (hstate : inner.generations.get? entry.executionToken.connectionId = some state)
    (huid : state.uid = entry.generationUid)
    (hgeneration : state.generation = entry.executionToken.socketGeneration)
    (hsequence : state.executionSequence = entry.executionToken.sequence)
    (hpeer : inner.inboundByPeer.get? entry.peerKey = none)
    (hglobal : inner.inboundByPeer.size < options.inboundGlobalCapacity)
    (hactive : state.inboundActive < options.inboundPerGenerationCapacity) :
    (inner.indexInbound entry).Coherent options := by
  have hu : Updated inner (inner.indexInbound entry) entry.executionToken.connectionId
      (fun old => { old with
        executionSequence := old.executionSequence + 1
        inboundActive := old.inboundActive + 1 }) :=
    .of_updateGeneration rfl rfl (fun _ => rfl) (fun _ => rfl) fun _ => Nat.le_succ _
  have htoken : inner.inboundByToken.get? entry.executionToken = none := by
    cases hget : inner.inboundByToken.get? entry.executionToken with
    | none => rfl
    | some k =>
      obtain ⟨e, he, heq⟩ := h.inbound.indexed.names hget
      obtain ⟨old, hold, -, -, hlt⟩ := h.inbound.home he
      rw [heq, hstate] at hold
      cases hold
      rw [heq, hsequence] at hlt
      exact absurd hlt (lt_irrefl _)
  have htable : (inner.indexInbound entry).inboundByPeer =
      inner.inboundByPeer.insert entry.peerKey entry :=
    updateGeneration_inboundByPeer _ _
  have hlookup : ∀ {k e}, (inner.indexInbound entry).inboundByPeer.get? k = some e →
      k = entry.peerKey ∧ e = entry ∨ inner.inboundByPeer.get? k = some e := by
    intro k e hget
    rw [htable] at hget
    exact (get?_insert_eq_some.mp hget).imp_right And.right
  refine ⟨hu.attached h.attached,
    hu.outbound (fun _ => rfl) h.outbound (sameOutbound_updateGeneration _ _),
    ⟨?_, ?_, ?_, ?_, hu.bounded hstate hactive h.inbound.bounded, ?_⟩⟩
  · rw [htable, show (inner.indexInbound entry).inboundByToken =
      inner.inboundByToken.insert entry.executionToken entry.peerKey from
      updateGeneration_inboundByToken _ _]
    exact h.inbound.indexed.insert hpeer htoken
  · intro k e hget
    obtain ⟨rfl, rfl⟩ | hget := hlookup hget
    · rfl
    · exact h.inbound.keyed hget
  · intro k e hget
    obtain ⟨rfl, rfl⟩ | hget := hlookup hget
    · refine ⟨_, hu.kept hstate, ?_⟩
      rw [if_pos rfl]
      exact ⟨huid, hgeneration, hsequence ▸ Nat.lt_succ_self _⟩
    obtain ⟨old, hold, holdUid, holdGeneration, hlt⟩ := h.inbound.home hget
    obtain ⟨new, hnew, hnewUid, hnewGeneration, hle⟩ := hu.kept_uid hold
    exact ⟨new, hnew, hnewUid.trans holdUid, hnewGeneration.trans holdGeneration, by omega⟩
  · intro j new hget
    rw [htable, tallyOf_insert hpeer, ← huid, ← h.inbound.counted hstate]
    exact hu.counted h.attached hstate h.inbound.counted hget
  rw [htable, size_insert hpeer]
  exact hglobal

/-- A live outbound entry leaves its table, its indexes and its generation's count. -/
theorem Coherent.detachOutbound {k : String} {entry : OutboundEntry}
    (hlive : inner.outboundByPeer.get? k = some entry) :
    (inner.detachOutbound answers entry).Coherent options := by
  obtain ⟨rfl, -⟩ := h.outbound.keyed hlive
  obtain ⟨state, hstate, huid⟩ := h.outbound.home hlive
  have hcontains : inner.outboundByPeer.contains entry.peerKey = true :=
    contains_iff.mpr ⟨entry, hlive⟩
  rw [BrokerInner.detachOutbound, if_pos hcontains]
  generalize hafter : BrokerInner.updateGeneration _ _ _ = after
  have hu : Updated inner after entry.connectionId
      (fun old => { old with outboundActive := old.outboundActive - 1 }) := by
    rw [← hafter]
    exact .of_updateGeneration rfl rfl (fun _ => rfl) (fun _ => rfl) fun _ => le_refl _
  have htable : after.outboundByPeer = inner.outboundByPeer.erase entry.peerKey := by
    rw [← hafter]
    exact updateGeneration_outboundByPeer _ _
  have hlookup : ∀ {k e}, after.outboundByPeer.get? k = some e →
      k ≠ entry.peerKey ∧ inner.outboundByPeer.get? k = some e := by
    intro k e hget
    rw [htable] at hget
    exact get?_erase_eq_some.mp hget
  have hothers : ∀ {k e}, inner.outboundByPeer.get? k = some e → k ≠ entry.peerKey →
      after.outboundByPeer.get? k = some e := by
    intro k e hget hne
    rw [htable, get?_erase_of_ne _ hne]
    exact hget
  have hinbound : SameInbound inner after := by
    rw [← hafter]
    exact sameInbound_updateGeneration _ _
  refine ⟨hu.attached h.attached, ⟨?_, ?_, ?_, ?_, ?_, ?_, ?_⟩,
    hu.inbound (fun _ => rfl) h.inbound hinbound⟩
  · have hruntime : after.outboundByRuntime = inner.outboundByRuntime.erase entry.runtimeKey := by
      rw [← hafter]
      exact updateGeneration_outboundByRuntime _ _
    rw [htable, hruntime]
    exact h.outbound.indexed.erase hlive
  · intro k e hget
    exact h.outbound.keyed (hlookup hget).2
  · intro i k hget
    have hrequests : after.outboundByGenerationRequest =
        inner.outboundByGenerationRequest.filterValues (· ≠ entry.peerKey) := by
      rw [← hafter]
      exact updateGeneration_outboundByGenerationRequest _ _
    rw [hrequests, get?_filterValues, decide_eq_true_eq] at hget
    obtain ⟨e, he, hi⟩ := h.outbound.requests hget.1
    exact ⟨e, hothers he hget.2, hi⟩
  · intro k e hget
    obtain ⟨old, hold, holdUid⟩ := h.outbound.home (hlookup hget).2
    obtain ⟨new, hnew, hnewUid, -⟩ := hu.kept_uid hold
    exact ⟨new, hnew, hnewUid.trans holdUid⟩
  · intro j new hget
    rw [htable, tallyOf_erase hlive, ← huid, ← h.outbound.counted hstate]
    exact hu.counted h.attached hstate h.outbound.counted hget
  · exact hu.bounded hstate
      (le_trans (Nat.sub_le _ _) (h.outbound.bounded hstate)) h.outbound.bounded
  rw [htable]
  exact le_trans (size_erase_le _ _) h.outbound.global

theorem Coherent.detachInbound {k : String} {entry : InboundEntry}
    (hlive : inner.inboundByPeer.get? k = some entry) :
    (inner.detachInbound answers entry).Coherent options := by
  obtain rfl := h.inbound.keyed hlive
  obtain ⟨state, hstate, huid, -, -⟩ := h.inbound.home hlive
  have hcontains : inner.inboundByPeer.contains entry.peerKey = true :=
    contains_iff.mpr ⟨entry, hlive⟩
  rw [BrokerInner.detachInbound, if_pos hcontains]
  generalize hafter : BrokerInner.updateGeneration _ _ _ = after
  have hu : Updated inner after entry.executionToken.connectionId
      (fun old => { old with inboundActive := old.inboundActive - 1 }) := by
    rw [← hafter]
    exact .of_updateGeneration rfl rfl (fun _ => rfl) (fun _ => rfl) fun _ => le_refl _
  have htable : after.inboundByPeer = inner.inboundByPeer.erase entry.peerKey := by
    rw [← hafter]
    exact updateGeneration_inboundByPeer _ _
  have hlookup : ∀ {k e}, after.inboundByPeer.get? k = some e →
    inner.inboundByPeer.get? k = some e := by
    intro k e hget
    rw [htable] at hget
    exact (get?_erase_eq_some.mp hget).2
  have houtbound : SameOutbound inner after := by
    rw [← hafter]
    exact sameOutbound_updateGeneration _ _
  refine ⟨hu.attached h.attached,
    hu.outbound (fun _ => rfl) h.outbound houtbound,
    ⟨?_, ?_, ?_, ?_, ?_, ?_⟩⟩
  · have htoken : after.inboundByToken = inner.inboundByToken.erase entry.executionToken := by
      rw [← hafter]
      exact updateGeneration_inboundByToken _ _
    rw [htable, htoken]
    exact h.inbound.indexed.erase hlive
  · intro k e hget
    exact h.inbound.keyed (hlookup hget)
  · intro k e hget
    obtain ⟨old, hold, holdUid, holdGeneration, hlt⟩ := h.inbound.home (hlookup hget)
    obtain ⟨new, hnew, hnewUid, hnewGeneration, hnewSequence⟩ := hu.kept_uid hold
    exact ⟨new, hnew, hnewUid.trans holdUid, hnewGeneration.trans holdGeneration,
      hlt.trans_le hnewSequence⟩
  · intro j new hget
    rw [htable, tallyOf_erase hlive, ← huid, ← h.inbound.counted hstate]
    exact hu.counted h.attached hstate h.inbound.counted hget
  · exact hu.bounded hstate (le_trans (Nat.sub_le _ _) (h.inbound.bounded hstate)) h.inbound.bounded
  rw [htable]
  exact le_trans (size_erase_le _ _) h.inbound.global

/-! ## Generations -/

theorem Coherent.uid_lt_next :
    (∀ k entry, inner.outboundByPeer.get? k = some entry →
      entry.generationUid < inner.nextGenerationUid) ∧
    ∀ k entry, inner.inboundByPeer.get? k = some entry →
      entry.generationUid < inner.nextGenerationUid := by
  constructor
  · intro k entry hget
    obtain ⟨state, hstate, huid⟩ := h.outbound.home hget
    exact huid ▸ h.attached.uid_lt hstate
  intro k entry hget
  obtain ⟨state, hstate, huid, -⟩ := h.inbound.home hget
  exact huid ▸ h.attached.uid_lt hstate

theorem Coherent.attachGeneration
    (handle : BrokerConnectionGeneration) (writer generation : Nat) :
    (inner.attachGeneration handle writer generation).1.Coherent options := by
  unfold BrokerInner.attachGeneration
  split
  · exact h
  case isFalse hnew =>
    have hnone : inner.generations.get? handle.connectionId = none := by
      cases hget : inner.generations.get? handle.connectionId with
      | none => rfl
      | some state => exact absurd (contains_iff.mpr ⟨state, hget⟩) hnew
    obtain ⟨houtbound, hinbound⟩ := h.uid_lt_next
    let attached : GenerationState :=
      ⟨handle, generation, inner.nextGenerationUid, inner.nextOwnerToken, writer, true, 0, 0, 0, 0⟩
    have hcases : ∀ {j new},
        (inner.generations.insert handle.connectionId attached).get? j = some new →
        j = handle.connectionId ∧ new = attached ∨
          j ≠ handle.connectionId ∧ inner.generations.get? j = some new :=
      get?_insert_eq_some.mp
    have hkept : ∀ {j old}, inner.generations.get? j = some old →
        (inner.generations.insert handle.connectionId attached).get? j = some old :=
      get?_insert_of_fresh hnone
    refine ⟨⟨?_, ?_⟩, h.outbound.of_generations ⟨rfl, rfl, rfl⟩ ?_ ?_,
      h.inbound.of_generations ⟨rfl, rfl⟩ ?_ ?_⟩
    · intro j new hget
      obtain ⟨rfl, rfl⟩ | ⟨-, hget⟩ := hcases hget
      · exact Nat.lt_succ_self _
      · exact Nat.lt_succ_of_lt (h.attached.uid_lt hget)
    · intro j j' new new' hget hget' heq
      obtain ⟨rfl, rfl⟩ | ⟨-, hget⟩ := hcases hget
      · obtain ⟨rfl, rfl⟩ | ⟨-, hget'⟩ := hcases hget'
        · rfl
        · exact absurd heq (h.attached.uid_lt hget').ne'
      obtain ⟨rfl, rfl⟩ | ⟨-, hget'⟩ := hcases hget'
      · exact absurd heq (h.attached.uid_lt hget).ne
      · exact h.attached.uid_inj hget hget' heq
    · intro k entry old _ hold
      exact ⟨old, hkept hold, rfl⟩
    · intro j new hget
      obtain ⟨rfl, rfl⟩ | ⟨-, hget⟩ := hcases hget
      · exact .inr ⟨rfl, fun k entry hentry => (houtbound k entry hentry).ne⟩
      · exact .inl ⟨new, hget, rfl, rfl⟩
    · intro k entry old _ hold
      exact ⟨old, hkept hold, rfl, rfl, le_refl _⟩
    intro j new hget
    obtain ⟨rfl, rfl⟩ | ⟨-, hget⟩ := hcases hget
    · exact .inr ⟨rfl, fun k entry hentry => (hinbound k entry hentry).ne⟩
    · exact .inl ⟨new, hget, rfl, rfl⟩

/-- A generation without entries may go. -/
theorem Coherent.removeGeneration {c : String}
    (houtbound : SameOutbound inner after) (hinbound : SameInbound inner after)
    (hnext : after.nextGenerationUid = inner.nextGenerationUid)
    (hgenerations : after.generations = inner.generations.erase c)
    (hempty : ∀ k entry, inner.outboundByPeer.get? k = some entry → entry.connectionId ≠ c)
    (hempty' : ∀ k entry, inner.inboundByPeer.get? k = some entry →
      entry.executionToken.connectionId ≠ c) : after.Coherent options := by
  have hback : ∀ {j new}, after.generations.get? j = some new →
      inner.generations.get? j = some new := by
    intro j new hget
    rw [hgenerations] at hget
    exact (get?_erase_eq_some.mp hget).2
  have hkept : ∀ {j old}, j ≠ c → inner.generations.get? j = some old →
      after.generations.get? j = some old := by
    intro j old hne hget
    rw [hgenerations, get?_erase_of_ne _ hne]
    exact hget
  refine ⟨h.attached.of_generations hnext.ge ?_,
    h.outbound.of_generations houtbound ?_ ?_, h.inbound.of_generations hinbound ?_ ?_⟩
  · intro j new hget
    exact ⟨new, hback hget, rfl⟩
  · intro k entry old hentry hold
    exact ⟨old, hkept (hempty k entry hentry) hold, rfl⟩
  · intro j new hget
    exact .inl ⟨new, hback hget, rfl, rfl⟩
  · intro k entry old hentry hold
    exact ⟨old, hkept (hempty' k entry hentry) hold, rfl, rfl, le_refl _⟩
  intro j new hget
  exact .inl ⟨new, hback hget, rfl, rfl⟩

end

end BrokerInner

end Skiff.WebSocket
