import Skiff.WebSocket.BrokerMoves

/-!
# Broker correlation

Along every run each outbound request has one life under its peer key: it is requested, and
ends once, with an answer to its own source or withdrawn by it. Each inbound request has
one under its execution token: it is dispatched, and ends with at most one terminal frame,
which has its own peer id and goes to the writer of its own generation. Tokens are not
reused where no connection generation is attached twice.
-/

namespace Skiff.WebSocket

open List

namespace BrokerInner

variable {options : WebSocketRequestBrokerOptions} {op : BrokerOp}
  {s t : BrokerInner} {effects : List BrokerEffect}

/-! ## Histories -/

/-- What the effects so far say about every request, as the tables have it. -/
structure Tracked (effects : List BrokerEffect) (s : BrokerInner) : Prop where
  outboundLive : ∀ k entry, s.outboundByPeer.get? k = some entry →
    outboundMarks k effects = [.requested entry true]
  outboundOver : ∀ k, s.outboundByPeer.get? k = none → OutboundOver (outboundMarks k effects)
  spent : ∀ k, outboundMarks k effects ≠ [] → s.Spent k
  inboundLive : ∀ token entry state, s.Running token entry →
    s.generations.get? token.connectionId = some state →
    inboundMarks token effects = [.dispatched entry.peerId.id state.writer]
  inboundOver : ∀ token, (∀ entry, ¬ s.Running token entry) →
    InboundOver (inboundMarks token effects)
  spentToken : ∀ token, inboundMarks token effects ≠ [] →
    (token.connectionId, token.socketGeneration) ∈ attachedPairs effects ∧
    ∀ state, s.generations.get? token.connectionId = some state →
      state.generation = token.socketGeneration → token.sequence < state.executionSequence
  recorded : ∀ c state, s.generations.get? c = some state →
    (c, state.generation) ∈ attachedPairs effects

theorem Tracked.empty : Tracked [] (new options) := by
  refine ⟨?_, fun k _ => .unused, ?_, ?_, fun token _ => .unused, ?_, ?_⟩
  · intro k entry hget
    cases hget
  · intro k hne
    exact absurd rfl hne
  · rintro token entry state ⟨k, hget, -⟩
    cases hget
  · intro token hne
    exact absurd rfl hne
  intro c state hget
  cases hget

section TrackedSteps

variable {history : List BrokerEffect}

theorem Tracked.outbound_step (h : Tracked history s) (hs : s.Coherent options)
    (hchange : Change options op s effects t) :
    (∀ k entry, t.outboundByPeer.get? k = some entry →
      outboundMarks k (history ++ effects) = [.requested entry true]) ∧
    (∀ k, t.outboundByPeer.get? k = none → OutboundOver (outboundMarks k (history ++ effects))) ∧
    ∀ k, outboundMarks k (history ++ effects) ≠ [] → t.Spent k := by
  have hnever : ∀ k, s.Fresh k → outboundMarks k history = [] := by
    intro k hfresh
    by_contra hne
    exact (h.spent k hne).not_fresh hfresh
  refine ⟨?_, ?_, ?_⟩
  · intro k entry hget
    rw [outboundMarks_append]
    have hmove := hchange.outboundMove hs k
    generalize outboundMarks k effects = marks at hmove
    cases hmove with
    | idle hsame =>
      rw [append_nil]
      exact h.outboundLive k entry (hsame ▸ hget)
    | opened other hfresh _ _ hlive =>
      obtain rfl := Option.some.inj (hget.symm.trans hlive)
      rw [hnever k hfresh, nil_append]
    | failed _ _ _ _ hgone _ | ended _ _ _ hgone _ =>
      rw [hgone] at hget
      cases hget
  · intro k hget
    rw [outboundMarks_append]
    have hmove := hchange.outboundMove hs k
    generalize outboundMarks k effects = marks at hmove
    cases hmove with
    | idle hsame =>
      rw [append_nil]
      exact h.outboundOver k (hsame ▸ hget)
    | opened _ _ _ _ hlive =>
      rw [hlive] at hget
      cases hget
    | failed _ hfresh _ _ _ hover =>
      rw [hnever k hfresh, nil_append]
      exact hover
    | ended entry mark hlive _ hover =>
      rw [h.outboundLive k entry hlive]
      exact hover
  intro k hne
  by_cases hold : outboundMarks k history = []
  · rw [outboundMarks_append, hold, nil_append] at hne
    have hmove := hchange.outboundMove hs k
    generalize outboundMarks k effects = marks at hmove hne
    cases hmove with
    | idle _ => exact absurd rfl hne
    | opened _ _ hspent _ _ | failed _ _ hspent _ _ _ => exact hspent
    | ended entry mark hlive _ _ =>
      have hlive := h.outboundLive k entry hlive
      rw [hold] at hlive
      cases hlive
  · exact (h.spent k hold).change hchange

theorem Tracked.recorded_step (h : Tracked history s) (hchange : Change options op s effects t)
    {c : String} {state' : GenerationState} (hget : t.generations.get? c = some state') :
    (c, state'.generation) ∈ attachedPairs (history ++ effects) := by
  rw [attachedPairs_append]
  obtain ⟨state, hold, hcarried⟩ | ⟨-, rfl⟩ := hchange.generations hget
  · rw [hcarried.generation]
    exact mem_append_left _ (h.recorded c state hold)
  · exact mem_append_right _ (.head _)

section

variable (h : Tracked history s)
variable (hs : s.Coherent options)
variable (hchange : Change options op s effects t)
variable (hnodup : (attachedPairs (history ++ effects)).Nodup)
include h hs hchange hnodup

theorem Tracked.inbound_step :
    (∀ token entry state, t.Running token entry →
      t.generations.get? token.connectionId = some state →
      inboundMarks token (history ++ effects) = [.dispatched entry.peerId.id state.writer]) ∧
    (∀ token, (∀ entry, ¬ t.Running token entry) →
      InboundOver (inboundMarks token (history ++ effects))) ∧
    ∀ token, inboundMarks token (history ++ effects) ≠ [] →
      (token.connectionId, token.socketGeneration) ∈ attachedPairs (history ++ effects) ∧
      ∀ state, t.generations.get? token.connectionId = some state →
        state.generation = token.socketGeneration → token.sequence < state.executionSequence := by
  have hnever : ∀ {token state}, s.generations.get? token.connectionId = some state →
      state.generation = token.socketGeneration → state.executionSequence = token.sequence →
      inboundMarks token history = [] := by
    intro token state hstate hgeneration hsequence
    by_contra hne
    have hlt := (h.spentToken token hne).2 state hstate hgeneration
    omega
  refine ⟨?_, ?_, ?_⟩
  · intro token entry state' hrunning hget
    rw [inboundMarks_append]
    have hmove := hchange.inboundMove hs token
    generalize inboundMarks token effects = marks at hmove
    cases hmove with
    | idle hsame =>
      rw [append_nil]
      have hold := (hsame entry).mp hrunning
      obtain ⟨state, hstate, hcarried⟩ | ⟨hnew, -⟩ := hchange.generations hget
      · rw [hcarried.writer]
        exact h.inboundLive token entry state hold hstate
      obtain ⟨k, hk, -⟩ := hold
      obtain ⟨k', hk', htoken⟩ := hrunning
      obtain ⟨home, hhome, huid, -⟩ := (hchange.coherent hs).inbound.home hk'
      rw [htoken] at hhome
      obtain rfl := Option.some.inj (hhome.symm.trans hget)
      have hlt := hs.uid_lt_next.2 k entry hk
      omega
    | dispatched other state _ hlive hattached hgeneration hsequence hspent =>
      obtain rfl := (hlive entry).mp hrunning
      rw [hnever hattached hgeneration hsequence, nil_append, (hspent state' hget).1]
    | ended _ _ _ _ hgone _ _ => exact absurd hrunning (hgone entry)
  · intro token hnone
    rw [inboundMarks_append]
    have hmove := hchange.inboundMove hs token
    generalize inboundMarks token effects = marks at hmove
    cases hmove with
    | idle hsame =>
      rw [append_nil]
      exact h.inboundOver token fun entry hold => hnone entry ((hsame entry).mpr hold)
    | dispatched entry _ _ hlive _ _ _ _ => exact absurd ((hlive entry).mpr rfl) (hnone entry)
    | ended entry state _ hlive _ hattached hover =>
      rw [h.inboundLive token entry state hlive hattached]
      exact hover
  intro token hne
  by_cases hold : inboundMarks token history = []
  · rw [inboundMarks_append, hold, nil_append] at hne
    have hmove := hchange.inboundMove hs token
    generalize inboundMarks token effects = marks at hmove hne
    cases hmove with
    | idle _ => exact absurd rfl hne
    | dispatched entry state _ _ hattached hgeneration _ hspent =>
      refine ⟨?_, fun state' hget _ => (hspent state' hget).2⟩
      rw [attachedPairs_append, ← hgeneration]
      exact mem_append_left _ (h.recorded _ state hattached)
    | ended entry state _ hlive _ hattached _ =>
      have hlive := h.inboundLive token entry state hlive hattached
      rw [hold] at hlive
      cases hlive
  obtain ⟨hpair, hlater⟩ := h.spentToken token hold
  rw [attachedPairs_append] at hnodup ⊢
  refine ⟨mem_append_left _ hpair, ?_⟩
  intro state' hget hgeneration
  obtain ⟨state, hstate, hcarried⟩ | ⟨-, rfl⟩ := hchange.generations hget
  · have hlt := hlater state hstate (hcarried.generation.symm.trans hgeneration)
    have hle := hcarried.executionSequence
    omega
  rw [hgeneration] at hnodup
  exact absurd (.head _) ((nodup_append.mp hnodup).2.2 _ hpair _ · rfl)

theorem Tracked.change : Tracked (history ++ effects) t := by
  obtain ⟨houtboundLive, houtboundOver, hspent⟩ := h.outbound_step hs hchange
  obtain ⟨hinboundLive, hinboundOver, hspentToken⟩ := h.inbound_step hs hchange hnodup
  exact ⟨houtboundLive, houtboundOver, hspent, hinboundLive, hinboundOver, hspentToken,
    fun _ _ => h.recorded_step hchange⟩

end

end TrackedSteps

/-! ## From operations to changes -/

theorem Tracked.same {history others : List BrokerEffect} (h : Tracked history s)
    (hmarks : SameMarks history others) : Tracked others s := by
  refine ⟨?_, ?_, ?_, ?_, ?_, ?_, ?_⟩
  · intro k entry hget
    rw [← hmarks.outbound]
    exact h.outboundLive k entry hget
  · intro k hget
    rw [← hmarks.outbound]
    exact h.outboundOver k hget
  · intro k hne
    rw [← hmarks.outbound] at hne
    exact h.spent k hne
  · intro token entry state hrunning hstate
    rw [← hmarks.inbound]
    exact h.inboundLive token entry state hrunning hstate
  · intro token hnone
    rw [← hmarks.inbound]
    exact h.inboundOver token hnone
  · intro token hne
    rw [← hmarks.inbound] at hne
    rw [← hmarks.attached]
    exact h.spentToken token hne
  intro c state hget
  rw [← hmarks.attached]
  exact h.recorded c state hget

variable {history : List BrokerEffect}

theorem Tracked.changes {changes : List (List BrokerEffect)}
    (hrun : Run (Change options op) s changes t) (h : Tracked history s) (hs : s.Coherent options)
    (hnodup : (attachedPairs (history ++ changes.flatten)).Nodup) :
    Tracked (history ++ changes.flatten) t := by
  induction hrun generalizing history with
  | nil =>
    rw [flatten_nil, append_nil]
    exact h
  | @cons s _ _ effects changes hchange _ ih =>
    rw [flatten_cons, ← append_assoc] at hnodup ⊢
    have hfirst : (attachedPairs (history ++ effects)).Nodup := by
      rw [attachedPairs_append] at hnodup
      exact (nodup_append.mp hnodup).1
    exact ih (h.change hs hchange hfirst) (hchange.coherent hs) hnodup

theorem Tracked.performs (h : Tracked history s)
    (hs : s.Coherent options) (hperforms : Performs options op s effects t)
    (hnodup : (attachedPairs (history ++ effects)).Nodup) : Tracked (history ++ effects) t := by
  obtain ⟨changes, hrun, hmarks⟩ := hperforms
  have hsame := (SameMarks.refl history).append hmarks
  rw [← hsame.attached] at hnodup
  exact (Tracked.changes hrun h hs hnodup).same hsame

/-- The marks of a request or of a withdrawal come from an operation that makes them. -/
theorem Change.authors (h : Change options op s effects t) :
    (∀ {entry writer frame written}, .request entry writer frame written ∈ effects →
      RequestedBy op entry) ∧
    ∀ {entry source}, .withdrawn entry source ∈ effects →
      Withdraws op source entry.requestId := by
  cases h with
  | quiet _ hsilent =>
    constructor
    · intro entry writer frame written hmem
      cases hsilent _ hmem
    intro entry source hmem
    cases hsilent _ hmem
  | attached _ _ _ | closed _ _ _ _ _ _ | dispatched _ _ _ => simp
  | requested _ _ hauthor =>
    refine ⟨?_, by simp⟩
    intro entry writer frame written hmem
    cases mem_singleton.mp hmem
    exact hauthor
  | failed _ _ _ _ hauthor hunsent _ =>
    obtain rfl | ⟨frame, rfl⟩ := hunsent
    · simp
    refine ⟨?_, by simp⟩
    intro entry writer other written hmem
    obtain hfirst | hrest := mem_append.mp hmem
    · cases mem_singleton.mp hfirst
      exact hauthor
    · cases mem_singleton.mp hrest
  | detachedOutbound _ _ hends =>
    cases hends with
    | answered _ _ => simp
    | withdrawn source _ hauthor =>
      refine ⟨by simp, ?_⟩
      intro entry other hmem
      cases mem_singleton.mp hmem
      exact hauthor
  | detachedInbound _ _ hends =>
    cases hends with
    | completed _ _ _ abort _ _ => cases abort <;> simp
    | aborted => simp

variable {entry : OutboundEntry}

theorem mem_requested {written : Bool} :
    .requested entry written ∈ outboundMarks entry.peerKey effects ↔
      ∃ writer frame, .request entry writer frame written ∈ effects := by
  constructor
  · intro hmem
    obtain ⟨effect, heffect, hmark⟩ := mem_filterMap.mp hmem
    split at hmark
    · split at hmark
      · cases hmark
        exact ⟨_, _, heffect⟩
      · cases hmark
    · split at hmark <;> cases hmark
    · split at hmark <;> cases hmark
    · cases hmark
  rintro ⟨writer, frame, hmem⟩
  exact mem_filterMap.mpr ⟨_, hmem, if_pos rfl⟩

variable {source : BrokerRuntimeSource}

theorem mem_withdrawn :
    .withdrawn entry source ∈ outboundMarks entry.peerKey effects ↔
      .withdrawn entry source ∈ effects := by
  constructor
  · intro hmem
    obtain ⟨effect, heffect, hmark⟩ := mem_filterMap.mp hmem
    split at hmark
    · split at hmark <;> cases hmark
    · split at hmark <;> cases hmark
    · split at hmark
      · cases hmark
        exact heffect
      · cases hmark
    · cases hmark
  intro hmem
  exact mem_filterMap.mpr ⟨_, hmem, if_pos rfl⟩

theorem Performs.authors (h : Performs options op s effects t) :
    (∀ {entry writer frame written}, .request entry writer frame written ∈ effects →
      RequestedBy op entry) ∧
    ∀ {entry source}, .withdrawn entry source ∈ effects →
      Withdraws op source entry.requestId := by
  obtain ⟨changes, hrun, hmarks⟩ := h
  constructor
  · intro entry writer frame written hmem
    have hmark := mem_requested.mpr ⟨writer, frame, hmem⟩
    rw [← hmarks.outbound] at hmark
    obtain ⟨writer, frame, hmem⟩ := mem_requested.mp hmark
    obtain ⟨change, hchange, hmem⟩ := mem_flatten.mp hmem
    obtain ⟨u, v, hstep⟩ := hrun.step_of_mem hchange
    exact hstep.authors.1 hmem
  intro entry source hmem
  have hmark := mem_withdrawn.mpr hmem
  rw [← hmarks.outbound] at hmark
  obtain ⟨change, hchange, hmem⟩ := mem_flatten.mp (mem_withdrawn.mp hmark)
  obtain ⟨u, v, hstep⟩ := hrun.step_of_mem hchange
  exact hstep.authors.2 hmem

variable {label : BrokerLabel}

theorem step_performs (hs : s.Coherent options)
    (hstep : BrokerStep options s label t) : Performs options label.op s label.effects t := by
  obtain ⟨answers, happly⟩ := hstep
  obtain ⟨after, effects, hresult, hperforms⟩ := apply_performs answers hs label.op
  obtain ⟨rfl, rfl⟩ := Prod.mk.inj (Except.ok.inj (happly.symm.trans hresult))
  exact hperforms

/-- An operation does what only it may: a request is written for the entry that the
operation asks for, and entries are withdrawn by those that withdraw them. -/
structure Faithful (s : BrokerInner) (label : BrokerLabel) : Prop where
  requested : ∀ {entry writer frame written},
    .request entry writer frame written ∈ label.effects → RequestedBy label.op entry
  withdrawn : ∀ {entry source}, .withdrawn entry source ∈ label.effects →
    Withdraws label.op source entry.requestId
  cancels : ∀ {source requestId k entry}, label.op = .handleRuntimeCancel source requestId →
    s.outboundByPeer.get? k = some entry → entry.source.key entry.requestId = source.key requestId →
    .withdrawn entry source ∈ label.effects
  disconnects : ∀ {source k entry}, label.op = .handleRuntimeDisconnect source →
    s.outboundByPeer.get? k = some entry → entry.source.sender = source.sender →
    entry.source.sessionToken = source.sessionToken → .withdrawn entry source ∈ label.effects
  senders : ∀ {k entry}, label.op = .runtimeDisconnectedSender entry.source.sender →
    s.outboundByPeer.get? k = some entry → .withdrawn entry entry.source ∈ label.effects

theorem cancel_withdraws (hs : s.Coherent options) {requestId k : String}
    (hstep : BrokerStep options s label t) (hop : label.op = .handleRuntimeCancel source requestId)
    (hlive : s.outboundByPeer.get? k = some entry)
    (hown : entry.source.key entry.requestId = source.key requestId) :
    .withdrawn entry source ∈ label.effects := by
  obtain ⟨answers, happly⟩ := hstep
  have hfound := hs.outbound.indexed.found hlive
  rw [(hs.outbound.keyed hlive).2, hown] at hfound
  have hcancel : s.handleRuntimeCancel answers source requestId =
      .ok ((s.sweep answers).detachOutbound answers entry, [.withdrawn entry source], true) := by
    unfold BrokerInner.handleRuntimeCancel
    dsimp only
    rw [show (s.sweep answers).outboundByRuntime.get? (source.key requestId) = some k from hfound]
    dsimp only
    rw [show (s.sweep answers).outboundByPeer.get? k = some entry from hlive]
  rw [hop, BrokerInner.apply, hcancel] at happly
  rw [← (Prod.mk.inj (Except.ok.inj happly)).2]
  exact .head _

theorem runtimeGone_withdraws {k : String} {answers : BrokerAnswers}
    {affects : OutboundEntry → Bool} (source : OutboundEntry → BrokerRuntimeSource)
    (hlive : s.outboundByPeer.get? k = some entry) (haffects : affects entry = true) :
    .withdrawn entry (source entry) ∈ (s.runtimeGone answers affects source).2.1 :=
  mem_map_of_mem (f := fun entry => BrokerEffect.withdrawn entry (source entry))
    (mem_filter.mpr ⟨OrdMap.mem_values_iff.mpr ⟨k, hlive⟩, haffects⟩)

theorem disconnect_withdraws {k : String} (hstep : BrokerStep options s label t)
    (hop : label.op = .handleRuntimeDisconnect source)
    (hlive : s.outboundByPeer.get? k = some entry) (hsender : entry.source.sender = source.sender)
    (htoken : entry.source.sessionToken = source.sessionToken) :
    .withdrawn entry source ∈ label.effects := by
  obtain ⟨answers, happly⟩ := hstep
  rw [hop, BrokerInner.apply] at happly
  rw [← (Prod.mk.inj (Except.ok.inj happly)).2]
  exact runtimeGone_withdraws (fun _ => source) hlive (by simp [hsender, htoken])

theorem sender_withdraws {k : String} (hstep : BrokerStep options s label t)
    (hop : label.op = .runtimeDisconnectedSender entry.source.sender)
    (hlive : s.outboundByPeer.get? k = some entry) :
    .withdrawn entry entry.source ∈ label.effects := by
  obtain ⟨answers, happly⟩ := hstep
  rw [hop, BrokerInner.apply] at happly
  rw [← (Prod.mk.inj (Except.ok.inj happly)).2]
  exact runtimeGone_withdraws OutboundEntry.source hlive (by simp)

theorem step_faithful (hs : s.Coherent options)
    (hstep : BrokerStep options s label t) : Faithful s label := by
  obtain ⟨hrequested, hwithdrawn⟩ := (step_performs hs hstep).authors
  exact ⟨hrequested, hwithdrawn, cancel_withdraws hs hstep, disconnect_withdraws hstep,
    sender_withdraws hstep⟩

/-! ## Runs -/

/-- What the operations of a run did. -/
def brokerEffects (labels : List BrokerLabel) : List BrokerEffect :=
  labels.flatMap BrokerLabel.effects

variable {labels : List BrokerLabel} {inner : BrokerInner}

theorem run_coherent
    (hrun : Run (BrokerStep options) (new options) labels inner) : inner.Coherent options :=
  hrun.invariant (P := Coherent options)
    (fun hs hstep => (step_performs hs hstep).coherent hs) .empty

theorem run_tracked (hrun : Run (BrokerStep options) (new options) labels inner)
    (hnodup : (attachedPairs (brokerEffects labels)).Nodup) :
    Tracked (brokerEffects labels) inner := by
  revert hnodup
  refine hrun.history (P := fun labels inner => (attachedPairs (brokerEffects labels)).Nodup →
    Tracked (brokerEffects labels) inner) (fun _ => .empty) ?_
  intro labels s label t hbefore htracked hstep hnodup
  have hs := run_coherent hbefore
  have hsnoc : brokerEffects (labels ++ [label]) = brokerEffects labels ++ label.effects := by
    simp [brokerEffects]
  rw [hsnoc] at hnodup ⊢
  have hold : (attachedPairs (brokerEffects labels)).Nodup := by
    rw [attachedPairs_append] at hnodup
    exact (nodup_append.mp hnodup).1
  exact (htracked hold).performs hs (step_performs hs hstep) hnodup

/-- What happened to every request, as the indexes have it. -/
structure Correlated (history : List BrokerEffect) (s : BrokerInner) : Prop where
  waiting : ∀ {k entry}, s.outboundByPeer.get? k = some entry →
    outboundMarks k history = [.requested entry true]
  settled : ∀ {k}, s.outboundByPeer.get? k = none → OutboundOver (outboundMarks k history)
  running : ∀ {token k entry}, s.inboundByToken.get? token = some k →
    s.inboundByPeer.get? k = some entry → ∃ state,
      s.generations.get? token.connectionId = some state ∧ state.uid = entry.generationUid ∧
      inboundMarks token history = [.dispatched entry.peerId.id state.writer]
  completed : ∀ {token}, s.inboundByToken.get? token = none →
    InboundOver (inboundMarks token history)

theorem Tracked.correlated (h : Tracked history s)
    (hs : s.Coherent options) : Correlated history s := by
  refine ⟨h.outboundLive _ _, h.outboundOver _, ?_, ?_⟩
  · intro token k entry htoken hlive
    obtain ⟨other, hother, hown⟩ := hs.inbound.indexed.names htoken
    obtain rfl := Option.some.inj (hlive.symm.trans hother)
    obtain ⟨state, hstate, huid, -⟩ := hs.inbound.home hlive
    rw [hown] at hstate
    exact ⟨state, hstate, huid, h.inboundLive token entry state ⟨k, hlive, hown⟩ hstate⟩
  intro token htoken
  apply h.inboundOver
  rintro entry ⟨k, hlive, rfl⟩
  rw [hs.inbound.indexed.found hlive] at htoken
  cases htoken

/-- Where no connection generation is attached twice, the tables of the broker are coherent
after every run and correlate every request; no next operation panics, and each does what
only it may. -/
theorem run_correlated (hrun : Run (BrokerStep options) (new options) labels inner)
    (hnodup : (attachedPairs (brokerEffects labels)).Nodup) :
    inner.Coherent options ∧ Correlated (brokerEffects labels) inner ∧
      (∀ answers op, ∃ result, inner.apply options answers op = .ok result) ∧
      ∀ label after, BrokerStep options inner label after → Faithful inner label := by
  have hs := run_coherent hrun
  refine ⟨hs, (run_tracked hrun hnodup).correlated hs, ?_, ?_⟩
  · intro answers op
    obtain ⟨after, effects, hresult, -⟩ := apply_performs answers hs op
    exact ⟨_, hresult⟩
  · intro label after hstep
    exact step_faithful hs hstep

/-- A connection on which a request of each direction is made and answered. -/
def roomLabels : List BrokerLabel :=
  let source : BrokerRuntimeSource := ⟨⟨"replica", 1⟩, "session", 5⟩
  let entry : OutboundEntry :=
    { connectionId := "c", peerKey := "0:s:g:0", runtimeKey := source.key "r"
      source := source, requestId := "r", deadlineAtMs := none, generationUid := 0 }
  let token : InboundExecutionToken := ⟨"c", 0, 0⟩
  let peerId : PeerId := ⟨.string "q", by decide, by decide⟩
  [ ⟨.attachGeneration ⟨"c", "g", "service", "entry"⟩ 7 0, [.attached "c" 0]⟩,
    ⟨.handleRuntimeRequest "c" source ⟨"r", "service", "entry", 1, "ask", some "1", none⟩,
      [.request entry 7 (.request (.string "g:0") "ask" "1") true]⟩,
    ⟨.handlePeerText "c" (.request peerId "tell" (some [])), [.dispatch token peerId 7 "tell" []]⟩,
    ⟨.handlePeerText "c" (.response "g:0" (some (.success [1]))),
      [.respond (some "0:s:g:0") source
        { requestId := "r", outcome := .success, payload := [1] }]⟩,
    ⟨.completeInbound token (.success "2"), [.terminal token 7 (.result (.string "q") "2") true]⟩ ]

def roomAnswers : BrokerAnswers :=
  { clock := fun _ => 0, detachedAt := fun _ => 0, accepts := fun _ => true
    written := true, dispatched := true }

/-- Such a run exists, and its requests are correlated. -/
theorem run_correlated_room : ∃ inner,
    Run (BrokerStep ⟨4, 2, 4, 2, 8, 1000, 500⟩) (new ⟨4, 2, 4, 2, 8, 1000, 500⟩) roomLabels inner ∧
      Correlated (brokerEffects roomLabels) inner := by
  have hrun : ∃ inner, Run (BrokerStep ⟨4, 2, 4, 2, 8, 1000, 500⟩)
      (new ⟨4, 2, 4, 2, 8, 1000, 500⟩) roomLabels inner :=
    ⟨_, .cons ⟨roomAnswers, by rfl⟩ (.cons ⟨roomAnswers, by rfl⟩ (.cons ⟨roomAnswers, by rfl⟩
      (.cons ⟨roomAnswers, by rfl⟩ (.cons ⟨roomAnswers, by rfl⟩ (.nil _)))))⟩
  obtain ⟨inner, hrun⟩ := hrun
  exact ⟨inner, hrun, (run_correlated hrun (by decide)).2.1⟩

end BrokerInner
end Skiff.WebSocket
