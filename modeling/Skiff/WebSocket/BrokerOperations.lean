import Skiff.WebSocket.BrokerChanges

/-!
# The operations of the broker as changes

One lemma for each operation: on coherent tables it does not panic, and what it does is a
sequence of changes. The loops detach distinct live entries, one after the other; a close
detaches all entries of its generation before the generation goes.
-/

namespace Skiff.WebSocket

open BrokerInner OrdMap List

namespace BrokerInner

variable {options : WebSocketRequestBrokerOptions} {answers : BrokerAnswers} {op : BrokerOp}
  {s : BrokerInner}

/-! ## Runtime operations -/

theorem attachGeneration_performs (handle : BrokerConnectionGeneration) (writer generation : Nat) :
    Performs options op s
      (match (s.attachGeneration handle writer generation).2 with
        | .ok _ => [.attached handle.connectionId generation]
        | .error _ => [])
      (s.attachGeneration handle writer generation).1 := by
  have hchange : s.generations.get? handle.connectionId = none →
      Change options op s [.attached handle.connectionId generation]
        (s.attachGeneration handle writer generation).1 := .attached writer generation
  unfold attachGeneration at hchange ⊢
  by_cases hcontains : s.generations.contains handle.connectionId
  · rw [if_pos hcontains]
    exact .refl s
  rw [if_neg hcontains] at hchange ⊢
  apply Performs.change
  apply hchange
  cases hget : s.generations.get? handle.connectionId with
  | none => rfl
  | some state => exact absurd (contains_iff.mpr ⟨state, hget⟩) hcontains

/-- A refusal changes no table. -/
theorem refuse_performs (source : BrokerRuntimeSource) (requestId : String)
    (outcome : ConnectionResponseOutcome) (violation : Option String) :
    Performs options op s (s.refuse source requestId outcome violation).2
      (s.refuse source requestId outcome violation).1 := by
  refine .quiet (.of_generations_eq ⟨rfl, rfl, rfl⟩ ⟨rfl, rfl⟩ rfl rfl) ?_
  intro effect hmem
  obtain rfl | hmem := mem_cons.mp hmem
  · exact .refused _ _
  obtain ⟨reason, -, rfl⟩ := mem_map.mp hmem
  exact .violation _ _

variable {state : GenerationState} {entry : OutboundEntry}

/-- A failed write takes the entry out of the tables again. -/
theorem sendOutbound_performs
    (hstart : Startable options s entry state) (hauthor : RequestedBy op entry)
    (peerId : OpaquePeerId) (method params : String) :
    Performed options op s
      ((s.drawSequence entry.connectionId).sendOutbound answers entry peerId method params) := by
  have hdrawn : (s.drawSequence entry.connectionId).generations.get? entry.connectionId =
      some { state with sequence := state.sequence + 1 } := by
    rw [drawSequence, updateGeneration_some hstart.attached, if_pos rfl]
  unfold sendOutbound
  rw [hdrawn]
  dsimp only
  rw [hstart.live]
  cases hframe : encodeOutboundRequest peerId method params with
  | none => exact .change (.failed answers [] _ hstart hauthor (.inl rfl) rfl)
  | some frame =>
    cases hwritten : answers.written with
    | true => exact .change (.requested frame hstart hauthor)
    | false => exact .change (.failed answers _ _ hstart hauthor (.inr ⟨frame, rfl⟩) rfl)

variable {connectionId : String}

theorem startOutbound_performs {source : BrokerRuntimeSource} {request : RuntimeRequest}
    (hstate : s.generations.get? connectionId = some state)
    (hruntime : s.outboundByRuntime.get? (source.key request.requestId) = none)
    (hglobal : s.outboundByPeer.size < options.outboundGlobalCapacity)
    (hactive : state.outboundActive < options.outboundPerGenerationCapacity) (params : String) :
    Performed options (.handleRuntimeRequest connectionId source request) s
      (s.startOutbound answers connectionId state source request params) := by
  have hquiet : Quiet s (s.drawSequence connectionId) := .drawSequence _
  unfold startOutbound
  dsimp only
  split
  · exact .after hquiet (refuse_performs _ _ _ _)
  case isFalse hfresh =>
    have hpeer : s.outboundByPeer.get? (generationPeerKey state.uid
        (outboundPeerId state.handle.socketGeneration state.sequence)) = none := by
      cases hget : s.outboundByPeer.get? _ with
      | none => rfl
      | some entry =>
        apply absurd _ hfresh
        rw [← hquiet.outboundByPeer] at hget
        rw [Bool.or_eq_true]
        exact .inl (contains_iff.mpr ⟨entry, hget⟩)
    refine sendOutbound_performs (?_ : Startable options s _ state) ⟨request, rfl, rfl⟩ _ _ _
    exact ⟨hstate, rfl, rfl, hpeer, hruntime, rfl, hglobal, hactive⟩

theorem handleRuntimeRequest_performs (connectionId : String) (source : BrokerRuntimeSource)
    (request : RuntimeRequest) :
    Performed options (.handleRuntimeRequest connectionId source request) s
      (s.handleRuntimeRequest options answers connectionId source request) := by
  apply Performed.after (.sweep answers)
  unfold handleRuntimeRequest
  dsimp only
  split
  · exact refuse_performs _ _ _ _
  case h_2 state hstate =>
    split
    · exact refuse_performs _ _ _ _
    split
    · exact refuse_performs _ _ _ _
    split
    · exact refuse_performs _ _ _ _
    split
    · exact refuse_performs _ _ _ _
    split
    · exact refuse_performs _ _ _ _
    case isFalse hnew =>
    split
    · exact refuse_performs _ _ _ _
    case isFalse hroom =>
    split
    · exact refuse_performs _ _ _ _
    have hroom := not_or.mp hroom
    apply startOutbound_performs hstate _ (not_le.mp hroom.1) (not_le.mp hroom.2)
    cases hget : (s.sweep answers).outboundByRuntime.get? (source.key request.requestId) with
    | none => rfl
    | some key => exact absurd (contains_iff.mpr ⟨key, hget⟩) hnew

theorem handleRuntimeCancel_performs (hs : s.Coherent options) (source : BrokerRuntimeSource)
    (requestId : String) :
    Performed options (.handleRuntimeCancel source requestId) s
      (s.handleRuntimeCancel answers source requestId) := by
  have hswept := hs.quiet (Quiet.sweep answers)
  apply Performed.after (.sweep answers)
  unfold handleRuntimeCancel
  dsimp only
  split
  · exact .refl _
  case h_2 peerKey hkey =>
    obtain ⟨entry, hlive, hown⟩ := hswept.outbound.indexed.names hkey
    rw [hlive]
    have hsame := (hswept.outbound.keyed hlive).2.symm.trans hown
    have hrequest : entry.requestId = requestId := congrArg RuntimeKey.requestId hsame
    refine .change (.detachedOutbound answers hlive (.withdrawn source ?_ (.inl ?_)))
    · rw [hsame, hrequest]
    · rw [hrequest]

/-! ## Loops over entries -/

theorem detachOutbound_get? {k : String} {live : OutboundEntry}
    (h : s.outboundByPeer.contains entry.peerKey = true) :
    (s.detachOutbound answers entry).outboundByPeer.get? k = some live ↔
      k ≠ entry.peerKey ∧ s.outboundByPeer.get? k = some live := by
  rw [detachOutbound, if_pos h, updateGeneration_outboundByPeer, get?_erase]
  split
  case isTrue heq => simp [heq]
  case isFalse hne => simp [hne]

theorem detachInbound_get? {entry : InboundEntry} {k : String} {live : InboundEntry}
    (h : s.inboundByPeer.contains entry.peerKey = true) :
    (s.detachInbound answers entry).inboundByPeer.get? k = some live ↔
      k ≠ entry.peerKey ∧ s.inboundByPeer.get? k = some live := by
  rw [detachInbound, if_pos h, updateGeneration_inboundByPeer, get?_erase]
  split
  case isTrue heq => simp [heq]
  case isFalse hne => simp [hne]

theorem detachOutbound_inboundByPeer (entry : OutboundEntry) :
    (s.detachOutbound answers entry).inboundByPeer = s.inboundByPeer := by
  rw [detachOutbound]
  split
  · exact updateGeneration_inboundByPeer _ _
  · rfl

theorem detachInbound_outboundByPeer (entry : InboundEntry) :
    (s.detachInbound answers entry).outboundByPeer = s.outboundByPeer := by
  rw [detachInbound]
  split
  · exact updateGeneration_outboundByPeer _ _
  · rfl

theorem drawSequence_nextGenerationUid (connectionId : String) :
    (s.drawSequence connectionId).nextGenerationUid = s.nextGenerationUid :=
  updateGeneration_nextGenerationUid _ _

theorem indexOutbound_nextGenerationUid (entry : OutboundEntry) :
    (s.indexOutbound entry).nextGenerationUid = s.nextGenerationUid := by
  rw [indexOutbound, updateGeneration_nextGenerationUid]

theorem indexInbound_nextGenerationUid (entry : InboundEntry) :
    (s.indexInbound entry).nextGenerationUid = s.nextGenerationUid := by
  rw [indexInbound, updateGeneration_nextGenerationUid]

theorem detachOutbound_nextGenerationUid (entry : OutboundEntry) :
    (s.detachOutbound answers entry).nextGenerationUid = s.nextGenerationUid := by
  rw [detachOutbound]
  split
  · exact updateGeneration_nextGenerationUid _ _
  · rfl

theorem detachInbound_nextGenerationUid (entry : InboundEntry) :
    (s.detachInbound answers entry).nextGenerationUid = s.nextGenerationUid := by
  rw [detachInbound]
  split
  · exact updateGeneration_nextGenerationUid _ _
  · rfl

variable (options answers) in
/-- Distinct live entries are detached one after the other, and are gone then. -/
theorem detachAllOutbound_performs {entries : List OutboundEntry}
    {effect : OutboundEntry → BrokerEffect} (hnodup : (entries.map OutboundEntry.peerKey).Nodup)
    (hlive : ∀ entry ∈ entries, s.outboundByPeer.get? entry.peerKey = some entry)
    (hends : ∀ entry ∈ entries, OutboundEnd op entry (effect entry)) :
    Performs options op s (entries.map effect) (s.detachAllOutbound answers entries) ∧
      (∀ {k entry}, (s.detachAllOutbound answers entries).outboundByPeer.get? k = some entry →
        s.outboundByPeer.get? k = some entry ∧ k ∉ entries.map OutboundEntry.peerKey) ∧
      (s.detachAllOutbound answers entries).inboundByPeer = s.inboundByPeer := by
  induction entries generalizing s with
  | nil => exact ⟨.refl s, fun hget => ⟨hget, not_mem_nil⟩, rfl⟩
  | cons first rest ih =>
    obtain ⟨hfirst, hrest⟩ := nodup_cons.mp hnodup
    have hfirstLive := hlive first (.head _)
    have hcontains : s.outboundByPeer.contains first.peerKey = true :=
      contains_iff.mpr ⟨first, hfirstLive⟩
    have hkept : ∀ entry ∈ rest,
        (s.detachOutbound answers first).outboundByPeer.get? entry.peerKey = some entry := by
      intro entry hmem
      have hentry := hlive entry (.tail _ hmem)
      refine (detachOutbound_get? hcontains).mpr ⟨?_, hentry⟩
      intro heq
      exact hfirst (heq ▸ mem_map_of_mem hmem)
    obtain ⟨hperforms, hgone, hinbound⟩ := ih hrest hkept
      fun entry hmem => hends entry (.tail _ hmem)
    refine ⟨?_, ?_, hinbound.trans (detachOutbound_inboundByPeer first)⟩
    · have hstep : Performs options op s [effect first] (s.detachOutbound answers first) :=
        .change (.detachedOutbound answers hfirstLive (hends first (.head _)))
      exact hstep.trans hperforms
    intro k entry hget
    obtain ⟨hmid, hnot⟩ := hgone hget
    obtain ⟨hne, hold⟩ := (detachOutbound_get? hcontains).mp hmid
    refine ⟨hold, ?_⟩
    intro hmem
    obtain rfl | hmem := mem_cons.mp hmem
    · exact hne rfl
    · exact hnot hmem

variable (options answers) in
theorem detachAllInbound_performs {entries : List InboundEntry}
    (hnodup : (entries.map InboundEntry.peerKey).Nodup)
    (hlive : ∀ entry ∈ entries, s.inboundByPeer.get? entry.peerKey = some entry) :
    Performs options op s (entries.map fun entry => .cancel entry.executionToken)
        (s.detachAllInbound answers entries) ∧
      (∀ {k entry}, (s.detachAllInbound answers entries).inboundByPeer.get? k = some entry →
        s.inboundByPeer.get? k = some entry ∧ k ∉ entries.map InboundEntry.peerKey) ∧
      (s.detachAllInbound answers entries).outboundByPeer = s.outboundByPeer := by
  induction entries generalizing s with
  | nil => exact ⟨.refl s, fun hget => ⟨hget, not_mem_nil⟩, rfl⟩
  | cons first rest ih =>
    obtain ⟨hfirst, hrest⟩ := nodup_cons.mp hnodup
    have hfirstLive := hlive first (.head _)
    have hcontains : s.inboundByPeer.contains first.peerKey = true :=
      contains_iff.mpr ⟨first, hfirstLive⟩
    have hkept : ∀ entry ∈ rest,
        (s.detachInbound answers first).inboundByPeer.get? entry.peerKey = some entry := by
      intro entry hmem
      have hentry := hlive entry (.tail _ hmem)
      refine (detachInbound_get? hcontains).mpr ⟨?_, hentry⟩
      intro heq
      exact hfirst (heq ▸ mem_map_of_mem hmem)
    obtain ⟨hperforms, hgone, houtbound⟩ := ih hrest hkept
    refine ⟨?_, ?_, houtbound.trans (detachInbound_outboundByPeer first)⟩
    · have hstep : Performs options op s [.cancel first.executionToken]
          (s.detachInbound answers first) :=
        .change (.detachedInbound answers hfirstLive .aborted)
      exact hstep.trans hperforms
    intro k entry hget
    obtain ⟨hmid, hnot⟩ := hgone hget
    obtain ⟨hne, hold⟩ := (detachInbound_get? hcontains).mp hmid
    refine ⟨hold, ?_⟩
    intro hmem
    obtain rfl | hmem := mem_cons.mp hmem
    · exact hne rfl
    · exact hnot hmem

/-- The entries of a table that pass a test, by their keys. -/
theorem Outbound.selected (h : s.Outbound options) (p : OutboundEntry → Bool) :
    ((s.outboundByPeer.values.filter p).map OutboundEntry.peerKey).Nodup ∧
      ∀ entry ∈ s.outboundByPeer.values.filter p,
        s.outboundByPeer.get? entry.peerKey = some entry ∧ p entry = true := by
  constructor
  · have hall := nodup_map_values fun hget => (h.keyed hget).1
    exact hall.sublist (filter_sublist.map _)
  intro entry hmem
  obtain ⟨hvalue, hpass⟩ := mem_filter.mp hmem
  obtain ⟨k, hget⟩ := mem_values_iff.mp hvalue
  obtain ⟨rfl, -⟩ := h.keyed hget
  exact ⟨hget, hpass⟩

theorem Inbound.selected (h : s.Inbound options) (p : InboundEntry → Bool) :
    ((s.inboundByPeer.values.filter p).map InboundEntry.peerKey).Nodup ∧
      ∀ entry ∈ s.inboundByPeer.values.filter p,
        s.inboundByPeer.get? entry.peerKey = some entry ∧ p entry = true := by
  constructor
  · have hall := nodup_map_values fun hget => h.keyed hget
    exact hall.sublist (filter_sublist.map _)
  intro entry hmem
  obtain ⟨hvalue, hpass⟩ := mem_filter.mp hmem
  obtain ⟨k, hget⟩ := mem_values_iff.mp hvalue
  obtain rfl := h.keyed hget
  exact ⟨hget, hpass⟩

/-- The entries of a runtime are all withdrawn. -/
theorem runtimeGone_performs (hs : s.Coherent options) {affects : OutboundEntry → Bool}
    {source : OutboundEntry → BrokerRuntimeSource}
    (hown : ∀ entry, affects entry = true →
      (source entry).key entry.requestId = entry.source.key entry.requestId ∧
        Withdraws op (source entry) entry.requestId) :
    Performs options op s (s.runtimeGone answers affects source).2.1
      (s.runtimeGone answers affects source).1 := by
  have hswept := hs.quiet (Quiet.sweep answers)
  obtain ⟨hnodup, hlive⟩ := hswept.outbound.selected affects
  obtain ⟨hperforms, -, -⟩ := detachAllOutbound_performs options answers hnodup
    (fun entry hmem => (hlive entry hmem).1) fun entry hmem =>
      .withdrawn (source entry) (hown entry (hlive entry hmem).2).1
        (hown entry (hlive entry hmem).2).2
  have hsilent : Performs options op s [] (s.sweep answers) :=
    .quiet (.sweep answers) fun _ hmem => nomatch hmem
  exact (hsilent.trans hperforms).andThen
    (.quiet (.of_generations_eq ⟨rfl, rfl, rfl⟩ ⟨rfl, rfl⟩ rfl rfl) fun _ hmem => nomatch hmem)

theorem handleRuntimeDisconnect_performs (hs : s.Coherent options) (source : BrokerRuntimeSource) :
    Performs options (.handleRuntimeDisconnect source) s
      (s.handleRuntimeDisconnect answers source).2.1
      (s.handleRuntimeDisconnect answers source).1 := by
  refine runtimeGone_performs hs fun entry hsame => ⟨?_, .inr (.inl rfl)⟩
  rw [Bool.and_eq_true, decide_eq_true_eq, decide_eq_true_eq] at hsame
  rw [BrokerRuntimeSource.key, BrokerRuntimeSource.key, hsame.1, hsame.2]

/-! ## Closing -/

variable (answers) in
/-- The entries of an attached generation are detached, and no entry is left to it. -/
theorem detachGeneration_performs (hs : s.Coherent options) {c : String}
    (hstate : s.generations.get? c = some state) {outbound : List OutboundEntry}
    {inbound : List InboundEntry} (outcome : ConnectionResponseOutcome)
    (houtbound : outbound = s.outboundByPeer.values.filter (·.generationUid = state.uid))
    (hinbound : inbound = s.inboundByPeer.values.filter (·.generationUid = state.uid)) :
    Performs options op s
      ((outbound.map fun entry => .respond (some entry.peerKey) entry.source
          { requestId := entry.requestId, outcome := outcome }) ++
        inbound.map fun entry => .cancel entry.executionToken)
      ((s.detachAllOutbound answers outbound).detachAllInbound answers inbound) ∧
    (∀ k entry, ((s.detachAllOutbound answers outbound).detachAllInbound answers
      inbound).outboundByPeer.get? k = some entry → entry.connectionId ≠ c) ∧
    ∀ k entry, ((s.detachAllOutbound answers outbound).detachAllInbound answers
      inbound).inboundByPeer.get? k = some entry → entry.executionToken.connectionId ≠ c := by
  obtain ⟨hnodup, hlive⟩ := hs.outbound.selected fun entry => entry.generationUid = state.uid
  obtain ⟨hnodup', hlive'⟩ := hs.inbound.selected fun entry => entry.generationUid = state.uid
  rw [← houtbound] at hnodup hlive
  rw [← hinbound] at hnodup' hlive'
  obtain ⟨hfirst, hgone, hsame⟩ := detachAllOutbound_performs options answers hnodup
    (fun entry hmem => (hlive entry hmem).1) fun entry _ =>
      .answered { requestId := entry.requestId, outcome := outcome } rfl
  rw [← hsame] at hlive'
  obtain ⟨hsecond, hgone', hsame'⟩ := detachAllInbound_performs options answers
    hnodup' fun entry hmem => (hlive' entry hmem).1
  refine ⟨hfirst.trans hsecond, ?_, ?_⟩
  · intro k entry hget heq
    rw [hsame'] at hget
    obtain ⟨hold, hnot⟩ := hgone hget
    obtain ⟨rfl, -⟩ := hs.outbound.keyed hold
    obtain ⟨home, hhome, huid⟩ := hs.outbound.home hold
    rw [heq, hstate] at hhome
    cases hhome
    apply hnot
    rw [houtbound]
    exact mem_map_of_mem (mem_filter.mpr ⟨mem_values_iff.mpr ⟨_, hold⟩, decide_eq_true huid.symm⟩)
  intro k entry hget heq
  obtain ⟨hold, hnot⟩ := hgone' hget
  rw [hsame] at hold
  obtain rfl := hs.inbound.keyed hold
  obtain ⟨home, hhome, huid, -⟩ := hs.inbound.home hold
  rw [heq, hstate] at hhome
  cases hhome
  apply hnot
  rw [hinbound]
  exact mem_map_of_mem (mem_filter.mpr ⟨mem_values_iff.mpr ⟨_, hold⟩, decide_eq_true huid.symm⟩)

theorem closeGeneration_performs (hs : s.Coherent options) (connectionId : String)
    (protocolOutcome : Bool) :
    Performs options op s (s.closeGeneration answers connectionId protocolOutcome).2
      (s.closeGeneration answers connectionId protocolOutcome).1 := by
  unfold closeGeneration
  split
  · exact .refl s
  case h_2 state hstate =>
    split
    · exact .refl s
    dsimp only
    have hquiet : Quiet s (s.updateGeneration connectionId fun state =>
        { state with isOpen := false }) :=
      .updateGeneration fun state => ⟨false, state.sequence, le_refl _, rfl⟩
    have hclosed : (s.updateGeneration connectionId fun state =>
        { state with isOpen := false }).generations.get? connectionId =
          some { state with isOpen := false } := by
      rw [updateGeneration_some hstate, if_pos rfl]
    have hsilent : Performs options op s [] _ := .quiet hquiet fun _ hmem => nomatch hmem
    obtain ⟨hdetached, hnone, hnone'⟩ :=
      detachGeneration_performs answers (hs.quiet hquiet) hclosed
      (if protocolOutcome then .protocolError else .transportUnavailable) rfl rfl
    have hends := (hsilent.trans hdetached).reorder (.cancels_responds _ _ _)
    exact hends.andThen (.closed ⟨rfl, rfl, rfl⟩ ⟨rfl, rfl⟩ rfl rfl hnone hnone')

theorem handlePeerDisconnect_performs (hs : s.Coherent options) (connectionId : String) :
    Performs options op s (s.handlePeerDisconnect answers connectionId).2
      (s.handlePeerDisconnect answers connectionId).1 := by
  have hquiet : Quiet s (s.sweep answers) := .sweep answers
  have hswept : Performs options op s [] (s.sweep answers) := .quiet hquiet fun _ h => nomatch h
  exact hswept.trans (closeGeneration_performs (hs.quiet hquiet) connectionId false)

/-! ## Peer operations -/

theorem settleOutbound_performs {k : String}
    (hlive : s.outboundByPeer.get? k = some entry) (hkey : entry.peerKey = k)
    (response : BrokerRuntimeResponse) (hnamed : response.requestId = entry.requestId) :
    Performs options op s (s.settleOutbound answers entry response).2
      (s.settleOutbound answers entry response).1 := by
  have hcontains : s.outboundByPeer.contains entry.peerKey = true :=
    contains_iff.mpr ⟨entry, hkey.symm ▸ hlive⟩
  rw [settleOutbound, if_pos hcontains]
  exact .change (.detachedOutbound answers hlive (.answered response hnamed))

theorem fireDeadline_performs (hs : s.Coherent options) (connectionId requestId : String) :
    Performed options op s (s.fireDeadline answers connectionId requestId) := by
  unfold fireDeadline
  split
  · exact .refl s
  case h_2 peerKey hkey =>
    obtain ⟨entry, hlive, -⟩ := hs.outbound.requests hkey
    rw [hlive]
    exact settleOutbound_performs hlive (hs.outbound.keyed hlive).1 _ rfl

theorem response_requestId (requestId : String) (terminal : PeerResponseTerminal) :
    (PeerResponseTerminal.response requestId terminal).requestId = requestId := by
  cases terminal <;> rfl

/-- A late, unknown or malformed answer changes no table. -/
theorem handlePeerResponse_performs (hs : s.Coherent options) (connectionId peerId : String)
    (terminal : Option PeerResponseTerminal) :
    Performs options op s (s.handlePeerResponse answers connectionId peerId terminal).2.1
      (s.handlePeerResponse answers connectionId peerId terminal).1 := by
  unfold handlePeerResponse
  split
  · exact .refl s
  dsimp only
  split
  · split <;> exact .refl s
  case h_2 entry hlive =>
    split
    · exact .refl s
    split
    · exact .refl s
    case h_2 terminal =>
      exact settleOutbound_performs hlive (hs.outbound.keyed hlive).1 _
        (response_requestId _ terminal)

theorem writePlatformError_performs
    (hstate : s.generations.get? connectionId = some state) (peerId : Option OpaquePeerId)
    (kind : PlatformErrorKind) :
    Performed options op s (s.writePlatformError answers connectionId peerId kind) := by
  unfold writePlatformError
  split
  · exact .refl s
  case h_2 frame _ =>
    rw [hstate]
    refine .quiet (.of_generations_eq ⟨rfl, rfl, rfl⟩ ⟨rfl, rfl⟩ rfl rfl) ?_
    intro effect hmem
    obtain rfl := mem_singleton.mp hmem
    exact .platformError _ _ _

theorem predispatchError_performs (connectionId : String) (peerId : PeerId)
    (kind : PlatformErrorKind) :
    Performed options op s (s.predispatchError answers connectionId peerId kind) := by
  unfold predispatchError
  split
  · exact .refl s
  case h_2 state hstate =>
    dsimp only
    split
    · exact .refl s
    have hquiet : Quiet s { s with
        inboundTombstones := s.inboundTombstones.add (generationPeerKey state.uid peerId.id)
          state.uid (answers.clock 2) } :=
      .of_generations_eq ⟨rfl, rfl, rfl⟩ ⟨rfl, rfl⟩ rfl rfl
    apply Performed.after hquiet
    apply writePlatformError_performs
    exact hstate

/-! ## Inbound requests -/

theorem assertEncodedFrame_eq {frame encoded : PeerFrame}
    (h : assertEncodedFrame frame = some encoded) : encoded = frame := by
  unfold assertEncodedFrame at h
  split at h
  · cases h
  · exact (Option.some.inj h).symm

/-- The terminal frame of a dispatch has the id of its request. -/
theorem inboundTerminal_peerId {peerId : OpaquePeerId} {result : InboundDispatchResult}
    {frame : PeerFrame} (h : (inboundTerminal peerId result).1 = some frame) :
    frame.peerId? = some peerId := by
  cases result <;>
  · rw [assertEncodedFrame_eq h]
    rfl

section

variable (hs : s.Coherent options)
include hs

/-- The first completion of a token detaches its entry; others find none. -/
theorem completeInbound_performs (token : InboundExecutionToken)
    (result : InboundDispatchResult) :
    Performed options op s (s.completeInbound answers token result) := by
  unfold completeInbound
  split
  · exact .refl s
  case h_2 peerKey hkey =>
    obtain ⟨entry, hlive, -⟩ := hs.inbound.indexed.names hkey
    obtain ⟨state, hstate, -⟩ := hs.inbound.home hlive
    have hcontains : s.inboundByPeer.contains entry.peerKey = true :=
      contains_iff.mpr ⟨entry, (hs.inbound.keyed hlive).symm ▸ hlive⟩
    have hdetached : (s.detachInbound answers entry).generations.get?
        entry.executionToken.connectionId =
          some { state with inboundActive := state.inboundActive - 1 } := by
      rw [detachInbound, if_pos hcontains]
      rw [updateGeneration_get?, if_pos rfl]
      exact congrArg (Option.map _) hstate
    rw [hlive]
    dsimp only
    rw [hdetached]
    refine .change (.detachedInbound answers hlive (.completed state _ _ _ hstate ?_))
    cases hframe : (inboundTerminal entry.peerId.id result).1 with
    | some frame => exact inboundTerminal_peerId hframe
    | none =>
      rw [encodePlatformError_some entry.peerId.bounded]
      rfl

theorem fireInboundDeadline_performs (token : InboundExecutionToken) :
    Performed options op s (s.fireInboundDeadline answers token) := by
  have hcomplete : Performed options op s (s.completeInbound answers token .deadlineExceeded) :=
    completeInbound_performs hs token .deadlineExceeded
  unfold fireInboundDeadline
  split
  · exact .refl s
  cases hresult : s.completeInbound answers token .deadlineExceeded with
  | error panic | ok result =>
    rw [hresult] at hcomplete
    exact hcomplete

/-- A request within the capacities gets the next token. -/
theorem dispatchInbound_performs {peerId : PeerId}
    (hstate : s.generations.get? connectionId = some state)
    (hpeer : s.inboundByPeer.contains (generationPeerKey state.uid peerId.id) = false)
    (hglobal : s.inboundByPeer.size < options.inboundGlobalCapacity)
    (hactive : state.inboundActive < options.inboundPerGenerationCapacity) (method : String)
    (params : List UInt8) :
    Performed options op s
      (s.dispatchInbound options answers connectionId state peerId method params) := by
  let entry : InboundEntry :=
    { peerKey := generationPeerKey state.uid peerId.id, peerId := peerId
      executionToken := ⟨connectionId, state.generation, state.executionSequence⟩
      deadlineAtMs := u64Saturating (answers.clock 1 + options.inboundTimeoutMs)
      generationUid := state.uid }
  have hfresh : s.inboundByPeer.get? entry.peerKey = none := by
    cases hget : s.inboundByPeer.get? entry.peerKey with
    | none => rfl
    | some live =>
      rw [contains_iff.mpr ⟨live, hget⟩] at hpeer
      cases hpeer
  have hstart : Dispatchable options s entry state :=
    ⟨hstate, rfl, rfl, rfl, hfresh, hglobal, hactive⟩
  have hindexed : Performs options op s
      [.dispatch entry.executionToken peerId state.writer method params] (s.indexInbound entry) :=
    .change (.dispatched method params hstart)
  have hcomplete : Performed options op (s.indexInbound entry)
      ((s.indexInbound entry).completeInbound answers entry.executionToken .internalError) :=
    completeInbound_performs (hindexed.coherent hs) _ _
  unfold dispatchInbound
  dsimp only
  split
  · exact hindexed
  cases hresult : (s.indexInbound entry).completeInbound answers entry.executionToken
      .internalError with
  | error panic =>
    rw [hresult] at hcomplete
    exact absurd hcomplete id
  | ok result =>
    rw [hresult] at hcomplete
    exact hindexed.trans hcomplete

theorem handleInboundRequest_performs (connectionId : String)
    (peerId : PeerId) (method : String) (params : Option (List UInt8)) :
    Performed options op s
      (s.handleInboundRequest options answers connectionId peerId method params) := by
  unfold handleInboundRequest
  split
  · exact .refl s
  case h_2 state hstate =>
    dsimp only
    split
    · exact .refl s
    case isFalse hfresh =>
    split
    · exact .refl s
    split
    · exact predispatchError_performs _ _ _
    split
    · exact predispatchError_performs _ _ _
    case isFalse hroom =>
      cases params with
      | none => exact predispatchError_performs _ _ _
      | some params =>
        have hroom := not_or.mp hroom
        rw [Bool.or_eq_true, not_or] at hfresh
        exact dispatchInbound_performs hs hstate (Bool.eq_false_iff.mpr hfresh.1)
          (not_le.mp hroom.1) (not_le.mp hroom.2) method params

theorem handlePeerText_performs (connectionId : String)
    (text : PeerText) :
    Performed options op s (s.handlePeerText options answers connectionId text) := by
  have hswept := hs.quiet (Quiet.sweep answers)
  apply Performed.after (.sweep answers)
  unfold handlePeerText
  dsimp only
  split
  · exact .refl _
  case isFalse hattached =>
    have hcontains : (s.sweep answers).generations.contains connectionId = true := by
      simpa using hattached
    obtain ⟨state, hstate⟩ := contains_iff.mp hcontains
    cases text with
    | request id method params => exact handleInboundRequest_performs hswept _ _ _ _
    | response id terminal => exact handlePeerResponse_performs hswept _ _ _
    | notification method =>
      refine .quiet (.of_generations_eq ⟨rfl, rfl, rfl⟩ ⟨rfl, rfl⟩ rfl rfl) ?_
      intro effect hmem
      obtain rfl := mem_singleton.mp hmem
      exact .observe _ _
    | invalidParams id =>
      cases id with
      | none => exact writePlatformError_performs hstate _ _
      | some id => exact predispatchError_performs _ _ _
    | platformError kind => exact writePlatformError_performs hstate _ _
    | close code => exact .refl _

end

/-! ## Every operation -/

theorem performed_map {ρ : Type} {result : Except BrokerPanic (BrokerInner × List BrokerEffect × ρ)}
    (h : Performed options op s result) :
    ∃ t effects, result.map (fun result => (result.1, result.2.1)) = .ok (t, effects) ∧
      Performs options op s effects t := by
  cases result with
  | error panic => exact absurd h id
  | ok result => exact ⟨result.1, result.2.1, rfl, h⟩

variable (answers) in
/-- No operation on coherent tables panics, and each is a sequence of changes. -/
theorem apply_performs (hs : s.Coherent options) (op : BrokerOp) :
    ∃ t effects, s.apply options answers op = .ok (t, effects) ∧
      Performs options op s effects t := by
  cases op with
  | attachGeneration handle writer generation =>
    exact ⟨_, _, rfl, attachGeneration_performs handle writer generation⟩
  | handleRuntimeRequest connectionId source request =>
    exact performed_map (handleRuntimeRequest_performs connectionId source request)
  | handleRuntimeCancel source requestId =>
    exact performed_map (handleRuntimeCancel_performs hs source requestId)
  | handleRuntimeDisconnect source => exact ⟨_, _, rfl, handleRuntimeDisconnect_performs hs source⟩
  | runtimeDisconnectedSender sender =>
    exact ⟨_, _, rfl, runtimeGone_performs hs fun entry hsame =>
      ⟨rfl, .inr (.inr (congrArg _ (of_decide_eq_true hsame).symm))⟩⟩
  | handlePeerText connectionId text =>
    exact performed_map (handlePeerText_performs hs connectionId text)
  | handlePeerDisconnect connectionId =>
    exact ⟨_, _, rfl, handlePeerDisconnect_performs hs connectionId⟩
  | completeInbound token result => exact performed_map (completeInbound_performs hs token result)
  | fireDeadline connectionId requestId =>
    exact performed_map (fireDeadline_performs hs connectionId requestId)
  | fireInboundDeadline token => exact performed_map (fireInboundDeadline_performs hs token)
  | closeGeneration connectionId protocolOutcome =>
    exact ⟨_, _, rfl, closeGeneration_performs hs connectionId protocolOutcome⟩

end BrokerInner
end Skiff.WebSocket
