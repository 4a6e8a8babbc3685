import Skiff.WebSocket.BrokerOperations

/-!
# What a change does to one request

An outbound request is known by its peer key, an inbound one by its execution token. A
change leaves a request alone, starts it or ends it, and what ends is over. A peer key is
drawn from the number of its generation, so that it is never drawn twice.
-/

namespace Skiff.WebSocket

open BrokerInner List Option

/-! ## Lives -/

/-- What happened to an outbound request that is not live. -/
inductive OutboundOver : List OutboundMark → Prop
  | unused : OutboundOver []
  | answered (entry : OutboundEntry) (written : Bool) (response : BrokerRuntimeResponse)
      (named : response.requestId = entry.requestId) :
      OutboundOver [.requested entry written, .answered entry.source response]
  | withdrawn (entry : OutboundEntry) (source : BrokerRuntimeSource)
      (own : source.key entry.requestId = entry.source.key entry.requestId) :
      OutboundOver [.requested entry true, .withdrawn entry source]
  | unsent (source : BrokerRuntimeSource) (response : BrokerRuntimeResponse) :
      OutboundOver [.answered source response]

/-- What happened to an inbound request that is not live. -/
inductive InboundOver : List InboundMark → Prop
  | unused : InboundOver []
  | completed (peerId : OpaquePeerId) (writer : Nat) (frame : PeerFrame) (abort : Bool)
      (named : frame.peerId? = some peerId) :
      InboundOver (.dispatched peerId writer ::
        ((if abort then [.cancelled] else []) ++ [.terminal writer frame]))
  | aborted (peerId : OpaquePeerId) (writer : Nat) :
      InboundOver [.dispatched peerId writer, .cancelled]

/-! ## Keys -/

/-- A list is read up to its first separator. -/
theorem append_separator_injective {α : Type} {separator : α} {xs ys us vs : List α}
    (hxs : separator ∉ xs) (hys : separator ∉ ys)
    (h : xs ++ separator :: us = ys ++ separator :: vs) : xs = ys ∧ us = vs := by
  obtain ⟨more, rfl, hmore⟩ | ⟨more, rfl, hmore⟩ := append_eq_append_iff.mp h
  · cases more with
    | nil => exact ⟨(append_nil xs).symm, (cons.inj hmore).2⟩
    | cons first rest =>
      obtain rfl := (cons.inj hmore).1
      exact absurd (mem_append_right _ (.head _)) hys
  cases more with
  | nil => exact ⟨append_nil ys, (cons.inj hmore).2.symm⟩
  | cons first rest =>
    obtain rfl := (cons.inj hmore).1
    exact absurd (mem_append_right _ (.head _)) hxs

theorem colon_notMem_toString (n : Nat) : ':' ∉ (toString n).toList := by
  intro hmem
  cases isDigit_of_mem_toString hmem

/-- The number before the colon and the id after it can be read off a key. -/
theorem generationPeerKey_injective {m n : Nat} {id other : OpaquePeerId}
    (h : generationPeerKey m id = generationPeerKey n other) :
    m = n ∧ id.canonicalKey = other.canonicalKey := by
  have hlist := congrArg String.toList h
  rw [generationPeerKey, generationPeerKey, String.toList_append, String.toList_append,
    String.toList_append, String.toList_append, append_assoc, append_assoc] at hlist
  change (toString m).toList ++ ':' :: id.canonicalKey.toList =
    (toString n).toList ++ ':' :: other.canonicalKey.toList at hlist
  obtain ⟨hnumber, hid⟩ :=
    append_separator_injective (colon_notMem_toString m) (colon_notMem_toString n) hlist
  exact ⟨toString_injective (String.toList_inj.mp hnumber), String.toList_inj.mp hid⟩

theorem outboundPeerId_injective {socketGeneration : String} {m n : Nat}
    (h : (outboundPeerId socketGeneration m).canonicalKey =
      (outboundPeerId socketGeneration n).canonicalKey) : m = n := by
  apply toString_injective
  have hlist := congrArg String.toList h
  simp only [outboundPeerId, OpaquePeerId.canonicalKey, String.toList_append,
    append_cancel_left_eq] at hlist
  exact String.toList_inj.mp hlist

namespace BrokerInner

variable {options : WebSocketRequestBrokerOptions} {answers : BrokerAnswers} {op : BrokerOp}
  {s t u : BrokerInner} {effects : List BrokerEffect}

/-! ## What a change does to the generations -/

/-- A generation goes on. -/
structure Carried (state state' : GenerationState) : Prop where
  handle : state'.handle = state.handle
  generation : state'.generation = state.generation
  uid : state'.uid = state.uid
  writer : state'.writer = state.writer
  sequence : state.sequence ≤ state'.sequence
  executionSequence : state.executionSequence ≤ state'.executionSequence

/-- Every generation was there before. -/
def Carries (s t : BrokerInner) : Prop :=
  ∀ c state', t.generations.get? c = some state' →
    ∃ state, s.generations.get? c = some state ∧ Carried state state'

theorem Carried.refl (state : GenerationState) : Carried state state :=
  ⟨rfl, rfl, rfl, rfl, le_refl _, le_refl _⟩

theorem Carried.trans {first second third : GenerationState} (h : Carried first second)
    (h' : Carried second third) : Carried first third :=
  ⟨h'.handle.trans h.handle, h'.generation.trans h.generation, h'.uid.trans h.uid,
    h'.writer.trans h.writer, le_trans h.sequence h'.sequence,
    le_trans h.executionSequence h'.executionSequence⟩

theorem Carries.trans (h : Carries s t) (h' : Carries t u) : Carries s u := by
  intro c state'' hget
  obtain ⟨state', hmid, hsecond⟩ := h' _ _ hget
  obtain ⟨state, hold, hfirst⟩ := h _ _ hmid
  exact ⟨state, hold, hfirst.trans hsecond⟩

theorem Quiet.carries (h : Quiet s t) : Carries s t := by
  intro c state' hget
  obtain ⟨state, isOpen, sequence, hold, hle, rfl⟩ := h.back hget
  exact ⟨state, hold, ⟨rfl, rfl, rfl, rfl, hle, le_refl _⟩⟩

theorem carries_updateGeneration {c : String} {f : GenerationState → GenerationState}
    (hf : ∀ state, Carried state (f state)) : Carries s (s.updateGeneration c f) := by
  intro j state' hget
  obtain ⟨state, hold, ⟨-, rfl⟩ | ⟨-, rfl⟩⟩ := updateGeneration_cases hget
  · exact ⟨state, hold, hf state⟩
  · exact ⟨state', hold, .refl state'⟩

theorem carries_drawSequence (c : String) : Carries s (s.drawSequence c) :=
  carries_updateGeneration fun _ => ⟨rfl, rfl, rfl, rfl, Nat.le_succ _, le_refl _⟩

theorem carries_indexOutbound (entry : OutboundEntry) : Carries s (s.indexOutbound entry) := by
  intro c state' hget
  obtain ⟨state, hold, ⟨-, rfl⟩ | ⟨-, rfl⟩⟩ := updateGeneration_cases hget
  · exact ⟨state, hold, ⟨rfl, rfl, rfl, rfl, le_refl _, le_refl _⟩⟩
  · exact ⟨state', hold, .refl state'⟩

variable (entry : InboundEntry)

theorem carries_indexInbound : Carries s (s.indexInbound entry) := by
  intro c state' hget
  obtain ⟨state, hold, ⟨-, rfl⟩ | ⟨-, rfl⟩⟩ := updateGeneration_cases hget
  · exact ⟨state, hold, ⟨rfl, rfl, rfl, rfl, le_refl _, Nat.le_succ _⟩⟩
  · exact ⟨state', hold, .refl state'⟩

theorem carries_detachOutbound (entry : OutboundEntry) :
    Carries s (s.detachOutbound answers entry) := by
  intro c state' hget
  rw [detachOutbound] at hget
  split at hget
  · obtain ⟨state, hold, ⟨-, rfl⟩ | ⟨-, rfl⟩⟩ := updateGeneration_cases hget
    · exact ⟨state, hold, ⟨rfl, rfl, rfl, rfl, le_refl _, le_refl _⟩⟩
    · exact ⟨state', hold, .refl state'⟩
  · exact ⟨state', hget, .refl state'⟩

theorem carries_detachInbound : Carries s (s.detachInbound answers entry) := by
  intro c state' hget
  rw [detachInbound] at hget
  split at hget
  · obtain ⟨state, hold, ⟨-, rfl⟩ | ⟨-, rfl⟩⟩ := updateGeneration_cases hget
    · exact ⟨state, hold, ⟨rfl, rfl, rfl, rfl, le_refl _, le_refl _⟩⟩
    · exact ⟨state', hold, .refl state'⟩
  · exact ⟨state', hget, .refl state'⟩

/-- After a change every generation was there before, or it is the one that was attached. -/
theorem Change.generations (h : Change options op s effects t) {c : String}
    {state' : GenerationState} (hget : t.generations.get? c = some state') :
    (∃ state, s.generations.get? c = some state ∧ Carried state state') ∨
      (state'.uid = s.nextGenerationUid ∧ effects = [.attached c state'.generation]) := by
  cases h with
  | quiet hkept _ => exact .inl (hkept.carries _ _ hget)
  | @attached handle writer generation hnew =>
    have hcontains : ¬ s.generations.contains handle.connectionId = true := by
      intro hcontains
      obtain ⟨state, hstate⟩ := OrdMap.contains_iff.mp hcontains
      rw [hnew] at hstate
      cases hstate
    rw [attachGeneration, if_neg hcontains] at hget
    change (s.generations.insert handle.connectionId _).get? c = some state' at hget
    obtain ⟨heq, rfl⟩ | ⟨-, hget⟩ := OrdMap.get?_insert_eq_some.mp hget
    · exact .inr ⟨rfl, heq ▸ rfl⟩
    · exact .inl ⟨state', hget, .refl state'⟩
  | closed _ _ _ hgenerations _ _ =>
    rw [hgenerations] at hget
    obtain ⟨-, hget⟩ := OrdMap.get?_erase_eq_some.mp hget
    exact .inl ⟨state', hget, .refl state'⟩
  | requested _ _ _ =>
    exact .inl ((carries_drawSequence _).trans (carries_indexOutbound _) _ _ hget)
  | failed _ _ _ _ _ _ _ =>
    exact .inl (((carries_drawSequence _).trans (carries_indexOutbound _)).trans
      (carries_detachOutbound _) _ _ hget)
  | detachedOutbound _ _ _ => exact .inl (carries_detachOutbound _ _ _ hget)
  | dispatched _ _ _ => exact .inl (carries_indexInbound _ _ _ hget)
  | detachedInbound _ _ _ => exact .inl (carries_detachInbound _ _ _ hget)

theorem Change.next_le (h : Change options op s effects t) :
    s.nextGenerationUid ≤ t.nextGenerationUid := by
  cases h with
  | quiet hkept _ => exact hkept.next.ge
  | attached writer generation _ =>
    rw [attachGeneration]
    split
    · exact le_refl _
    · exact Nat.le_succ _
  | closed _ _ hnext _ _ _ => exact hnext.ge
  | requested _ _ _ => rw [indexOutbound_nextGenerationUid, drawSequence_nextGenerationUid]
  | failed _ _ _ _ _ _ _ =>
    rw [detachOutbound_nextGenerationUid, indexOutbound_nextGenerationUid,
      drawSequence_nextGenerationUid]
  | detachedOutbound _ _ _ => exact (detachOutbound_nextGenerationUid _).ge
  | dispatched _ _ _ => exact (indexInbound_nextGenerationUid _).ge
  | detachedInbound _ _ _ => exact (detachInbound_nextGenerationUid _).ge

/-! ## Keys that are drawn -/

/-- The key of a generation's next request. -/
def Fresh (s : BrokerInner) (k : String) : Prop :=
  ∃ c state, s.generations.get? c = some state ∧
    k = generationPeerKey state.uid (outboundPeerId state.handle.socketGeneration state.sequence)

/-- A key that was drawn. -/
def Spent (s : BrokerInner) (k : String) : Prop :=
  ∃ uid socketGeneration sequence,
    k = generationPeerKey uid (outboundPeerId socketGeneration sequence) ∧
    uid < s.nextGenerationUid ∧ ∀ c state, s.generations.get? c = some state → state.uid = uid →
      state.handle.socketGeneration = socketGeneration ∧ sequence < state.sequence

theorem Spent.not_fresh {k : String} (h : Spent s k) : ¬ Fresh s k := by
  rintro ⟨c, state, hget, hkey⟩
  obtain ⟨uid, socketGeneration, sequence, rfl, -, hlater⟩ := h
  obtain ⟨rfl, hid⟩ := generationPeerKey_injective hkey
  obtain ⟨rfl, hlt⟩ := hlater c state hget rfl
  have heq := outboundPeerId_injective hid
  omega

theorem Spent.carries {k : String} (h : Spent s k) (hcarries : Carries s t)
    (hnext : s.nextGenerationUid ≤ t.nextGenerationUid) : Spent t k := by
  obtain ⟨uid, socketGeneration, sequence, hkey, hlt, hlater⟩ := h
  refine ⟨uid, socketGeneration, sequence, hkey, by omega, ?_⟩
  intro c state' hget huid
  obtain ⟨state, hold, hcarried⟩ := hcarries c state' hget
  obtain ⟨hsocket, hsequence⟩ := hlater c state hold (hcarried.uid.symm.trans huid)
  exact ⟨hcarried.handle ▸ hsocket, by have hle := hcarried.sequence; omega⟩

theorem Spent.change {k : String} (h : Spent s k) (hchange : Change options op s effects t) :
    Spent t k := by
  obtain ⟨uid, socketGeneration, sequence, hkey, hlt, hlater⟩ := h
  have hnext := hchange.next_le
  refine ⟨uid, socketGeneration, sequence, hkey, by omega, ?_⟩
  intro c state' hget huid
  obtain ⟨state, hold, hcarried⟩ | ⟨hnew, -⟩ := hchange.generations hget
  · obtain ⟨hsocket, hsequence⟩ := hlater c state hold (hcarried.uid.symm.trans huid)
    exact ⟨hcarried.handle ▸ hsocket, by have hle := hcarried.sequence; omega⟩
  · omega

variable {state : GenerationState}

/-- A request draws a new key. -/
theorem Startable.draws {entry : OutboundEntry}
    (h : Startable options s entry state) (hs : s.Coherent options) :
    Fresh s entry.peerKey ∧ Spent (s.drawSequence entry.connectionId) entry.peerKey := by
  have hquiet : Quiet s (s.drawSequence entry.connectionId) := .drawSequence _
  have hdrawn : (s.drawSequence entry.connectionId).generations.get? entry.connectionId =
      some { state with sequence := state.sequence + 1 } := by
    rw [drawSequence, updateGeneration_some h.attached, if_pos rfl]
  refine ⟨⟨entry.connectionId, state, h.attached, h.key⟩, state.uid,
    state.handle.socketGeneration, state.sequence, h.key, ?_, ?_⟩
  · rw [hquiet.next]
    exact hs.attached.uid_lt h.attached
  intro c other hget huid
  obtain rfl := (hs.quiet hquiet).attached.uid_inj hget hdrawn huid
  obtain rfl := some.inj (hget.symm.trans hdrawn)
  exact ⟨rfl, Nat.lt_succ_self _⟩

/-! ## What a change does to an outbound request -/

/-- What a change can be to one outbound request, with its marks. -/
inductive OutboundMove (s t : BrokerInner) (k : String) : List OutboundMark → Prop
  | idle (same : t.outboundByPeer.get? k = s.outboundByPeer.get? k) : OutboundMove s t k []
  | opened (entry : OutboundEntry) (fresh : Fresh s k) (spent : Spent t k)
      (unknown : s.outboundByPeer.get? k = none) (live : t.outboundByPeer.get? k = some entry) :
      OutboundMove s t k [.requested entry true]
  | failed (marks : List OutboundMark) (fresh : Fresh s k) (spent : Spent t k)
      (unknown : s.outboundByPeer.get? k = none) (gone : t.outboundByPeer.get? k = none)
      (isOver : OutboundOver marks) : OutboundMove s t k marks
  | ended (entry : OutboundEntry) (mark : OutboundMark)
      (live : s.outboundByPeer.get? k = some entry) (gone : t.outboundByPeer.get? k = none)
      (isOver : OutboundOver [.requested entry true, mark]) : OutboundMove s t k [mark]

theorem outboundMarks_silent (k : String) (h : ∀ effect ∈ effects, Silent effect) :
    outboundMarks k effects = [] := by
  apply filterMap_eq_nil_iff.mpr
  intro effect hmem
  cases h effect hmem <;> rfl

theorem inboundMarks_silent (token : InboundExecutionToken)
    (h : ∀ effect ∈ effects, Silent effect) : inboundMarks token effects = [] := by
  apply filterMap_eq_nil_iff.mpr
  intro effect hmem
  cases h effect hmem <;> rfl

variable {entry : InboundEntry}

theorem InboundEnd.outboundMarks (h : InboundEnd s entry effects)
    (k : String) : outboundMarks k effects = [] := by
  cases h with
  | completed state frame written abort _ _ => cases abort <;> rfl
  | aborted => rfl

theorem OutboundEnd.marks {entry : OutboundEntry} {effect : BrokerEffect}
    (h : OutboundEnd op entry effect) : ∃ mark, outboundMarks entry.peerKey [effect] = [mark] ∧
      OutboundOver [.requested entry true, mark] ∧
      (∀ k, k ≠ entry.peerKey → outboundMarks k [effect] = []) ∧
      ∀ token, inboundMarks token [effect] = [] := by
  cases h with
  | answered response hnamed =>
    refine ⟨_, ?_, .answered entry true response hnamed, ?_, fun _ => rfl⟩
    · simp [outboundMarks]
    intro k hne
    simp [outboundMarks, hne.symm]
  | withdrawn source hown _ =>
    refine ⟨_, ?_, .withdrawn entry source hown, ?_, fun _ => rfl⟩
    · simp [outboundMarks]
    intro k hne
    simp [outboundMarks, hne.symm]

theorem indexOutbound_get? (entry : OutboundEntry) (k : String) :
    (s.indexOutbound entry).outboundByPeer.get? k =
      if k = entry.peerKey then some entry else s.outboundByPeer.get? k := by
  rw [indexOutbound, updateGeneration_outboundByPeer]
  exact OrdMap.get?_insert _ _ _ _

theorem Change.outboundMove (hs : s.Coherent options) (h : Change options op s effects t)
    (k : String) : OutboundMove s t k (outboundMarks k effects) := by
  cases h with
  | quiet hkept hsilent =>
    rw [outboundMarks_silent k hsilent]
    exact .idle (by rw [hkept.outboundByPeer])
  | attached writer generation _ =>
    apply OutboundMove.idle
    rw [attachGeneration]
    split <;> rfl
  | closed houtbound _ _ _ _ _ => exact .idle (by rw [houtbound.1])
  | @requested entry state frame hstart _ =>
    obtain ⟨hfresh, hspent⟩ := hstart.draws hs
    have hquiet : Quiet s (s.drawSequence entry.connectionId) := .drawSequence _
    by_cases heq : k = entry.peerKey
    · rw [heq]
      have hmarks : outboundMarks entry.peerKey [.request entry state.writer frame true] =
          [.requested entry true] := by simp [outboundMarks]
      rw [hmarks]
      refine .opened entry hfresh (hspent.carries (carries_indexOutbound _) ?_) hstart.peer
        hstart.live
      exact (indexOutbound_nextGenerationUid _).ge
    have hmarks : outboundMarks k [.request entry state.writer frame true] = [] := by
      simp [outboundMarks, Ne.symm heq]
    rw [hmarks]
    apply OutboundMove.idle
    rw [indexOutbound_get?, if_neg heq, hquiet.outboundByPeer]
  | @failed entry state answers first response hstart _ hunsent hnamed =>
    obtain ⟨hfresh, hspent⟩ := hstart.draws hs
    have hquiet : Quiet s (s.drawSequence entry.connectionId) := .drawSequence _
    have hcontains := OrdMap.contains_iff.mpr ⟨entry, hstart.live⟩
    have hgone : ∀ j live, (((s.drawSequence entry.connectionId).indexOutbound
        entry).detachOutbound answers entry).outboundByPeer.get? j = some live ↔
        s.outboundByPeer.get? j = some live := by
      intro j live
      rw [detachOutbound_get? hcontains, indexOutbound_get?, hquiet.outboundByPeer]
      by_cases hj : j = entry.peerKey
      · simp [hj, hstart.peer]
      · simp [hj]
    by_cases heq : k = entry.peerKey
    · rw [heq]
      refine .failed _ hfresh ?_ hstart.peer ?_ ?_
      · refine hspent.carries ((carries_indexOutbound _).trans (carries_detachOutbound _)) ?_
        rw [detachOutbound_nextGenerationUid, indexOutbound_nextGenerationUid]
      · rw [eq_none_iff_forall_ne_some]
        intro live hget
        rw [hgone, hstart.peer] at hget
        cases hget
      obtain rfl | ⟨frame, rfl⟩ := hunsent
      · simpa [outboundMarks] using OutboundOver.unsent entry.source response
      · simpa [outboundMarks] using OutboundOver.answered entry false response hnamed
    have hmarks : outboundMarks k (first ++ [.respond (some entry.peerKey) entry.source
        response]) = [] := by
      obtain rfl | ⟨frame, rfl⟩ := hunsent <;> simp [outboundMarks, Ne.symm heq]
    rw [hmarks]
    exact .idle (ext (hgone k))
  | @detachedOutbound j entry effect answers hlive hends =>
    obtain ⟨rfl, -⟩ := hs.outbound.keyed hlive
    obtain ⟨mark, hmark, hover, hothers, -⟩ := hends.marks
    have hcontains := OrdMap.contains_iff.mpr ⟨entry, hlive⟩
    by_cases heq : k = entry.peerKey
    · rw [heq, hmark]
      refine .ended entry mark hlive ?_ hover
      rw [eq_none_iff_forall_ne_some]
      intro live hget
      exact ((detachOutbound_get? hcontains).mp hget).1 rfl
    rw [hothers k heq]
    apply OutboundMove.idle
    apply ext
    intro live
    rw [detachOutbound_get? hcontains]
    exact and_iff_right heq
  | dispatched _ _ _ =>
    apply OutboundMove.idle
    rw [indexInbound, updateGeneration_outboundByPeer]
  | detachedInbound answers _ hends =>
    rw [hends.outboundMarks k]
    apply OutboundMove.idle
    rw [detachInbound_outboundByPeer]

/-! ## What a change does to an inbound request -/

/-- The live request of an execution. -/
def Running (s : BrokerInner) (token : InboundExecutionToken) (entry : InboundEntry) : Prop :=
  ∃ k, s.inboundByPeer.get? k = some entry ∧ entry.executionToken = token

/-- What a change can be to one inbound request, with its marks. -/
inductive InboundMove (s t : BrokerInner) (token : InboundExecutionToken) :
    List InboundMark → Prop
  | idle (same : ∀ entry, t.Running token entry ↔ s.Running token entry) :
      InboundMove s t token []
  | dispatched (entry : InboundEntry) (state : GenerationState)
      (unknown : ∀ other, ¬ s.Running token other)
      (live : ∀ other, t.Running token other ↔ other = entry)
      (attached : s.generations.get? token.connectionId = some state)
      (generation : state.generation = token.socketGeneration)
      (sequence : state.executionSequence = token.sequence)
      (spent : ∀ state', t.generations.get? token.connectionId = some state' →
        state'.writer = state.writer ∧ token.sequence < state'.executionSequence) :
      InboundMove s t token [.dispatched entry.peerId.id state.writer]
  | ended (entry : InboundEntry) (state : GenerationState) (marks : List InboundMark)
      (live : s.Running token entry) (gone : ∀ other, ¬ t.Running token other)
      (attached : s.generations.get? token.connectionId = some state)
      (isOver : InboundOver (.dispatched entry.peerId.id state.writer :: marks)) :
      InboundMove s t token marks

variable {token : InboundExecutionToken}

theorem InboundMove.same_table
    (h : t.inboundByPeer = s.inboundByPeer) : InboundMove s t token [] := by
  apply InboundMove.idle
  intro entry
  unfold Running
  rw [h]

theorem InboundEnd.marks (h : InboundEnd s entry effects)
    (hstate : s.generations.get? entry.executionToken.connectionId = some state) :
    InboundOver (.dispatched entry.peerId.id state.writer ::
      inboundMarks entry.executionToken effects) ∧
    ∀ token, token ≠ entry.executionToken → inboundMarks token effects = [] := by
  cases h with
  | completed other frame written abort hother hnamed =>
    obtain rfl := some.inj (hstate.symm.trans hother)
    have hover := InboundOver.completed entry.peerId.id state.writer frame abort hnamed
    constructor
    · cases abort <;> simpa [inboundMarks] using hover
    intro token hne
    cases abort <;> simp [inboundMarks, hne.symm]
  | aborted =>
    constructor
    · simpa [inboundMarks] using InboundOver.aborted entry.peerId.id state.writer
    intro token hne
    simp [inboundMarks, hne.symm]

theorem Coherent.running_unique (hs : s.Coherent options)
    {entry other : InboundEntry} (h : s.Running token entry) (h' : s.Running token other) :
    entry = other := by
  obtain ⟨k, hget, rfl⟩ := h
  obtain ⟨k', hget', htoken⟩ := h'
  have hfound := hs.inbound.indexed.found hget
  have hfound' := hs.inbound.indexed.found hget'
  rw [htoken, hfound] at hfound'
  cases hfound'
  exact some.inj (hget.symm.trans hget')

theorem indexInbound_get? (k : String) :
    (s.indexInbound entry).inboundByPeer.get? k =
      if k = entry.peerKey then some entry else s.inboundByPeer.get? k := by
  rw [indexInbound, updateGeneration_inboundByPeer]
  exact OrdMap.get?_insert _ _ _ _

theorem Dispatchable.move
    (h : Dispatchable options s entry state) (hs : s.Coherent options) (method : String)
    (params : List UInt8) (token : InboundExecutionToken) :
    InboundMove s (s.indexInbound entry) token (inboundMarks token
      [.dispatch entry.executionToken entry.peerId state.writer method params]) := by
  have hunknown : ∀ other, ¬ s.Running entry.executionToken other := by
    rintro other ⟨k, hget, htoken⟩
    obtain ⟨home, hhome, -, -, hlt⟩ := hs.inbound.home hget
    rw [htoken, h.attached] at hhome
    cases hhome
    rw [htoken, h.sequence] at hlt
    exact absurd hlt (lt_irrefl _)
  by_cases heq : token = entry.executionToken
  · have hmarks : inboundMarks entry.executionToken
        [.dispatch entry.executionToken entry.peerId state.writer method params] =
          [.dispatched entry.peerId.id state.writer] := by simp [inboundMarks]
    rw [heq, hmarks]
    refine .dispatched entry state hunknown ?_ h.attached h.generation h.sequence ?_
    · intro other
      constructor
      · rintro ⟨k, hget, htoken⟩
        rw [indexInbound_get?] at hget
        split at hget
        · exact (some.inj hget).symm
        · exact absurd ⟨k, hget, htoken⟩ (hunknown other)
      rintro rfl
      exact ⟨other.peerKey, by rw [indexInbound_get?, if_pos rfl], rfl⟩
    intro state' hget
    obtain ⟨old, hold, ⟨-, rfl⟩ | ⟨hne, -⟩⟩ := updateGeneration_cases hget
    · obtain rfl := some.inj (hold.symm.trans h.attached)
      exact ⟨rfl, h.sequence ▸ Nat.lt_succ_self _⟩
    · exact absurd rfl hne
  have hmarks : inboundMarks token
      [.dispatch entry.executionToken entry.peerId state.writer method params] = [] := by
    simp [inboundMarks, Ne.symm heq]
  rw [hmarks]
  apply InboundMove.idle
  intro other
  constructor
  · rintro ⟨k, hget, htoken⟩
    rw [indexInbound_get?] at hget
    split at hget
    · cases hget
      exact absurd htoken.symm heq
    · exact ⟨k, hget, htoken⟩
  rintro ⟨k, hget, htoken⟩
  refine ⟨k, ?_, htoken⟩
  rw [indexInbound_get?, if_neg]
  · exact hget
  rintro rfl
  rw [h.peer] at hget
  cases hget

theorem Change.inboundMove (hs : s.Coherent options) (h : Change options op s effects t)
    (token : InboundExecutionToken) : InboundMove s t token (inboundMarks token effects) := by
  cases h with
  | quiet hkept hsilent =>
    rw [inboundMarks_silent token hsilent]
    exact .same_table hkept.inboundByPeer
  | attached writer generation _ =>
    apply InboundMove.same_table
    rw [attachGeneration]
    split <;> rfl
  | closed _ hinbound _ _ _ _ => exact .same_table hinbound.1
  | requested _ _ _ =>
    apply InboundMove.same_table
    rw [indexOutbound, updateGeneration_inboundByPeer]
    exact updateGeneration_inboundByPeer _ _
  | @failed entry state answers first response _ _ hunsent _ =>
    have hmarks : inboundMarks token (first ++ [.respond (some entry.peerKey) entry.source
        response]) = [] := by
      obtain rfl | ⟨frame, rfl⟩ := hunsent <;> rfl
    rw [hmarks]
    apply InboundMove.same_table
    rw [detachOutbound_inboundByPeer, indexOutbound, updateGeneration_inboundByPeer]
    exact updateGeneration_inboundByPeer _ _
  | detachedOutbound answers _ hends =>
    obtain ⟨-, -, -, -, hmarks⟩ := hends.marks
    rw [hmarks]
    exact .same_table (detachOutbound_inboundByPeer _)
  | dispatched method params hstart => exact hstart.move hs method params token
  | @detachedInbound k entry effects answers hlive hends =>
    obtain rfl := hs.inbound.keyed hlive
    obtain ⟨state, hstate, -⟩ := hs.inbound.home hlive
    obtain ⟨hover, hothers⟩ := hends.marks hstate
    have hcontains := OrdMap.contains_iff.mpr ⟨entry, hlive⟩
    by_cases heq : token = entry.executionToken
    · rw [heq]
      refine .ended entry state _ ⟨_, hlive, rfl⟩ ?_ hstate hover
      rintro other ⟨j, hget, htoken⟩
      obtain ⟨hne, hold⟩ := (detachInbound_get? hcontains).mp hget
      obtain rfl := hs.running_unique ⟨_, hlive, rfl⟩ ⟨j, hold, htoken⟩
      exact hne (hs.inbound.keyed hold).symm
    rw [hothers token heq]
    apply InboundMove.idle
    intro other
    constructor
    · rintro ⟨j, hget, htoken⟩
      exact ⟨j, ((detachInbound_get? hcontains).mp hget).2, htoken⟩
    rintro ⟨j, hget, htoken⟩
    refine ⟨j, (detachInbound_get? hcontains).mpr ⟨?_, hget⟩, htoken⟩
    rintro rfl
    obtain rfl := some.inj (hget.symm.trans hlive)
    exact heq htoken.symm

end BrokerInner
end Skiff.WebSocket
