import Skiff.WebSocket.BrokerTables

/-!
# What the operations of the broker change

Every operation of the broker is a sequence of changes: a generation comes or goes, an
outbound request goes out or fails, an inbound one is dispatched, an entry is detached for
a reason. `Change` lists them with their effects, `Performs` says that an operation is such
a sequence, in which each request has the marks that its effects give it. No operation on
coherent tables panics.
-/

namespace Skiff.WebSocket

open BrokerEffect List

/-! ## Marks -/

inductive OutboundMark where
  | requested (entry : OutboundEntry) (written : Bool)
  | answered (source : BrokerRuntimeSource) (response : BrokerRuntimeResponse)
  | withdrawn (entry : OutboundEntry) (source : BrokerRuntimeSource)

inductive InboundMark where
  | dispatched (peerId : OpaquePeerId) (writer : Nat)
  | terminal (writer : Nat) (frame : PeerFrame)
  | cancelled
deriving DecidableEq

/-- What concerns the outbound request under a peer key. -/
def outboundMarks (peerKey : String) (effects : List BrokerEffect) : List OutboundMark :=
  effects.filterMap fun
    | .request entry _ _ written =>
      if entry.peerKey = peerKey then some (.requested entry written) else none
    | .respond (some key) source response =>
      if key = peerKey then some (.answered source response) else none
    | .withdrawn entry source =>
      if entry.peerKey = peerKey then some (.withdrawn entry source) else none
    | _ => none

/-- What concerns the inbound request of an execution. -/
def inboundMarks (token : InboundExecutionToken) (effects : List BrokerEffect) : List InboundMark :=
  effects.filterMap fun
    | .dispatch other peerId writer _ _ =>
      if other = token then some (.dispatched peerId.id writer) else none
    | .terminal other writer frame _ =>
      if other = token then some (.terminal writer frame) else none
    | .cancel other => if other = token then some .cancelled else none
    | _ => none

/-- The connection generations that were attached. -/
def attachedPairs (effects : List BrokerEffect) : List (String × Nat) :=
  effects.filterMap fun
    | .attached connectionId generation => some (connectionId, generation)
    | _ => none

/-- Two lists of effects between which no request and no generation can tell. -/
structure SameMarks (effects others : List BrokerEffect) : Prop where
  outbound : ∀ peerKey, outboundMarks peerKey effects = outboundMarks peerKey others
  inbound : ∀ token, inboundMarks token effects = inboundMarks token others
  attached : attachedPairs effects = attachedPairs others

section Marks

variable {effects others first second : List BrokerEffect}

@[simp] theorem outboundMarks_append (peerKey : String) :
    outboundMarks peerKey (effects ++ others) =
      outboundMarks peerKey effects ++ outboundMarks peerKey others :=
  filterMap_append

@[simp] theorem inboundMarks_append (token : InboundExecutionToken) :
    inboundMarks token (effects ++ others) =
      inboundMarks token effects ++ inboundMarks token others :=
  filterMap_append

@[simp] theorem attachedPairs_append :
    attachedPairs (effects ++ others) = attachedPairs effects ++ attachedPairs others :=
  filterMap_append

theorem SameMarks.refl (effects : List BrokerEffect) : SameMarks effects effects :=
  ⟨fun _ => rfl, fun _ => rfl, rfl⟩

theorem SameMarks.trans {effects others more : List BrokerEffect} (h : SameMarks effects others)
    (h' : SameMarks others more) : SameMarks effects more :=
  ⟨fun peerKey => (h.outbound peerKey).trans (h'.outbound peerKey),
    fun token => (h.inbound token).trans (h'.inbound token), h.attached.trans h'.attached⟩

theorem SameMarks.append (h : SameMarks effects others) (h' : SameMarks first second) :
    SameMarks (effects ++ first) (others ++ second) := by
  refine ⟨?_, ?_, ?_⟩
  · intro peerKey
    rw [outboundMarks_append, outboundMarks_append, h.outbound, h'.outbound]
  · intro token
    rw [inboundMarks_append, inboundMarks_append, h.inbound, h'.inbound]
  · rw [attachedPairs_append, attachedPairs_append, h.attached, h'.attached]

/-- Cancelled executions and answers are effects on different requests. -/
theorem SameMarks.cancels_responds (inbound : List InboundEntry) (outbound : List OutboundEntry)
    (answer : OutboundEntry → BrokerRuntimeResponse) :
    SameMarks
      ((outbound.map fun entry => respond (some entry.peerKey) entry.source
        (answer entry)) ++ inbound.map fun entry => cancel entry.executionToken)
      ((inbound.map fun entry => cancel entry.executionToken) ++
        outbound.map fun entry => respond (some entry.peerKey) entry.source (answer entry)) := by
  have hcancel : ∀ peerKey, outboundMarks peerKey
      (inbound.map fun entry => cancel entry.executionToken) = [] := by
    intro peerKey
    simp [outboundMarks, filterMap_map]
  have hrespond : ∀ token, inboundMarks token
      (outbound.map fun entry => respond (some entry.peerKey) entry.source
        (answer entry)) = [] := by
    intro token
    simp [inboundMarks, filterMap_map]
  refine ⟨?_, ?_, ?_⟩
  · intro peerKey
    rw [outboundMarks_append, outboundMarks_append, hcancel, append_nil, nil_append]
  · intro token
    rw [inboundMarks_append, inboundMarks_append, hrespond, append_nil, nil_append]
  · simp [attachedPairs, filterMap_map]

end Marks

namespace BrokerInner

variable {options : WebSocketRequestBrokerOptions} {answers : BrokerAnswers}
  {op : BrokerOp} {s t u : BrokerInner} {effects others : List BrokerEffect}

/-! ## Changes -/

/-- An effect on no request. -/
inductive Silent : BrokerEffect → Prop
  | refused (source response) : Silent (.respond none source response)
  | violation (source reason) : Silent (.violation source reason)
  | platformError (writer frame written) : Silent (.platformError writer frame written)
  | observe (connectionId method) : Silent (.observe connectionId method)

/-- The number of the next outbound request is drawn. -/
def drawSequence (s : BrokerInner) (connectionId : String) : BrokerInner :=
  s.updateGeneration connectionId fun state => { state with sequence := state.sequence + 1 }

/-- A new entry that the checks of a request let through. -/
structure Startable (options : WebSocketRequestBrokerOptions) (s : BrokerInner)
    (entry : OutboundEntry) (state : GenerationState) : Prop where
  attached : s.generations.get? entry.connectionId = some state
  uid : state.uid = entry.generationUid
  key : entry.peerKey =
    generationPeerKey state.uid (outboundPeerId state.handle.socketGeneration state.sequence)
  peer : s.outboundByPeer.get? entry.peerKey = none
  runtime : s.outboundByRuntime.get? entry.runtimeKey = none
  source : entry.runtimeKey = entry.source.key entry.requestId
  global : s.outboundByPeer.size < options.outboundGlobalCapacity
  active : state.outboundActive < options.outboundPerGenerationCapacity

/-- A new inbound entry with the next token of its generation. -/
structure Dispatchable (options : WebSocketRequestBrokerOptions) (s : BrokerInner)
    (entry : InboundEntry) (state : GenerationState) : Prop where
  attached : s.generations.get? entry.executionToken.connectionId = some state
  uid : state.uid = entry.generationUid
  generation : state.generation = entry.executionToken.socketGeneration
  sequence : state.executionSequence = entry.executionToken.sequence
  peer : s.inboundByPeer.get? entry.peerKey = none
  global : s.inboundByPeer.size < options.inboundGlobalCapacity
  active : state.inboundActive < options.inboundPerGenerationCapacity

/-- The operation takes back what the source has asked for. -/
def Withdraws (op : BrokerOp) (source : BrokerRuntimeSource) (requestId : String) : Prop :=
  op = .handleRuntimeCancel source requestId ∨ op = .handleRuntimeDisconnect source ∨
    op = .runtimeDisconnectedSender source.sender

/-- An outbound entry goes with an answer to its source, or is withdrawn by it. -/
inductive OutboundEnd (op : BrokerOp) (entry : OutboundEntry) : BrokerEffect → Prop
  | answered (response : BrokerRuntimeResponse) (named : response.requestId = entry.requestId) :
      OutboundEnd op entry (.respond (some entry.peerKey) entry.source response)
  | withdrawn (source : BrokerRuntimeSource)
      (own : source.key entry.requestId = entry.source.key entry.requestId)
      (author : Withdraws op source entry.requestId) :
      OutboundEnd op entry (.withdrawn entry source)

/-- The operation is the request that the entry is for. -/
def RequestedBy (op : BrokerOp) (entry : OutboundEntry) : Prop :=
  ∃ request, op = .handleRuntimeRequest entry.connectionId entry.source request ∧
    request.requestId = entry.requestId

/-- An inbound entry goes with a terminal frame to its generation, or without one. -/
inductive InboundEnd (s : BrokerInner) (entry : InboundEntry) : List BrokerEffect → Prop
  | completed (state frame written) (abort : Bool)
      (attached : s.generations.get? entry.executionToken.connectionId = some state)
      (named : frame.peerId? = some entry.peerId.id) :
      InboundEnd s entry ((if abort then [.cancel entry.executionToken] else []) ++
        [.terminal entry.executionToken state.writer frame written])
  | aborted : InboundEnd s entry [.cancel entry.executionToken]

/-- What an operation may do in one go. -/
inductive Change (options : WebSocketRequestBrokerOptions) (op : BrokerOp) :
    BrokerInner → List BrokerEffect → BrokerInner → Prop
  | quiet {s t : BrokerInner} {effects : List BrokerEffect} (kept : Quiet s t)
      (silent : ∀ effect ∈ effects, Silent effect) : Change options op s effects t
  | attached {s : BrokerInner} {handle : BrokerConnectionGeneration} (writer generation : Nat)
      (isNew : s.generations.get? handle.connectionId = none) :
      Change options op s [.attached handle.connectionId generation]
        (s.attachGeneration handle writer generation).1
  | closed {s t : BrokerInner} {c : String}
      (outbound : t.outboundByPeer = s.outboundByPeer ∧
        t.outboundByRuntime = s.outboundByRuntime ∧
        t.outboundByGenerationRequest = s.outboundByGenerationRequest)
      (inbound : t.inboundByPeer = s.inboundByPeer ∧ t.inboundByToken = s.inboundByToken)
      (next : t.nextGenerationUid = s.nextGenerationUid)
      (generations : t.generations = s.generations.erase c)
      (noOutbound : ∀ k entry, s.outboundByPeer.get? k = some entry → entry.connectionId ≠ c)
      (noInbound : ∀ k entry, s.inboundByPeer.get? k = some entry →
        entry.executionToken.connectionId ≠ c) :
      Change options op s [] t
  | requested {s : BrokerInner} {entry : OutboundEntry} {state : GenerationState}
      (frame : PeerFrame) (start : Startable options s entry state)
      (author : RequestedBy op entry) :
      Change options op s [.request entry state.writer frame true]
        ((s.drawSequence entry.connectionId).indexOutbound entry)
  | failed {s : BrokerInner} {entry : OutboundEntry} {state : GenerationState}
      (answers : BrokerAnswers) (effects : List BrokerEffect) (response : BrokerRuntimeResponse)
      (start : Startable options s entry state) (author : RequestedBy op entry)
      (unsent : effects = [] ∨ ∃ frame, effects = [.request entry state.writer frame false])
      (named : response.requestId = entry.requestId) :
      Change options op s (effects ++ [.respond (some entry.peerKey) entry.source response])
        (((s.drawSequence entry.connectionId).indexOutbound entry).detachOutbound answers entry)
  | detachedOutbound {s : BrokerInner} {k : String} {entry : OutboundEntry} {effect : BrokerEffect}
      (answers : BrokerAnswers) (live : s.outboundByPeer.get? k = some entry)
      (ends : OutboundEnd op entry effect) :
      Change options op s [effect] (s.detachOutbound answers entry)
  | dispatched {s : BrokerInner} {entry : InboundEntry} {state : GenerationState}
      (method : String) (params : List UInt8) (start : Dispatchable options s entry state) :
      Change options op s [.dispatch entry.executionToken entry.peerId state.writer method params]
        (s.indexInbound entry)
  | detachedInbound {s : BrokerInner} {k : String} {entry : InboundEntry}
      {effects : List BrokerEffect} (answers : BrokerAnswers)
      (live : s.inboundByPeer.get? k = some entry)
      (ends : InboundEnd s entry effects) :
      Change options op s effects (s.detachInbound answers entry)

theorem Quiet.drawSequence (connectionId : String) : Quiet s (s.drawSequence connectionId) :=
  .updateGeneration fun state => ⟨state.isOpen, state.sequence + 1, Nat.le_succ _, rfl⟩

theorem Startable.coherent {entry : OutboundEntry} {state : GenerationState}
    (h : Startable options s entry state) (hs : s.Coherent options) :
    ((s.drawSequence entry.connectionId).indexOutbound entry).Coherent options := by
  have hquiet : Quiet s (s.drawSequence entry.connectionId) := .drawSequence _
  have hdrawn : (s.drawSequence entry.connectionId).generations.get? entry.connectionId =
      some { state with sequence := state.sequence + 1 } := by
    rw [BrokerInner.drawSequence, updateGeneration_some h.attached, if_pos rfl]
  refine (hs.quiet hquiet).indexOutbound hdrawn h.uid ?_ ?_ h.source ?_ h.active
  · rw [hquiet.outboundByPeer]
    exact h.peer
  · rw [hquiet.outboundByRuntime]
    exact h.runtime
  rw [hquiet.outboundByPeer]
  exact h.global

theorem Startable.live {entry : OutboundEntry} {state : GenerationState}
    (_ : Startable options s entry state) :
    ((s.drawSequence entry.connectionId).indexOutbound entry).outboundByPeer.get? entry.peerKey =
      some entry := by
  rw [BrokerInner.indexOutbound, updateGeneration_outboundByPeer]
  exact OrdMap.get?_insert_self _ _ _

theorem Change.coherent (h : Change options op s effects t) (hs : s.Coherent options) :
    t.Coherent options := by
  cases h with
  | quiet hkept _ => exact hs.quiet hkept
  | attached writer generation _ => exact hs.attachGeneration _ writer generation
  | closed houtbound hinbound hnext hgenerations hempty hempty' =>
    exact hs.removeGeneration houtbound hinbound hnext hgenerations hempty hempty'
  | requested frame hstart _ => exact hstart.coherent hs
  | failed answers first response hstart _ _ _ =>
    exact (hstart.coherent hs).detachOutbound hstart.live
  | detachedOutbound answers hlive _ => exact hs.detachOutbound hlive
  | dispatched method params hstart =>
    exact hs.indexInbound hstart.attached hstart.uid hstart.generation hstart.sequence hstart.peer
      hstart.global hstart.active
  | detachedInbound answers hlive _ => exact hs.detachInbound hlive

/-! ## Sequences of changes -/

/-- A sequence of changes with these effects, as far as any request can tell. -/
def Performs (options : WebSocketRequestBrokerOptions) (op : BrokerOp) (s : BrokerInner)
    (effects : List BrokerEffect) (t : BrokerInner) : Prop :=
  ∃ changes, Run (Change options op) s changes t ∧ SameMarks changes.flatten effects

/-- An operation that did not panic and is a sequence of changes. -/
def Performed (options : WebSocketRequestBrokerOptions) (op : BrokerOp) (s : BrokerInner)
    {ρ : Type} : Except BrokerPanic (BrokerInner × List BrokerEffect × ρ) → Prop
  | .ok (t, effects, _) => Performs options op s effects t
  | .error _ => False

namespace Performs

theorem refl (s : BrokerInner) : Performs options op s [] s := ⟨[], .nil s, .refl _⟩

theorem change (h : Change options op s effects t) : Performs options op s effects t := by
  refine ⟨[effects], .single h, ?_⟩
  rw [flatten_singleton]
  exact .refl _

theorem quiet (kept : Quiet s t) (silent : ∀ effect ∈ effects, Silent effect) :
    Performs options op s effects t :=
  change (.quiet kept silent)

section

variable (h : Performs options op s effects t)
include h

theorem trans (h' : Performs options op t others u) :
    Performs options op s (effects ++ others) u := by
  obtain ⟨changes, hrun, hmarks⟩ := h
  obtain ⟨changes', hrun', hmarks'⟩ := h'
  refine ⟨changes ++ changes', hrun.trans hrun', ?_⟩
  rw [flatten_append]
  exact hmarks.append hmarks'

theorem andThen (h' : Change options op t [] u) : Performs options op s effects u := by
  have htrans := h.trans (change h')
  rwa [append_nil] at htrans

theorem reorder (hmarks : SameMarks effects others) : Performs options op s others t := by
  obtain ⟨changes, hrun, hsame⟩ := h
  exact ⟨changes, hrun, hsame.trans hmarks⟩

theorem coherent (hs : s.Coherent options) : t.Coherent options := by
  obtain ⟨changes, hrun, -⟩ := h
  exact Run.invariant (fun hs hchange => hchange.coherent hs) hrun hs

end

end Performs

/-- What follows a silent change. -/
theorem Performed.after {ρ : Type} (hkept : Quiet s t)
    {result : Except BrokerPanic (BrokerInner × List BrokerEffect × ρ)}
    (h : Performed options op t result) : Performed options op s result := by
  cases result with
  | error panic => exact h
  | ok result =>
    have hsilent : Performs options op s [] t := .quiet hkept fun _ hmem => nomatch hmem
    exact hsilent.trans h

end BrokerInner
end Skiff.WebSocket
