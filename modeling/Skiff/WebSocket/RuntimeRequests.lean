import Skiff.WebSocket.BrokerRuns

/-!
# What becomes of a runtime's request

A request that is let through is indexed under its peer key, its correlation of one runtime
session, and the pair of its connection and its id, which is how its deadline finds it. Two
sessions may use one id on one connection: the second request then takes the deadline of
the first. And the sink that hands a session's requests to the broker
(`router/src/supervisor/sinks.rs`) ends the session where the client's socket fails.
-/

namespace Skiff.WebSocket

open Session (RuntimeSessionEpoch)
open BrokerInner OrdMap

namespace BrokerInner

variable {options : WebSocketRequestBrokerOptions} {answers : BrokerAnswers} {s t : BrokerInner}
  {connectionId requestId k : String} {source : BrokerRuntimeSource} {request : RuntimeRequest}
  {state : GenerationState} {entry : OutboundEntry} {op : BrokerOp} {label : BrokerLabel}
  {labels : List BrokerLabel} {effects : List BrokerEffect}

/-! ## Requests that are let through -/

/-- The entry of a request that is let through. -/
def outboundEntry (answers : BrokerAnswers) (connectionId : String)
    (source : BrokerRuntimeSource) (request : RuntimeRequest) (state : GenerationState) :
    OutboundEntry :=
  { connectionId := connectionId
    peerKey := generationPeerKey state.uid
      (outboundPeerId state.handle.socketGeneration state.sequence)
    runtimeKey := source.key request.requestId, source := source, requestId := request.requestId
    deadlineAtMs := request.deadlineTimeoutMs.map fun timeoutMs =>
      u64Saturating (answers.clock 0 + timeoutMs)
    generationUid := state.uid }

/-- The request gets past every check of `handle_runtime_request`. -/
structure Admits (options : WebSocketRequestBrokerOptions) (answers : BrokerAnswers)
    (s : BrokerInner) (connectionId : String) (source : BrokerRuntimeSource)
    (request : RuntimeRequest) (state : GenerationState) : Prop where
  attached : s.generations.get? connectionId = some state
  isOpen : state.isOpen = true
  owner : request.serviceId = state.handle.serviceId ∧
    request.websocketEntryId = state.handle.websocketEntryId ∧
    request.ownerToken = state.ownerToken
  named : request.requestId ≠ "" ∧ request.method ≠ ""
  timed : request.deadlineTimeoutMs ≠ some 0
  unused : s.outboundByRuntime.contains (source.key request.requestId) = false
  room : s.outboundByPeer.size < options.outboundGlobalCapacity ∧
    state.outboundActive < options.outboundPerGenerationCapacity
  params : request.params.isSome = true
  fresh : s.outboundByPeer.contains
      (outboundEntry answers connectionId source request state).peerKey = false ∧
    (s.sweep answers).outboundTombstones.contains
      (outboundEntry answers connectionId source request state).peerKey (answers.clock 0) = false

/-- The live outbound requests and the index of their ids stay. -/
def SameRequests (s t : BrokerInner) : Prop :=
  t.outboundByPeer = s.outboundByPeer ∧
    t.outboundByGenerationRequest = s.outboundByGenerationRequest

theorem drawSequence_same (s : BrokerInner) (answers : BrokerAnswers) (connectionId : String) :
    SameRequests s ((s.sweep answers).drawSequence connectionId) :=
  ⟨updateGeneration_outboundByPeer _ _, updateGeneration_outboundByGenerationRequest _ _⟩

variable {outcome : RuntimeRequestOutcome}

/-- A request is answered and leaves the tables as they are, or it is let through and sent. -/
theorem handleRuntimeRequest_cases
    (h : s.handleRuntimeRequest options answers connectionId source request =
      .ok (t, effects, outcome)) :
    SameRequests s t ∨ ∃ state params, Admits options answers s connectionId source request state ∧
      ((s.sweep answers).drawSequence connectionId).sendOutbound answers
        (outboundEntry answers connectionId source request state)
        (outboundPeerId state.handle.socketGeneration state.sequence) request.method params =
        .ok (t, effects, outcome) := by
  have hrefused : ∀ {u : BrokerInner} {answer violation outcome'}, SameRequests s u →
      (.ok ((u.refuse source request.requestId answer violation).1,
        (u.refuse source request.requestId answer violation).2, outcome') :
        Except BrokerPanic (BrokerInner × List BrokerEffect × RuntimeRequestOutcome)) =
        .ok (t, effects, outcome) → SameRequests s t := by
    intro u answer violation outcome' hsame heq
    cases heq
    exact hsame
  have hswept : SameRequests s (s.sweep answers) := ⟨rfl, rfl⟩
  have hdrawn := drawSequence_same s answers
  unfold handleRuntimeRequest at h
  dsimp only at h
  split at h
  · exact .inl (hrefused hswept h)
  case h_2 state hstate =>
    split at h
    · exact .inl (hrefused hswept h)
    case isFalse hopen =>
    split at h
    · exact .inl (hrefused hswept h)
    case isFalse howner =>
    split at h
    · exact .inl (hrefused hswept h)
    case isFalse hnamed =>
    split at h
    · exact .inl (hrefused hswept h)
    case isFalse htimed =>
    split at h
    · exact .inl (hrefused hswept h)
    case isFalse hunused =>
    split at h
    · exact .inl (hrefused hswept h)
    case isFalse hroom =>
    split at h
    · exact .inl (hrefused hswept h)
    case h_2 params hparams =>
      unfold startOutbound at h
      dsimp only at h
      split at h
      · exact .inl (hrefused (hdrawn connectionId) h)
      case isFalse hfresh =>
        simp only [not_or, not_not, not_le, Bool.or_eq_true, Bool.not_eq_true,
          Bool.not_eq_true'] at hopen howner hnamed hunused hroom hfresh
        rw [updateGeneration_outboundByPeer] at hfresh
        refine .inr ⟨state, params, ⟨hstate, ?_, howner, hnamed, htimed, hunused, hroom, ?_,
          hfresh.1, ?_⟩, h⟩
        · simpa using hopen
        · rw [hparams]
          rfl
        unfold updateGeneration at hfresh
        split at hfresh <;> exact hfresh.2

/-! ## Deadlines -/

/-- Firing the deadline of a live request answers it, to its own source, and ends it. -/
def DeadlinesSettle (s : BrokerInner) : Prop :=
  ∀ answers k entry, s.outboundByPeer.get? k = some entry → ∃ t,
    s.fireDeadline answers entry.connectionId entry.requestId =
      .ok (t, [.respond (some k) entry.source
        { requestId := entry.requestId, outcome := .deadlineExceeded }], true) ∧
    t.outboundByPeer.get? k = none

/-- The deadline index leads to every live request. -/
def Scheduled (s : BrokerInner) : Prop :=
  ∀ k entry, s.outboundByPeer.get? k = some entry →
    s.outboundByGenerationRequest.get? (toLex (entry.connectionId, entry.requestId)) = some k

theorem Scheduled.settle (h : s.Scheduled) (hs : s.Coherent options) : s.DeadlinesSettle := by
  intro answers k entry hlive
  obtain ⟨rfl, -⟩ := hs.outbound.keyed hlive
  have hcontains : s.outboundByPeer.contains entry.peerKey = true := contains_iff.mpr ⟨entry, hlive⟩
  refine ⟨s.detachOutbound answers entry, ?_, ?_⟩
  · rw [fireDeadline, h _ _ hlive]
    dsimp only
    rw [hlive]
    dsimp only
    rw [settleOutbound, if_pos hcontains]
  cases hget : (s.detachOutbound answers entry).outboundByPeer.get? entry.peerKey with
  | none => rfl
  | some other => exact absurd rfl ((detachOutbound_get? hcontains).mp hget).1

theorem Scheduled.same (h : s.Scheduled) (hsame : SameRequests s t) : t.Scheduled := by
  intro k entry hlive
  rw [hsame.1] at hlive
  rw [hsame.2]
  exact h k entry hlive

/-- Only the index entries of the detached request go. -/
theorem Scheduled.detachOutbound (h : s.Scheduled) (entry : OutboundEntry) :
    (s.detachOutbound answers entry).Scheduled := by
  intro k other hlive
  by_cases hcontains : s.outboundByPeer.contains entry.peerKey = true
  · obtain ⟨hne, hold⟩ := (detachOutbound_get? hcontains).mp hlive
    rw [BrokerInner.detachOutbound, if_pos hcontains, updateGeneration_outboundByGenerationRequest]
    apply get?_filterValues.mpr
    exact ⟨h k other hold, decide_eq_true hne⟩
  rw [BrokerInner.detachOutbound, if_neg hcontains] at hlive ⊢
  exact h k other hlive

section

variable (h : s.Scheduled)
variable (hnew : ∀ k other, s.outboundByPeer.get? k = some other →
    other.connectionId = entry.connectionId → other.requestId ≠ entry.requestId)
include h hnew

/-- A new request takes no other's place in the index when its id is new on its connection. -/
theorem Scheduled.indexOutbound : (s.indexOutbound entry).Scheduled := by
  intro k other hlive
  rw [BrokerInner.indexOutbound, updateGeneration_outboundByPeer, get?_insert] at hlive
  rw [BrokerInner.indexOutbound, updateGeneration_outboundByGenerationRequest]
  split at hlive
  case isTrue hk =>
    cases hlive
    rw [hk]
    exact get?_insert_self _ _ _
  case isFalse hk =>
    rw [get?_insert_of_ne]
    · exact h k other hlive
    intro heq
    obtain ⟨hconnection, hrequest⟩ := Prod.mk.inj (toLex_inj.mp heq)
    exact hnew k other hlive hconnection hrequest

theorem Scheduled.sendOutbound {peerId : OpaquePeerId} {method params : String}
    (hsend : s.sendOutbound answers entry peerId method params = .ok (t, effects, outcome)) :
    t.Scheduled := by
  have hindexed := h.indexOutbound hnew
  unfold BrokerInner.sendOutbound at hsend
  split at hsend
  · cases hsend
  dsimp only at hsend
  split at hsend
  · cases hsend
    exact hindexed
  split at hsend
  · cases hsend
  cases hsend
  exact hindexed.detachOutbound _

end

/-- What other operations do to the requests is detach them. -/
theorem Change.scheduled (h : Change options op s effects t) (hs : s.Scheduled)
    (hop : ∀ entry, ¬ RequestedBy op entry) : t.Scheduled := by
  cases h with
  | quiet hkept _ => exact hs.same ⟨hkept.outboundByPeer, hkept.requests⟩
  | attached writer generation _ =>
    apply hs.same
    unfold attachGeneration
    split <;> exact ⟨rfl, rfl⟩
  | closed houtbound _ _ _ _ _ => exact hs.same ⟨houtbound.1, houtbound.2.2⟩
  | requested _ _ hauthor | failed _ _ _ _ hauthor _ _ => exact absurd hauthor (hop _)
  | detachedOutbound answers _ _ => exact hs.detachOutbound _
  | dispatched _ _ _ =>
    exact hs.same ⟨updateGeneration_outboundByPeer _ _,
      updateGeneration_outboundByGenerationRequest _ _⟩
  | detachedInbound answers _ _ =>
    apply hs.same
    unfold detachInbound
    split
    · exact ⟨updateGeneration_outboundByPeer _ _, updateGeneration_outboundByGenerationRequest _ _⟩
    · exact ⟨rfl, rfl⟩

/-- A request is let through under an id that a live request of its connection has. -/
def Reuses (options : WebSocketRequestBrokerOptions) (answers : BrokerAnswers) (s : BrokerInner)
    (op : BrokerOp) : Prop :=
  ∃ connectionId source request state, op = .handleRuntimeRequest connectionId source request ∧
    Admits options answers s connectionId source request state ∧
    ∃ k other, s.outboundByPeer.get? k = some other ∧ other.connectionId = connectionId ∧
      other.requestId = request.requestId

/-- A step that does not let an id through twice. -/
def DistinctStep (options : WebSocketRequestBrokerOptions) (s : BrokerInner)
    (label : BrokerLabel) (t : BrokerInner) : Prop :=
  ∃ answers, s.apply options answers label.op = .ok (t, label.effects) ∧
    ¬ Reuses options answers s label.op

theorem DistinctStep.scheduled (h : DistinctStep options s label t) (hs : s.Coherent options)
    (hscheduled : s.Scheduled) : t.Scheduled := by
  obtain ⟨answers, happly, hdistinct⟩ := h
  by_cases hop : ∃ entry, RequestedBy label.op entry
  · obtain ⟨entry, request, hop, -⟩ := hop
    rw [hop] at happly hdistinct
    rw [BrokerInner.apply] at happly
    cases hresult :
      s.handleRuntimeRequest options answers entry.connectionId entry.source request with
    | error panic =>
      rw [hresult] at happly
      cases happly
    | ok result =>
    rw [hresult] at happly
    obtain ⟨rfl, -⟩ := Prod.mk.inj (Except.ok.inj happly)
    obtain hsame | ⟨state, params, hadmits, hsend⟩ := handleRuntimeRequest_cases hresult
    · exact hscheduled.same hsame
    have hdrawn := drawSequence_same s answers entry.connectionId
    refine (hscheduled.same hdrawn).sendOutbound ?_ hsend
    intro k other hlive hconnection hrequest
    rw [hdrawn.1] at hlive
    exact hdistinct ⟨_, _, _, state, rfl, hadmits, k, other, hlive, hconnection, hrequest⟩
  obtain ⟨changes, hrun, -⟩ := step_performs hs ⟨answers, happly⟩
  exact hrun.invariant (P := Scheduled)
    (fun hs hchange => hchange.scheduled hs (not_exists.mp hop)) hscheduled

/-- In a run that lets no id through that is live on its connection, every deadline settles its
own request. -/
theorem deadlines_settle (hrun : Run (DistinctStep options) (new options) labels s) :
    s.DeadlinesSettle := by
  have hboth : s.Coherent options ∧ s.Scheduled := by
    refine hrun.invariant (P := fun s => s.Coherent options ∧ s.Scheduled) ?_ ⟨.empty, ?_⟩
    · rintro s label t ⟨hs, hscheduled⟩ hstep
      obtain ⟨answers, happly, -⟩ := id hstep
      exact ⟨(step_performs hs ⟨answers, happly⟩).coherent hs, hstep.scheduled hs hscheduled⟩
    · intro k entry hlive
      cases hlive
  exact hboth.2.settle hboth.1

def smallBroker : WebSocketRequestBrokerOptions := ⟨4, 2, 4, 2, 8, 1000, 500⟩

def attachedLabel : BrokerLabel :=
  ⟨.attachGeneration ⟨"c", "g", "service", "entry"⟩ 7 0, [.attached "c" 0]⟩

/-- A request of a session to the connection `c`. -/
def askedLabel (session : Nat) (requestId id peerKey : String) (deadline : Nat) : BrokerLabel :=
  let source : BrokerRuntimeSource := ⟨⟨"replica", session⟩, "session", session⟩
  ⟨.handleRuntimeRequest "c" source
      ⟨requestId, "service", "entry", 1, "ask", some "1", some deadline⟩,
    [.request { connectionId := "c", peerKey := peerKey, runtimeKey := source.key requestId
                source := source, requestId := requestId, deadlineAtMs := some deadline
                generationUid := 0 } 7 (.request (.string id) "ask" "1") true]⟩

/-- Two requests of one session settle by their deadlines. -/
theorem deadlines_settle_room : ∃ inner,
    Run (DistinctStep smallBroker) (new smallBroker) [attachedLabel,
        askedLabel 1 "first" "g:0" "0:s:g:0" 5, askedLabel 1 "second" "g:1" "0:s:g:1" 8] inner ∧
      inner.outboundByPeer.values.map (·.deadlineAtMs) = [some 5, some 8] ∧
      inner.DeadlinesSettle := by
  obtain ⟨inner, hrun, hlive⟩ : ∃ inner, Run (DistinctStep smallBroker) (new smallBroker)
      [attachedLabel, askedLabel 1 "first" "g:0" "0:s:g:0" 5,
        askedLabel 1 "second" "g:1" "0:s:g:1" 8] inner ∧
      inner.outboundByPeer.values.map (·.deadlineAtMs) = [some 5, some 8] := by
    refine ⟨_, .cons ⟨roomAnswers, by rfl, ?_⟩ (.cons ⟨roomAnswers, by rfl, ?_⟩
      (.cons ⟨roomAnswers, by rfl, ?_⟩ (.nil _))), by rfl⟩
    · rintro ⟨_, _, _, _, hop, -⟩
      cases hop
    · rintro ⟨_, _, _, _, -, -, k, other, hlive, -⟩
      cases hlive
    · rintro ⟨_, _, _, _, hop, -, k, other, hlive, -, hrequest⟩
      cases hop
      obtain rfl := List.mem_singleton.mp (OrdMap.mem_values_iff.mpr ⟨k, hlive⟩)
      exact absurd hrequest (by decide)
  exact ⟨inner, hrun, hlive, deadlines_settle hrun⟩

/-- Two sessions ask under one id on one connection. -/
def sharedLabels : List BrokerLabel :=
  [attachedLabel, askedLabel 1 "r" "g:0" "0:s:g:0" 5, askedLabel 2 "r" "g:1" "0:s:g:1" 5]

/-- The second request takes the deadline of the first. -/
theorem shared_id_loses_deadline : ∃ inner,
    Run (BrokerStep smallBroker) (new smallBroker) sharedLabels inner ∧
      ¬ inner.DeadlinesSettle := by
  refine ⟨_, .cons ⟨roomAnswers, by rfl⟩ (.cons ⟨roomAnswers, by rfl⟩
    (.cons ⟨roomAnswers, by rfl⟩ (.nil _))), ?_⟩
  intro hsettle
  obtain ⟨t, hfire, -⟩ := hsettle roomAnswers "0:s:g:0" _ rfl
  have hother : _ = some 1 := congrArg (fun result => result.toOption.map fun fired =>
    (outboundMarks "0:s:g:0" fired.2.1).length) hfire
  exact absurd hother (by decide)

end BrokerInner

/-! ## The sink of a session's requests -/

inductive TerminalKind where
  | wrongOrder | identityChange | bootstrapWriteFail | ackLoss | bootstrapTimeout
  | capabilitiesTimeout | disconnect | preAuthLimitRejected | malformedFrame
  | unimplementedFamily | ingressBudgetExceeded | outboundBudgetExceeded | registrationRefused

/-- A decoded `connection.request` header. Of what `validate_request` made sure of, this is what
the broker checks again; there is one profile only. -/
structure ConnectionRequestFrameHeader where
  requestId : String
  serviceId : String
  websocketEntryId : String
  connectionId : String
  method : String
  deadlineTimeoutMs : Option Nat
  named : requestId ≠ "" ∧ method ≠ ""
  timed : deadlineTimeoutMs ≠ some 0

namespace ConnectionFrameSink

open BrokerInner

variable (options : WebSocketRequestBrokerOptions) (answers : BrokerAnswers) (s : BrokerInner)
  (runtime : RuntimeSessionEpoch) (respond : Nat) (header : ConnectionRequestFrameHeader)
  (params : Option String)

def runtimeSource : BrokerRuntimeSource :=
  ⟨runtime, runtime.replicaId ++ "#" ++ toString runtime.connectionGeneration, respond⟩

def runtimeRequest : RuntimeRequest :=
  { requestId := header.requestId, serviceId := header.serviceId
    websocketEntryId := header.websocketEntryId
    ownerToken := ((s.generations.get? header.connectionId).map (·.ownerToken)).getD 0
    method := header.method, params := params, deadlineTimeoutMs := header.deadlineTimeoutMs }

/-- What an outcome of the broker is to the session. -/
def terminal : RuntimeRequestOutcome → Except TerminalKind Unit
  | .success | .connectionUnavailable | .resourceLimit => .ok ()
  | .protocolError | .transportUnavailable => .error .malformedFrame

/-- `handle_request`: the broker after it, and whether the session goes on. -/
def handleRequest :
    Except BrokerPanic (BrokerInner × List BrokerEffect × Except TerminalKind Unit) :=
  (s.handleRuntimeRequest options answers header.connectionId (runtimeSource runtime respond)
    (runtimeRequest s header params)).map fun result => (result.1, result.2.1, terminal result.2.2)

variable {options answers s runtime respond header params} {state : GenerationState}

/-- A request that is indexed succeeds where its frame can be made and is taken. -/
theorem sendOutbound_outcome (entry : OutboundEntry) (peerId : OpaquePeerId)
    (method text : String) (hattached : s.generations.get? entry.connectionId = some state) :
    ∃ t effects, s.sendOutbound answers entry peerId method text = .ok (t, effects,
      if (encodeOutboundRequest peerId method text).isSome && answers.written then .success
      else .transportUnavailable) := by
  have hlive : (s.indexOutbound entry).outboundByPeer.get? entry.peerKey = some entry := by
    rw [BrokerInner.indexOutbound, updateGeneration_outboundByPeer]
    exact get?_insert_self _ _ _
  unfold BrokerInner.sendOutbound
  rw [hattached]
  dsimp only
  split
  · exact ⟨_, _, rfl⟩
  rw [hlive]
  exact ⟨_, _, rfl⟩

theorem startOutbound_outcome {connectionId : String} (source : BrokerRuntimeSource)
    (request : RuntimeRequest) (text : String)
    (hattached : s.generations.get? connectionId = some state) :
    let peerId := outboundPeerId state.handle.socketGeneration state.sequence
    let peerKey := generationPeerKey state.uid peerId
    ∃ t effects, s.startOutbound answers connectionId state source request text = .ok (t, effects,
      if s.outboundByPeer.contains peerKey ||
        s.outboundTombstones.contains peerKey (answers.clock 0)
      then .protocolError
      else if (encodeOutboundRequest peerId request.method text).isSome && answers.written
      then .success else .transportUnavailable) := by
  intro peerId peerKey
  have hdrawn : (s.drawSequence connectionId).generations.get? connectionId =
      some { state with sequence := state.sequence + 1 } := by
    rw [drawSequence, updateGeneration_some hattached, if_pos rfl]
  have htombstones : (s.drawSequence connectionId).outboundTombstones = s.outboundTombstones := by
    unfold drawSequence updateGeneration
    split <;> rfl
  have hpeers : (s.drawSequence connectionId).outboundByPeer = s.outboundByPeer :=
    updateGeneration_outboundByPeer _ _
  rw [← hpeers, ← htombstones]
  unfold startOutbound
  dsimp only
  by_cases hused : ((s.drawSequence connectionId).outboundByPeer.contains peerKey ||
      (s.drawSequence connectionId).outboundTombstones.contains peerKey (answers.clock 0)) = true
  · rw [if_pos hused]
    exact ⟨_, _, if_pos hused⟩
  obtain ⟨t, effects, hsend⟩ := sendOutbound_outcome
    (outboundEntry answers connectionId source request state) peerId request.method text hdrawn
  refine ⟨t, effects, ?_⟩
  rw [if_neg hused, ← hsend]
  exact if_neg hused

/-- A request of an attached connection whose correlation is not active leaves its session
alone if and only if it is not let through, or is sent: its peer id is fresh, its frame can be
made, and the client's socket takes it. -/
theorem handleRequest_ok_iff
    (hattached : s.generations.get? header.connectionId = some state)
    (howner : header.serviceId = state.handle.serviceId ∧
      header.websocketEntryId = state.handle.websocketEntryId)
    (hunused : s.outboundByRuntime.contains
      ((runtimeSource runtime respond).key header.requestId) = false) :
    (∃ t effects, handleRequest options answers s runtime respond header params =
        .ok (t, effects, .ok ())) ↔
      ∀ text, params = some text → state.isOpen = true →
        s.outboundByPeer.size < options.outboundGlobalCapacity →
        state.outboundActive < options.outboundPerGenerationCapacity →
        let peerId := outboundPeerId state.handle.socketGeneration state.sequence
        let peerKey := generationPeerKey state.uid peerId
        s.outboundByPeer.contains peerKey = false ∧
          (s.sweep answers).outboundTombstones.contains peerKey (answers.clock 0) = false ∧
          (encodeOutboundRequest peerId header.method text).isSome = true ∧
          answers.written = true := by
  have hget : (s.sweep answers).generations.get? header.connectionId = some state := hattached
  have hrequest : ¬ ((runtimeRequest s header params).serviceId ≠ state.handle.serviceId ∨
      (runtimeRequest s header params).websocketEntryId ≠ state.handle.websocketEntryId ∨
      (runtimeRequest s header params).ownerToken ≠ state.ownerToken) := by
    simp [runtimeRequest, howner.1, howner.2, hattached]
  have hnamed : ¬ ((runtimeRequest s header params).requestId = "" ∨
      (runtimeRequest s header params).method = "") := not_or.mpr header.named
  have htimed : ¬ (runtimeRequest s header params).deadlineTimeoutMs = some 0 := header.timed
  have hnew : ¬ (s.sweep answers).outboundByRuntime.contains ((runtimeSource runtime respond).key
      (runtimeRequest s header params).requestId) = true := Bool.eq_false_iff.mp hunused
  unfold handleRequest handleRuntimeRequest
  dsimp only
  rw [hget]
  dsimp only
  by_cases hopen : state.isOpen = true
  swap
  · rw [if_pos (by simpa using hopen)]
    exact ⟨fun _ _ _ h => absurd h hopen, fun _ => ⟨_, _, rfl⟩⟩
  rw [if_neg (by simp [hopen]), if_neg hrequest, if_neg hnamed, if_neg htimed, if_neg hnew]
  by_cases hroom : options.outboundGlobalCapacity ≤ (s.sweep answers).outboundByPeer.size ∨
      options.outboundPerGenerationCapacity ≤ state.outboundActive
  · rw [if_pos hroom]
    refine ⟨fun _ _ _ _ hglobal hactive => ?_, fun _ => ⟨_, _, rfl⟩⟩
    exact absurd hroom (not_or.mpr ⟨not_le.mpr hglobal, not_le.mpr hactive⟩)
  rw [if_neg hroom]
  cases params with
  | none =>
    refine ⟨fun _ text htext => ?_, fun _ => ⟨_, _, rfl⟩⟩
    cases htext
  | some text =>
    have hroom := not_or.mp hroom
    obtain ⟨t, effects, hstart⟩ := startOutbound_outcome
      (runtimeSource runtime respond) (runtimeRequest s header (some text)) text hget
    rw [show (runtimeRequest s header (some text)).params = some text from rfl]
    dsimp only
    rw [hstart]
    constructor
    · rintro ⟨_, _, hok⟩ other hother - - -
      cases hother
      have hterminal := congrArg (·.2.2) (Except.ok.inj hok)
      split at hterminal
      · cases hterminal
      case isFalse hfresh =>
      split at hterminal
      case isTrue hsent =>
        rw [Bool.or_eq_true, not_or, Bool.not_eq_true, Bool.not_eq_true] at hfresh
        rw [Bool.and_eq_true] at hsent
        exact ⟨hfresh.1, hfresh.2, hsent⟩
      · cases hterminal
    intro hsent
    obtain ⟨hpeer, htombstone, hframe, hwritten⟩ :=
      hsent text rfl hopen (not_le.mp hroom.1) (not_le.mp hroom.2)
    refine ⟨t, effects, ?_⟩
    have hpeer : (s.sweep answers).outboundByPeer.contains _ = false := hpeer
    rw [hpeer, htombstone, hwritten,
      show (runtimeRequest s header (some text)).method = header.method from rfl, hframe]
    rfl

/-- A broker with one connection, and a request on it. -/
def roomBroker : BrokerInner :=
  ((new smallBroker).attachGeneration ⟨"c", "g", "service", "entry"⟩ 7 0).1

def askHeader : ConnectionRequestFrameHeader :=
  ⟨"r", "service", "entry", "c", "ask", none, by decide, by decide⟩

theorem handleRequest_ok_room : ∃ t effects,
    handleRequest smallBroker roomAnswers roomBroker ⟨"replica", 1⟩ 5 askHeader (some "1") =
      .ok (t, effects, .ok ()) := by
  have hattached : roomBroker.generations.get? "c" =
      some ⟨⟨"c", "g", "service", "entry"⟩, 0, 0, 1, 7, true, 0, 0, 0, 0⟩ := rfl
  refine (handleRequest_ok_iff hattached ⟨rfl, rfl⟩ rfl).mpr ?_
  rintro text htext - - -
  cases htext
  exact ⟨rfl, rfl, by decide, rfl⟩

/-- The client's socket does not take the frame: the session of the Runtime ends. -/
theorem full_socket_ends_session :
    (∃ state, roomBroker.generations.get? askHeader.connectionId = some state ∧
      askHeader.serviceId = state.handle.serviceId ∧
      askHeader.websocketEntryId = state.handle.websocketEntryId) ∧
    roomBroker.outboundByRuntime.size = 0 ∧
    ∃ t effects, handleRequest smallBroker { roomAnswers with written := false } roomBroker
      ⟨"replica", 1⟩ 5 askHeader (some "1") = .ok (t, effects, .error .malformedFrame) :=
  ⟨⟨_, rfl, rfl, rfl⟩, rfl, _, _, by rfl⟩

end ConnectionFrameSink

end Skiff.WebSocket
