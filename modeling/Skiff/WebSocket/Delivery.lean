import Skiff.WebSocket.Agreement
import Skiff.WebSocket.BrokerRuns
import Skiff.WebSocket.Gateway
import Skiff.WebSocket.SafeIntegers

/-!
# Delivery of peer answers

An answer that settles an outbound entry leaves the router as a `connection.response` frame
(`runtime/transport/src/connection_protocol.rs`), whose limits are not those of the profile. Where
the frame refuses the answer, the responder's error is dropped and the Runtime hears nothing.
-/

namespace Skiff.WebSocket

open Json
open Recoverable (isWhitespace isBlank)
open BrokerInner.PeerResponseTerminal List

/-! ## The frame -/

def runtimeFrameSchemaVersion : String := "skiff-runtime-frame-v5"
def connectionRequestMaxPayloadBytes : Nat := 1024 * 1024
def connectionResponseMaxMessageBytes : Nat := 4096

structure ConnectionResponseFrameHeader where
  schemaVersion : String
  envelopeType : String
  requestId : String
  outcome : ConnectionResponseOutcome
  remote : Option RemoteError

def decodeError {α : Type} (message : String) : Except String α :=
  .error ("invalid connection frame: " ++ message)

def validateEnvelope (schemaVersion envelopeType expectedType : String) : Except String Unit :=
  if schemaVersion ≠ runtimeFrameSchemaVersion then
    decodeError "connection frame schemaVersion is unsupported"
  else if envelopeType ≠ expectedType then
    decodeError ("connection frame type must be " ++ expectedType)
  else .ok ()

/-- A text is not its own `trim` just if it starts or ends with white space. -/
def validateToken (value label : String) (maxBytes : Nat) : Except String Unit :=
  let text := value.toList
  if text.isEmpty || text.head?.any isWhitespace || text.getLast?.any isWhitespace ||
      maxBytes < value.utf8ByteSize || text.any isControl then
    decodeError ("connection frame " ++ label ++ " must be a bounded non-empty canonical string")
  else .ok ()

section Frame

variable (fromSlice : List UInt8 → Except String Unit)

/-- `fromSlice` is `serde_json::from_slice`, with the text of its error. -/
def decodeJsonPayload (payload : List UInt8) (label : String) : Except String Unit :=
  if isUtf8 payload then
    match fromSlice payload with
    | .ok () => .ok ()
    | .error error => decodeError (label ++ " must be valid JSON: " ++ error)
  else decodeError (label ++ " must be UTF-8")

def validateRemote (remote : RemoteError) (payload : List UInt8) : Except String Unit :=
  if javascriptMaxSafeInteger < remote.code.natAbs then
    decodeError "remote connection response code must be a safe integer"
  else if isBlank remote.message ∨
      connectionResponseMaxMessageBytes < remote.message.utf8ByteSize then
    decodeError "remote connection response message must be a bounded non-empty string"
  else if remote.dataPresent = decide (payload = []) then
    decodeError "remote dataPresent must match payload presence"
  else if remote.dataPresent then
    decodeJsonPayload fromSlice payload "remote connection response data"
  else .ok ()

def validateResponse (header : ConnectionResponseFrameHeader) (payload : List UInt8) :
    Except String Unit := do
  validateEnvelope header.schemaVersion header.envelopeType "connection.response"
  validateToken header.requestId "requestId" maxIdentifierBytes
  if connectionRequestMaxPayloadBytes < payload.length then
    decodeError "connection response payload exceeds the payload limit"
  else
    match header.outcome with
    | .success =>
      if header.remote.isSome ∨ payload = [] then
        decodeError "successful connection response requires payload and forbids remote metadata"
      else decodeJsonPayload fromSlice payload "connection response result"
    | .remote =>
      match header.remote with
      | none => decodeError "remote connection response requires remote metadata"
      | some remote => validateRemote fromSlice remote payload
    | _ =>
      if header.remote.isSome ∨ payload ≠ [] then
        decodeError "non-payload connection response forbids remote metadata and payload"
      else .ok ()

/-- The header and the payload of a binary frame. -/
def encodeConnectionResponseFrame (header : ConnectionResponseFrameHeader)
    (payload : List UInt8) : Except String (ConnectionResponseFrameHeader × List UInt8) := do
  validateResponse fromSlice header payload
  .ok (header, payload)

def responseHeader (response : BrokerRuntimeResponse) : ConnectionResponseFrameHeader :=
  ⟨runtimeFrameSchemaVersion, "connection.response", response.requestId, response.outcome,
    response.remote⟩

/-- `WsRuntimeResponder::respond`, whose error the broker drops. -/
def respond (writeSessionFrame : ConnectionResponseFrameHeader × List UInt8 → Except String Unit)
    (response : BrokerRuntimeResponse) : Except String Unit := do
  let frame ← (encodeConnectionResponseFrame fromSlice (responseHeader response)
    response.payload).mapError ("connection.response encode failed: " ++ ·)
  writeSessionFrame frame

end Frame

/-! ## What the frame lets through -/

/-- The bytes that the scanners find for a terminal. -/
def PeerResponseTerminal.text : PeerResponseTerminal → PeerResponseTerminalText
  | .success result => .success result
  | .remoteError code message data => .remoteError code (utf8 message) data

/-- The profile reads this answer in a frame. -/
structure Answers (frame : List UInt8) (id : String) (terminal : PeerResponseTerminal) : Prop where
  classified : classifyJsonrpc20TextFrame frame = some (.response (utf8 id))
  extracted : peerResponseTerminal frame (utf8 id) = .ok terminal.text

variable {terminal : PeerResponseTerminal}

section Delivery

variable (fromSlice : List UInt8 → Except String Unit)

def Parses (payload : List UInt8) : Prop := isUtf8 payload = true ∧ fromSlice payload = .ok ()

/-- The frame has room for the answer: its message is short and not blank, and its payload is
JSON for the parser of frames. -/
def Deliverable : PeerResponseTerminal → Prop
  | .success result => Parses fromSlice result
  | .remoteError _ message data =>
    isBlank message = false ∧ message.utf8ByteSize ≤ connectionResponseMaxMessageBytes ∧
      ∀ payload, data = some payload → Parses fromSlice payload

theorem decodeJsonPayload_eq_ok {payload : List UInt8} {label : String} :
    decodeJsonPayload fromSlice payload label = .ok () ↔ Parses fromSlice payload := by
  unfold decodeJsonPayload Parses decodeError
  split
  · next hutf8 => cases fromSlice payload <;> simp [hutf8]
  · next hutf8 => simp [hutf8]

/-- What the profile promises of every terminal that it takes out of a frame. -/
structure Bounded (payload : List UInt8) : Prop where
  present : payload ≠ []
  length_le : payload.length ≤ connectionRequestMaxPayloadBytes

def PeerResponseTerminal.Promised : PeerResponseTerminal → Prop
  | .success result => Bounded result
  | .remoteError code _ data =>
    |code| ≤ javascriptMaxSafeInteger ∧ ∀ payload, data = some payload → Bounded payload

variable (writeSessionFrame : ConnectionResponseFrameHeader × List UInt8 → Except String Unit)

theorem respond_eq_ok_iff {response : BrokerRuntimeResponse} :
    respond fromSlice writeSessionFrame response = .ok () ↔
      validateResponse fromSlice (responseHeader response) response.payload = .ok () ∧
      writeSessionFrame (responseHeader response, response.payload) = .ok () := by
  unfold respond encodeConnectionResponseFrame
  cases validateResponse fromSlice (responseHeader response) response.payload with
  | error message | ok done => simp [bind, Except.bind, Except.mapError]

/-- An answer within the limits of the profile passes the frame just if it is deliverable. -/
theorem respond_terminal_iff (h : terminal.Promised) {requestId : String}
    (hrequest : validateToken requestId "requestId" maxIdentifierBytes = .ok ()) :
    respond fromSlice writeSessionFrame (response requestId terminal) = .ok () ↔
      Deliverable fromSlice terminal ∧ writeSessionFrame
        (responseHeader (response requestId terminal), (response requestId terminal).payload) =
          .ok () := by
  rw [respond_eq_ok_iff]
  refine and_congr_left fun _ => ?_
  unfold validateResponse responseHeader
  cases terminal with
  | success result =>
    have hlength := Nat.not_lt.mpr h.length_le
    simp [response, validateEnvelope, hrequest, hlength,
      h.present, Deliverable, decodeJsonPayload_eq_ok, bind, Except.bind]
  | remoteError code message data =>
    obtain ⟨hcode, hdata⟩ := h
    have hsafe : ¬javascriptMaxSafeInteger < code.natAbs := by
      rw [← Int.abs_eq_natAbs]
      exact not_lt.mpr hcode
    have hremote (present : Bool) (payload : List UInt8) :
        validateRemote fromSlice ⟨code, message, present⟩ payload = .ok () ↔
          isBlank message = false ∧ message.utf8ByteSize ≤ connectionResponseMaxMessageBytes ∧
            present ≠ decide (payload = []) ∧ (present = true → Parses fromSlice payload) := by
      unfold validateRemote decodeError
      rw [if_neg hsafe]
      split
      · next hmessage => grind
      split
      · next hpresent => simp_all
      split
      · next hmessage hpresent hdata => simp_all [decodeJsonPayload_eq_ok]
      · next hmessage hpresent hdata => simp_all
    cases data with
    | none => simp [response, validateEnvelope, hrequest, hremote, Deliverable, bind, Except.bind]
    | some payload =>
      have hbounded := hdata payload rfl
      have hlength := Nat.not_lt.mpr hbounded.length_le
      simp [response, validateEnvelope, hrequest, hremote,
        hlength, hbounded.present, Deliverable, bind, Except.bind]

end Delivery

/-! ## What the profile takes out -/

theorem safe_of_parseSafeInteger {lexeme : List UInt8} {n : Int}
    (h : parseSafeInteger lexeme = .ok (some n)) : |n| ≤ javascriptMaxSafeInteger := by
  unfold parseSafeInteger at h
  split at h
  · cases h
  split at h
  · cases h
    decide
  split at h
  · cases h
  generalize exactDigits _ _ = result at h
  cases result with
  | error => cases h
  | ok found =>
    obtain ⟨digits, -, hsafe⟩ := Option.bind_eq_some_iff.mp (Except.ok.inj h)
    exact (safeInteger_eq_some.mp hsafe).2

theorem text_within {g : JsonGrammar} {part : Part} {source rest : List UInt8}
    (h : Reads g part source rest) (members : List LexMember) (hpart : part = .members members) :
    ∀ member ∈ members, member.source <:+: source := by
  induction h generalizing members with
  | lastMember hkey beforeColon afterColon _ _ _ =>
    cases hpart
    intro member hmember
    rw [mem_singleton.mp hmember]
    have hvalue := afterColon.suffix.trans (beforeColon.suffix_tail.trans hkey.consumes.suffix)
    exact (prefix_append _ _).isInfix.trans (hvalue.trans (suffix_cons _ _)).isInfix
  | member hkey beforeColon afterColon h afterValue afterComma _ _ _ ih' =>
    cases hpart
    have hvalue := afterColon.suffix.trans (beforeColon.suffix_tail.trans hkey.consumes.suffix)
    intro member hmember
    obtain rfl | hmember := mem_cons.mp hmember
    · exact (prefix_append _ _).isInfix.trans (hvalue.trans (suffix_cons _ _)).isInfix
    refine (ih' _ rfl member hmember).trans (List.IsSuffix.isInfix ?_)
    refine afterComma.suffix.trans (afterValue.suffix_tail.trans (h.consumes.suffix.trans ?_))
    exact hvalue.trans (suffix_cons _ _)
  | _ => cases hpart

theorem ObjectText.member_bounded {source : List UInt8} {members : List LexMember}
    (h : ObjectText source members) {member : LexMember} (hmember : member ∈ members) :
    member.source ≠ [] ∧ member.source.length ≤ source.length := by
  constructor
  · obtain ⟨first, others, heq, -⟩ := (h.reads hmember).consumes
    rw [heq]
    exact cons_ne_nil _ _
  obtain ⟨inner, body, hws, hws', ⟨rfl, -⟩ | hmembers⟩ := h
  · cases hmember
  have hbody := hws'.suffix.trans hws.suffix_tail
  exact (text_within hmembers members rfl member hmember).length_le.trans hbody.length_le

variable {frame : List UInt8} {id : String} {terminal : PeerResponseTerminal}

/-- What the profile takes out of a frame is within the frame, and its code is safe. -/
theorem Answers.promised (h : Answers frame id terminal) : terminal.Promised := by
  have hframe : frame.length ≤ connectionRequestMaxPayloadBytes := by
    have hclassified := h.classified
    unfold classifyJsonrpc20TextFrame at hclassified
    split at hclassified
    · cases hclassified
    · next hlength => exact Nat.not_lt.mp hlength
  have hboth := response_agrees h.classified
  obtain ⟨result, ⟨members, htext, hmem, -⟩, hresult⟩ |
    ⟨error, code, message, data, ⟨members, htext, hmem, -⟩, hsays, hremote⟩ :=
      hboth.2 (hboth.1 ⟨_, h.extracted⟩)
  · have hterminal := Except.ok.inj (h.extracted.symm.trans hresult)
    cases terminal with
    | success found =>
      cases hterminal
      obtain ⟨hsome, hle⟩ := htext.member_bounded hmem
      exact ⟨hsome, hle.trans hframe⟩
    | remoteError => cases hterminal
  have hterminal := Except.ok.inj (h.extracted.symm.trans hremote)
  cases terminal with
  | success => cases hterminal
  | remoteError found text more =>
    cases hterminal
    obtain ⟨entries, hentries, -, ⟨member, -, -, lexeme, -, hcode⟩, -, hdata⟩ := hsays
    refine ⟨safe_of_parseSafeInteger hcode, ?_⟩
    rintro payload rfl
    obtain ⟨found, hfind, rfl⟩ := Option.map_eq_some_iff.mp hdata.symm
    obtain ⟨hsome, hle⟩ := hentries.member_bounded (findMember_spec hfind).1
    exact ⟨hsome, hle.trans ((htext.member_bounded hmem).2.trans hframe)⟩

/-! ## Runs -/

/-- The decoder of `connection.request` lets only tokens in as request ids. -/
def BrokerOp.Decoded : BrokerOp → Prop
  | .handleRuntimeRequest _ _ request =>
    validateToken request.requestId "requestId" maxIdentifierBytes = .ok ()
  | _ => True

namespace BrokerInner

def Tokens (s : BrokerInner) : Prop := ∀ k entry, s.outboundByPeer.get? k = some entry →
  validateToken entry.requestId "requestId" maxIdentifierBytes = .ok ()

variable {options : WebSocketRequestBrokerOptions} {op : BrokerOp} {s t : BrokerInner}
variable {effects : List BrokerEffect}

/-- Only a request that is let in adds an outbound entry. -/
theorem Change.tokens (hs : s.Coherent options) (h : Change options op s effects t)
    (hop : op.Decoded) (htokens : s.Tokens) : t.Tokens := by
  intro k entry hlive
  have hmove := h.outboundMove hs k
  generalize hmarks : outboundMarks k effects = marks at hmove
  cases hmove with
  | idle same => exact htokens k entry (same.symm.trans hlive)
  | opened started _ _ _ live =>
    obtain rfl := Option.some.inj (hlive.symm.trans live)
    obtain rfl := ((h.coherent hs).outbound.keyed hlive).1
    have hmem : .requested entry true ∈ outboundMarks entry.peerKey effects := by simp [hmarks]
    obtain ⟨writer, frame, hrequest⟩ := mem_requested.mp hmem
    obtain ⟨request, rfl, hsame⟩ := h.authors.1 hrequest
    exact hsame ▸ hop
  | failed _ _ _ _ gone _ | ended _ _ _ gone _ => cases gone.symm.trans hlive

variable {labels : List BrokerLabel} {connectionId id : String}

theorem run_tokens (hrun : Run (BrokerStep options) (new options) labels s)
    (hops : ∀ label ∈ labels, label.op.Decoded) : s.Tokens := by
  revert hops
  refine hrun.history (P := fun labels s => (∀ label ∈ labels, label.op.Decoded) → s.Tokens) ?_ ?_
  · intro _ k entry hlive
    cases hlive
  intro labels before label after hbefore htokens hstep hops
  have hs := run_coherent hbefore
  obtain ⟨changes, hchanges, -⟩ := step_performs hs hstep
  refine (hchanges.invariant (P := fun s => s.Coherent options ∧ s.Tokens) ?_ ⟨hs, htokens ?_⟩).2
  · rintro before effects after ⟨hs, htokens⟩ hchange
    exact ⟨hchange.coherent hs, hchange.tokens hs (hops label (by simp)) htokens⟩
  intro earlier hearlier
  exact hops earlier (mem_append_left _ hearlier)

/-- A peer's answer settles the entry that it names, or nothing. -/
theorem handlePeerResponse_cases (hs : s.Coherent options) {answers : BrokerAnswers}
    {outcome : PeerTextOutcome}
    (h : s.handlePeerResponse answers connectionId id (some terminal) = (t, effects, outcome)) :
    effects = [] ∧ t = s ∨
      ∃ entry, s.outboundByPeer.get? entry.peerKey = some entry ∧
        t.outboundByPeer.get? entry.peerKey = none ∧
        effects = [.respond (some entry.peerKey) entry.source
          (PeerResponseTerminal.response entry.requestId terminal)] := by
  unfold handlePeerResponse at h
  split at h
  · cases h
    exact .inl ⟨rfl, rfl⟩
  dsimp only at h
  split at h
  · split at h
    all_goals
      cases h
      exact .inl ⟨rfl, rfl⟩
  next state hstate entry hlive =>
    split at h
    · cases h
      exact .inl ⟨rfl, rfl⟩
    obtain ⟨hkey, -⟩ := hs.outbound.keyed hlive
    rw [← hkey] at hlive
    have hcontains := OrdMap.contains_iff.mpr ⟨entry, hlive⟩
    unfold settleOutbound at h
    rw [if_pos hcontains] at h
    cases h
    refine .inr ⟨entry, hlive, ?_, rfl⟩
    rw [Option.eq_none_iff_forall_ne_some]
    intro live hget
    exact ((detachOutbound_get? hcontains).mp hget).1 rfl

/-- In every run, a peer's answer that settles an entry is sent to the Runtime that made the
request if and only if the frame has room for it and the writer of the session takes it. -/
theorem answer_delivered_iff (fromSlice : List UInt8 → Except String Unit)
    (writeSessionFrame : ConnectionResponseFrameHeader × List UInt8 → Except String Unit)
    {labels : List BrokerLabel} (hrun : Run (BrokerStep options) (new options) labels s)
    (hops : ∀ label ∈ labels, label.op.Decoded) {frame : List UInt8} {connectionId id : String}
    {terminal : PeerResponseTerminal} (hframe : Answers frame id terminal)
    (hstep : BrokerStep options s
      ⟨.handlePeerText connectionId (.response id (some terminal)), effects⟩ t) :
    effects = [] ∧ t.outboundByPeer = s.outboundByPeer ∨
      ∃ entry response, s.outboundByPeer.get? entry.peerKey = some entry ∧
        t.outboundByPeer.get? entry.peerKey = none ∧
        response = PeerResponseTerminal.response entry.requestId terminal ∧
        effects = [.respond (some entry.peerKey) entry.source response] ∧
        (respond fromSlice writeSessionFrame response = .ok () ↔ Deliverable fromSlice terminal ∧
          writeSessionFrame (responseHeader response, response.payload) = .ok ()) := by
  have hs := run_coherent hrun
  have htokens := run_tokens hrun hops
  obtain ⟨answers, happly⟩ := hstep
  unfold apply handlePeerText at happly
  dsimp only at happly
  split at happly
  · cases happly
    exact .inl ⟨rfl, rfl⟩
  generalize hresult : (s.sweep answers).handlePeerResponse answers connectionId id
    (some terminal) =
    result at happly
  obtain ⟨after, found, outcome⟩ := result
  cases happly
  have hswept : Quiet s (s.sweep answers) := .sweep answers
  obtain ⟨hnone, hsame⟩ | ⟨entry, hlive, hgone, heffects⟩ :=
    handlePeerResponse_cases (hs.quiet hswept) hresult
  · refine .inl ⟨hnone, ?_⟩
    rw [hsame, hswept.outboundByPeer]
  · rw [hswept.outboundByPeer] at hlive
    refine .inr ⟨entry, _, hlive, hgone, rfl, heffects, ?_⟩
    exact respond_terminal_iff fromSlice writeSessionFrame hframe.promised (htokens _ _ hlive)

/-- The options and the run up to the request of `roomLabels`. -/
theorem asked_room : ∃ inner,
    Run (BrokerStep ⟨4, 2, 4, 2, 8, 1000, 500⟩) (new ⟨4, 2, 4, 2, 8, 1000, 500⟩)
      (roomLabels.take 2) inner ∧
    ∀ terminal, ∃ after, BrokerStep ⟨4, 2, 4, 2, 8, 1000, 500⟩ inner
      ⟨.handlePeerText "c" (.response "g:0" (some terminal)),
        [.respond (some "0:s:g:0") ⟨⟨"replica", 1⟩, "session", 5⟩
          (PeerResponseTerminal.response "r" terminal)]⟩ after :=
  ⟨_, .cons ⟨roomAnswers, by rfl⟩ (.cons ⟨roomAnswers, by rfl⟩ (.nil _)),
    fun _ => ⟨_, roomAnswers, by rfl⟩⟩

def plainResult : List UInt8 := utf8 "\x7b\"jsonrpc\":\"2.0\",\"id\":\"g:0\",\"result\":1\x7d"

def parsesOne (payload : List UInt8) : Except String Unit :=
  if payload = [0x31] then .ok () else .error "expected value"

theorem answer_delivered_room : respond parsesOne (fun _ => .ok ())
    (PeerResponseTerminal.response "r" (.success [0x31])) = .ok () := by
  obtain ⟨inner, hrun, hanswers⟩ := asked_room
  obtain ⟨after, hstep⟩ := hanswers (.success [0x31])
  have hops : ∀ label ∈ roomLabels.take 2, label.op.Decoded := by
    intro label hmem
    obtain rfl | hmem := mem_cons.mp hmem
    · trivial
    · obtain rfl := mem_singleton.mp hmem
      exact rfl
  have hframe : Answers plainResult "g:0" (.success [0x31]) := by
    constructor <;> decide +kernel
  obtain ⟨hnone, -⟩ | ⟨entry, response, -, -, -, heffects, hiff⟩ :=
    answer_delivered_iff parsesOne (fun _ => .ok ()) hrun hops hframe hstep
  · cases hnone
  · obtain ⟨-, -, rfl⟩ := BrokerEffect.respond.inj (singleton_inj.mp heffects)
    exact hiff.mpr ⟨⟨by decide +kernel, rfl⟩, rfl⟩

def blankError : List UInt8 :=
  utf8 ("\x7b\"jsonrpc\":\"2.0\",\"id\":\"g:0\",\"error\":\x7b\"code\":1," ++
    "\"message\":\" \"\x7d\x7d")

/-- The error of a peer settles the request, and its blank message does not fit the frame: the
Runtime hears nothing. -/
theorem blank_message_dropped : ∃ inner after source response,
    Run (BrokerStep ⟨4, 2, 4, 2, 8, 1000, 500⟩) (new ⟨4, 2, 4, 2, 8, 1000, 500⟩)
      (roomLabels.take 2) inner ∧
    Answers blankError "g:0" (.remoteError 1 " " none) ∧
    BrokerStep ⟨4, 2, 4, 2, 8, 1000, 500⟩ inner
      ⟨.handlePeerText "c" (.response "g:0" (some (.remoteError 1 " " none))),
        [.respond (some "0:s:g:0") source response]⟩ after ∧
    ∀ fromSlice write, respond fromSlice write response =
      .error ("connection.response encode failed: " ++ ("invalid connection frame: " ++
        "remote connection response message must be a bounded non-empty string")) := by
  obtain ⟨inner, hrun, hanswers⟩ := asked_room
  obtain ⟨after, hstep⟩ := hanswers (.remoteError 1 " " none)
  exact ⟨inner, after, _, _, hrun, by constructor <;> decide +kernel, hstep, fun _ _ => rfl⟩

end BrokerInner

end Skiff.WebSocket
