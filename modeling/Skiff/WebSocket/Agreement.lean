import Mathlib.Data.List.Perm.Subperm
import Skiff.WebSocket.Extraction

/-!
# Agreement of the classifier and the scanners

The payload that the router takes out of a frame is that of the member the classifier
accepted: always for the params of a request and the result of a response; for an error and
for the id of a request with invalid params exactly where the text has no escaped pair of
surrogates and the error no key twice.
-/

namespace Skiff.WebSocket

open Json LexMember Option

/-! ## What the router should take out -/

/-- A member of a text with a key. -/
def MemberOf (source : List UInt8) (key : List UInt8) (member : LexMember) : Prop :=
  ∃ members, ObjectText source members ∧ member ∈ members ∧ member.key = key

/-- The text of an error object says a code, a message and the text of its data. -/
def SaysError (source : List UInt8) (code : Int) (message : List UInt8)
    (data : Option (List UInt8)) : Prop :=
  ∃ members, ObjectText source members ∧ (members.map key).Nodup ∧
    (∃ member ∈ members, member.key = utf8 "code" ∧ ∃ lexeme, member.value = .number lexeme ∧
      parseSafeInteger lexeme = .ok (some code)) ∧
    (∃ member ∈ members, member.key = utf8 "message" ∧ member.value = .string message) ∧
    data = (findMember members (utf8 "data")).map LexMember.source

/-- The payload that the router takes out of a frame is that of the classified members. -/
def Agrees (frame : List UInt8) : ProfileAction → Prop
  | .request _ _ => ∃ params, MemberOf frame (utf8 "params") params ∧
      extractRequestParams frame = some params.source
  | .response id =>
    (∃ result, MemberOf frame (utf8 "result") result ∧
      peerResponseTerminal frame id = .ok (.success result.source)) ∨
    ∃ error code message data, MemberOf frame (utf8 "error") error ∧
      SaysError error.source code message data ∧
      peerResponseTerminal frame id = .ok (.remoteError code message data)
  | .platformError .invalidParams => ∃ member id, MemberOf frame (utf8 "id") member ∧
      parsePeerId (some member.value) = .ok (some id) ∧ extractPeerId frame = .ok (some id)
  | _ => True

/-- No text that the router decodes has an escaped pair of surrogates, and no error a key
twice. -/
def Decodable (frame : List UInt8) : ProfileAction → Prop
  | .response _ => ∀ error, MemberOf frame (utf8 "error") error →
      (∀ members, ObjectText error.source members → (members.map key).Nodup) ∧
      ∀ message, MemberOf error.source (utf8 "message") message → Unpaired message.source
  | .platformError .invalidParams => ∀ member, MemberOf frame (utf8 "id") member →
      Unpaired member.source
  | _ => True

/-! ## Scanned members -/

section scanned

variable {scanNumber : List UInt8 → List UInt8} (hpass : PassesNumbers scanNumber)
variable {source : List UInt8} {members : List LexMember}

include hpass

theorem topLevelMembers_eq (h : ObjectText source members)
    (hascii : ∀ member ∈ members, Ascii member.key) (hnodup : (members.map key).Nodup) :
    topLevelMembers scanNumber source = some (members.map memberText) := by
  obtain ⟨htop, -⟩ | ⟨-, hnot⟩ := topLevelMembers_of_object hpass h
  · exact htop
  · exact absurd ⟨hascii, hnodup⟩ hnot

theorem eq_of_topLevelMembers (h : ObjectText source members)
    {texts : List (List UInt8 × List UInt8)}
    (htop : topLevelMembers scanNumber source = some texts) :
    texts = members.map memberText ∧ (members.map key).Nodup := by
  obtain ⟨htop', hnodup⟩ | ⟨hnone, -⟩ := topLevelMembers_of_object hpass h
  · rw [htop'] at htop
    exact ⟨(some.inj htop).symm, hnodup⟩
  rw [hnone] at htop
  cases htop

/-- The scanned members say the text of each member that the grammar reads. -/
theorem memberSpan_of_member {texts : List (List UInt8 × List UInt8)}
    (htop : topLevelMembers scanNumber source = some texts) {key : List UInt8} {member : LexMember}
    (h : MemberOf source key member) : memberSpan texts key = some member.source := by
  obtain ⟨members, htext, hmember, rfl⟩ := h
  obtain ⟨rfl, hnodup⟩ := eq_of_topLevelMembers hpass htext htop
  rw [memberSpan_texts, findMember_of_mem hnodup hmember]
  rfl

end scanned

variable {members : List LexMember}

theorem memberOf_find {source : List UInt8} (h : ObjectText source members)
    {key : List UInt8} {member : LexMember} (hfind : findMember members key = some member) :
    MemberOf source key member := by
  obtain ⟨hmember, hkey⟩ := findMember_spec hfind
  exact ⟨members, h, hmember, hkey⟩

theorem find_of_lexMember {key : List UInt8} {node : LexNode}
    (h : lexMember (members.map entry) key = some node) :
    ∃ member, findMember members key = some member ∧ member.value = node := by
  rw [lexMember_entries] at h
  exact map_eq_some_iff.mp h

/-! ## Requests -/

section request

variable {frame : List UInt8} {members : List LexMember} (hutf8 : isUtf8 frame = true)
variable (htext : ObjectText frame members) (hnodup : (members.map key).Nodup)
variable (hascii : ∀ member ∈ members, Ascii member.key)

include hutf8 htext hnodup hascii

theorem extractRequestParams_eq {params : LexMember}
    (hfind : findMember members (utf8 "params") = some params) :
    extractRequestParams frame = some params.source := by
  rw [extractRequestParams, hutf8, if_pos rfl,
    topLevelMembers_eq passesNumbers_bytes htext hascii hnodup, bind_some, memberSpan_texts,
    hfind]
  rfl

theorem extractPeerId_eq {member : LexMember}
    (hfind : findMember members (utf8 "id") = some member) :
    extractPeerId frame = parsePeerIdBytes (trim member.source) := by
  rw [extractPeerId, hutf8, if_pos rfl,
    topLevelMembers_eq passesNumbers_bytes htext hascii hnodup, bind_some, memberSpan_texts,
    hfind]
  rfl

/-- The broker takes the id out of a request with invalid params, exactly if the text of the id
has no escaped pair of surrogates. -/
theorem invalidParams_agrees_iff {id : LexPeerId}
    (hid : parsePeerId (lexMember (members.map entry) (utf8 "id")) = .ok (some id)) :
    Agrees frame (.platformError .invalidParams) ↔
      Decodable frame (.platformError .invalidParams) := by
  obtain ⟨node, hnode⟩ : ∃ node, lexMember (members.map entry) (utf8 "id") = some node := by
    cases hmember : lexMember (members.map entry) (utf8 "id") with
    | none => rw [hmember] at hid; cases hid
    | some node => exact ⟨node, rfl⟩
  rw [hnode] at hid
  obtain ⟨member, hfind, rfl⟩ := find_of_lexMember hnode
  have htop := topLevelMembers_eq passesNumbers_bytes htext hascii hnodup
  have hmember := memberOf_find htext hfind
  have hsource : ∀ other, MemberOf frame (utf8 "id") other → other.source = member.source := by
    intro other hother
    have hspan := memberSpan_of_member passesNumbers_bytes htop hother
    rw [memberSpan_of_member passesNumbers_bytes htop hmember] at hspan
    exact (some.inj hspan).symm
  have hextract := extractPeerId_eq hutf8 htext hnodup hascii hfind
  constructor
  · rintro ⟨other, id', hother, hid', hextract'⟩ another hanother
    rw [hextract, ← hsource other hother] at hextract'
    rw [hsource another hanother, ← hsource other hother]
    obtain ⟨members', htext', hmember', -⟩ := hother
    exact (parsePeerIdBytes_iff (htext'.reads hmember') hid').mp hextract'
  intro hall
  refine ⟨member, id, hmember, hid, ?_⟩
  rw [hextract, parsePeerIdBytes_iff (htext.reads (findMember_spec hfind).1) hid]
  exact hall member hmember

end request

/-! ## Responses -/

theorem length_le_of_only {allowed : List (List UInt8)}
    (h : onlyMembers (members.map entry) allowed = true)
    (hnodup : (members.map key).Nodup) : members.length ≤ allowed.length := by
  have hsubset : members.map key ⊆ allowed := by
    intro key hkey
    obtain ⟨member, hmember, rfl⟩ := List.mem_map.mp hkey
    rw [onlyMembers, List.all_map, List.all_eq_true] at h
    have hallowed : allowed.contains member.key = true := h member hmember
    simpa using hallowed
  have hle := (hnodup.subperm hsubset).length_le
  rwa [List.length_map] at hle

section error

variable {source : List UInt8} {members : List LexMember} (htext : ObjectText source members)
variable (hok : errorOk (members.map entry) = .ok true)

include htext hok

/-- The profile takes the code, the message and the data out of an error that the classifier
accepted, if no key occurs twice and the message has no escaped pair of surrogates. -/
theorem errorTerminal_says (hnodup : (members.map key).Nodup)
    (hmessage : ∀ message, MemberOf source (utf8 "message") message → Unpaired message.source) :
    ∃ code message data, SaysError source code message data ∧
      errorTerminal source = .ok (.remoteError code message data) := by
  obtain ⟨honly, ⟨lexeme, code, hcode, hsafe⟩, text, htextOf, hne, hle⟩ := errorOk_cases hok
  obtain ⟨codeMember, hfindCode, hcodeValue⟩ := find_of_lexMember hcode
  obtain ⟨messageMember, hfindMessage, hmessageValue⟩ := find_of_lexMember htextOf
  have hascii := ascii_of_only honly fun key hkey => ascii_of_all (by
    revert key
    decide +kernel)
  have htop := topLevelMembers_eq passesNumbers_parts htext hascii hnodup
  have hthree : ¬ 3 < (members.map memberText).length := by
    rw [List.length_map]
    exact Nat.not_lt.mpr (length_le_of_only honly hnodup)
  obtain ⟨hcodeMem, hcodeKey⟩ := findMember_spec hfindCode
  obtain ⟨hmessageMem, hmessageKey⟩ := findMember_spec hfindMessage
  have hcodeReads := htext.reads hcodeMem
  rw [hcodeValue] at hcodeReads
  obtain ⟨hlexeme, hnumber⟩ := reads_number hcodeReads
  rw [List.append_nil] at hlexeme
  have hnil : lexeme ≠ [] := by
    obtain ⟨first, others, rfl, -⟩ := hnumber.cons
    simp
  have hmessageReads := htext.reads hmessageMem
  rw [hmessageValue] at hmessageReads
  obtain ⟨chars, hchars, hread⟩ := reads_string hmessageReads
  have hunpaired := hmessage messageMember (memberOf_find htext hfindMessage)
  rw [hchars, ← (decodeJsonString_iff hread).1] at hunpaired
  have hbounds : ¬ (text = [] ∨ websocketJsonrpcMaxStringBytes < text.length) := by
    rintro (hnil | hlong)
    · exact hne hnil
    · exact absurd hle (Nat.not_le.mpr hlong)
  refine ⟨code, text, (findMember members (utf8 "data")).map LexMember.source, ?_, ?_⟩
  · refine ⟨members, htext, hnodup, ⟨codeMember, hcodeMem, hcodeKey, lexeme, hcodeValue, hsafe⟩, ?_,
      rfl⟩
    exact ⟨messageMember, hmessageMem, hmessageKey, hmessageValue⟩
  rw [errorTerminal, htop]
  dsimp only
  rw [if_neg hthree, memberSpan_texts, hfindCode, memberSpan_texts, hfindMessage]
  dsimp only [map_some]
  rw [hlexeme, trim_number hnumber, parseSafeIntegerI64, if_neg hnil, hsafe]
  dsimp only
  rw [hchars, trim_string hread, hunpaired]
  dsimp only
  rw [if_neg hbounds, memberSpan_texts]

/-- Where the profile takes an error out of a text, no key occurs twice and the message has
no escaped pair of surrogates. -/
theorem decodable_of_errorTerminal {terminal : PeerResponseTerminalText}
    (h : errorTerminal source = .ok terminal) :
    (∀ members, ObjectText source members → (members.map key).Nodup) ∧
      ∀ message, MemberOf source (utf8 "message") message → Unpaired message.source := by
  rw [errorTerminal] at h
  cases htop : topLevelMembers scanNumberParts source with
  | none => rw [htop] at h; cases h
  | some texts =>
    refine ⟨fun members htext => (eq_of_topLevelMembers passesNumbers_parts htext htop).2, ?_⟩
    intro message hmessage
    have hspan := memberSpan_of_member passesNumbers_parts htop hmessage
    obtain ⟨-, -, text, htextOf, -⟩ := errorOk_cases hok
    obtain ⟨member, hfind, hvalue⟩ := find_of_lexMember htextOf
    have hsame := memberSpan_of_member passesNumbers_parts htop (memberOf_find htext hfind)
    rw [hspan] at hsame
    have hreads := htext.reads (findMember_spec hfind).1
    rw [hvalue, ← some.inj hsame] at hreads
    obtain ⟨chars, hchars, hread⟩ := reads_string hreads
    rw [htop] at h
    dsimp only at h
    split at h
    · cases h
    split at h
    · cases h
    rw [hspan] at h
    dsimp only at h
    split at h
    · cases h
    · cases h
    rw [hchars, trim_string hread] at h
    cases hdecode : decodeJsonString (0x22 :: chars) with
    | none => rw [hdecode] at h; cases h
    | some decoded =>
      obtain ⟨hiff, hsame'⟩ := decodeJsonString_iff hread
      rw [hchars, ← hiff, hdecode, hsame' decoded hdecode]

end error

section response

variable {frame id : List UInt8} {members : List LexMember} (hutf8 : isUtf8 frame = true)
variable (htext : ObjectText frame members) (hnodup : (members.map key).Nodup)
variable (hascii : ∀ member ∈ members, Ascii member.key) (hid : id ≠ [])

include hutf8 htext hnodup hascii hid

theorem peerResponseTerminal_result {result : LexMember}
    (hresult : findMember members (utf8 "result") = some result)
    (herror : findMember members (utf8 "error") = none) :
    peerResponseTerminal frame id = .ok (.success result.source) := by
  rw [peerResponseTerminal, if_neg hid, hutf8, if_neg (by decide),
    topLevelMembers_eq passesNumbers_parts htext hascii hnodup]
  dsimp only
  rw [memberSpan_texts, hresult, memberSpan_texts, herror]
  rfl

theorem peerResponseTerminal_error {error : LexMember}
    (hresult : findMember members (utf8 "result") = none)
    (herror : findMember members (utf8 "error") = some error) :
    peerResponseTerminal frame id = errorTerminal error.source := by
  rw [peerResponseTerminal, if_neg hid, hutf8, if_neg (by decide),
    topLevelMembers_eq passesNumbers_parts htext hascii hnodup]
  dsimp only
  rw [memberSpan_texts, hresult, memberSpan_texts, herror]
  rfl

/-- The result of a response is always taken out. -/
theorem result_agrees (hresult : hasMember (members.map entry) (utf8 "result") = true)
    (herror : hasMember (members.map entry) (utf8 "error") = false) :
    Agrees frame (.response id) ∧ Decodable frame (.response id) := by
  rw [hasMember_entries] at hresult herror
  obtain ⟨result, hfind⟩ := isSome_iff_exists.mp hresult
  have hnone : findMember members (utf8 "error") = none := by simpa using herror
  refine ⟨.inl ⟨result, memberOf_find htext hfind, ?_⟩, ?_⟩
  · exact peerResponseTerminal_result hutf8 htext hnodup hascii hid hfind hnone
  intro error hmember
  have htop := topLevelMembers_eq passesNumbers_parts htext hascii hnodup
  have hspan := memberSpan_of_member passesNumbers_parts htop hmember
  rw [memberSpan_texts, hnone] at hspan
  cases hspan

/-- The error of a response is taken out if its message has no escaped pair of surrogates and no
key occurs twice in it; otherwise nothing is. -/
theorem error_agrees {entries : List (List UInt8 × LexNode)}
    (hresult : hasMember (members.map entry) (utf8 "result") = false)
    (herror : lexMember (members.map entry) (utf8 "error") = some (.object entries))
    (hok : errorOk entries = .ok true) :
    ((∃ terminal, peerResponseTerminal frame id = .ok terminal) → Decodable frame (.response id)) ∧
      (Decodable frame (.response id) → Agrees frame (.response id)) := by
  rw [hasMember_entries] at hresult
  have hnone : findMember members (utf8 "result") = none := by simpa using hresult
  obtain ⟨error, hfind, hvalue⟩ := find_of_lexMember herror
  have hmember := memberOf_find htext hfind
  have hterminal := peerResponseTerminal_error hutf8 htext hnodup hascii hid hnone hfind
  have htop := topLevelMembers_eq passesNumbers_parts htext hascii hnodup
  have hreads := htext.reads (findMember_spec hfind).1
  rw [hvalue] at hreads
  obtain ⟨errorMembers, herrorText, rfl⟩ := objectText_of_reads (.done _) hreads
  constructor
  · rintro ⟨terminal, hsome⟩ other hother
    have hspan := memberSpan_of_member passesNumbers_parts htop hother
    rw [memberSpan_of_member passesNumbers_parts htop hmember] at hspan
    rw [← some.inj hspan]
    rw [hterminal] at hsome
    exact decodable_of_errorTerminal herrorText hok hsome
  intro hall
  obtain ⟨hdistinct, hmessage⟩ := hall error hmember
  obtain ⟨code, message, data, hsays, hremote⟩ :=
    errorTerminal_says herrorText hok (hdistinct errorMembers herrorText) hmessage
  exact .inr ⟨error, code, message, data, hmember, hsays, hterminal.trans hremote⟩

end response

/-- What the profile takes out of a response, if anything, is that of the classified members. -/
theorem response_agrees {frame id : List UInt8}
    (h : classifyJsonrpc20TextFrame frame = some (.response id)) :
    ((∃ terminal, peerResponseTerminal frame id = .ok terminal) → Decodable frame (.response id)) ∧
      (Decodable frame (.response id) → Agrees frame (.response id)) := by
  obtain ⟨hutf8, members, htext, hnodup, hresponse | hrequest⟩ := classified h trivial
  · obtain hclose | ⟨other, hother, hid, hcases⟩ := classifyResponse_cases hresponse
    · cases hclose
    cases hother
    obtain ⟨hresult, herror, honly⟩ | ⟨hresult, honly, entries, herror, hok⟩ := hcases
    · have hascii := ascii_of_only honly fun key hkey => ascii_of_all (by
        revert key
        decide +kernel)
      have hboth := result_agrees hutf8 htext hnodup hascii hid hresult herror
      exact ⟨fun _ => hboth.2, fun _ => hboth.1⟩
    have hascii := ascii_of_only honly fun key hkey => ascii_of_all (by
      revert key
      decide +kernel)
    exact error_agrees hutf8 htext hnodup hascii hid hresult herror hok
  obtain hclose | ⟨method, hnotification⟩ | ⟨-, other, -, hparams | ⟨method, node, hrequest, -⟩⟩ :=
    classifyRequestOrNotification_cases hrequest
  · cases hclose
  · cases hnotification
  · cases hparams
  · cases hrequest

/-- For every frame and every answer of the classifier, the router takes the payload of the
classified members out of the text exactly if no text that it decodes has an escaped pair of
surrogates and no error a key twice. -/
theorem extraction_agrees_iff {frame : List UInt8} {action : ProfileAction}
    (h : classifyJsonrpc20TextFrame frame = some action) :
    Agrees frame action ↔ Decodable frame action := by
  by_cases hextracts : Extracts action
  · obtain ⟨hutf8, members, htext, hnodup, hresponse | hrequest⟩ := classified h hextracts
    · obtain rfl | ⟨id, rfl, -⟩ := classifyResponse_cases hresponse
      · cases hextracts
      have hboth := response_agrees h
      refine ⟨fun hagrees => hboth.1 ?_, hboth.2⟩
      obtain ⟨result, -, hsuccess⟩ | ⟨error, code, message, data, -, -, hremote⟩ := hagrees
      · exact ⟨_, hsuccess⟩
      · exact ⟨_, hremote⟩
    obtain rfl | ⟨method, rfl⟩ | ⟨honly, id, hid, hcases⟩ :=
      classifyRequestOrNotification_cases hrequest
    · cases hextracts
    · cases hextracts
    have hascii := ascii_of_only honly fun key hkey => ascii_of_all (by
      revert key
      decide +kernel)
    obtain rfl | ⟨method, node, rfl, hparams⟩ := hcases
    · exact invalidParams_agrees_iff hutf8 htext hnodup hascii hid
    · obtain ⟨params, hfind, -⟩ := find_of_lexMember hparams
      refine ⟨fun _ => trivial, fun _ => ⟨params, memberOf_find htext hfind, ?_⟩⟩
      exact extractRequestParams_eq hutf8 htext hnodup hascii hfind
  -- The other actions carry nothing that the router takes out of the text.
  cases action with
  | request | response => exact absurd trivial hextracts
  | notification | close => exact Iff.rfl
  | platformError kind =>
    cases kind with
    | invalidParams => exact absurd trivial hextracts
    | _ => exact Iff.rfl

/-- An error response with a plain message. -/
def plainError : List UInt8 :=
  utf8 "\x7b\"jsonrpc\":\"2.0\",\"id\":\"a\",\"error\":\x7b\"code\":1,\"message\":\"x\"\x7d\x7d"

theorem extraction_agrees_plain :
    Agrees plainError (.response (utf8 "a")) ↔ Decodable plainError (.response (utf8 "a")) :=
  extraction_agrees_iff (by decide +kernel)

/-- An error response with the message `"\ud83d\ude00"`. -/
def pairedError : List UInt8 :=
  utf8 ("\x7b\"jsonrpc\":\"2.0\",\"id\":\"a\",\"error\":\x7b\"code\":1," ++
    "\"message\":\"\\ud83d\\ude00\"\x7d\x7d")

/-- The classifier accepts the response, and the profile refuses its message. -/
theorem extraction_refuses_pair :
    classifyJsonrpc20TextFrame pairedError = some (.response (utf8 "a")) ∧
      peerResponseTerminal pairedError (utf8 "a") =
        .error (.invalid "response error message must be a string") := by
  decide +kernel

end Skiff.WebSocket
