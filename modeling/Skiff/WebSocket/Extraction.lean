import Skiff.WebSocket.MemberTexts

/-!
# What the router takes out of a classified frame

For each frame that the classifier accepts as a request, as a response or as a request with
invalid params, the payload that the scanners take out of the text is compared with the
members that the frame is read as.
-/

namespace Skiff.WebSocket

open Json LexMember Except List

/-! ## Members of a text -/

variable {entries : List (List UInt8 × LexNode)}

theorem objectText_of_reads {source inner : List UInt8}
    (hws : ReadsWs source inner) (h : Reads accepted (.value (.object entries)) inner []) :
    ∃ members, ObjectText source members ∧ entries = members.map entry := by
  cases h with
  | name h => cases h
  | emptyObject ws => exact ⟨[], ⟨_, _, hws, ws, .inl ⟨rfl, rfl⟩⟩, rfl⟩
  | object ws h => exact ⟨_, ⟨_, _, hws, ws, .inr h⟩, rfl⟩

variable {g : JsonGrammar}

/-- Each member is read from its own text. -/
theorem reads_of_mem {part : Part} {source rest : List UInt8}
    (h : Reads g part source rest) (members : List LexMember) (hpart : part = .members members) :
    ∀ member ∈ members, Reads g (.value member.value) member.source [] := by
  induction h generalizing members with
  | lastMember _ _ _ h _ _ =>
    cases hpart
    intro member hmember
    rw [mem_singleton.mp hmember]
    exact h.text
  | member _ _ _ h _ _ _ _ _ ih' =>
    cases hpart
    intro member hmember
    obtain rfl | hmember := mem_cons.mp hmember
    · exact h.text
    · exact ih' _ rfl member hmember
  | _ => cases hpart

variable {members : List LexMember} {member : LexMember}

theorem ObjectText.reads {source : List UInt8}
    (h : ObjectText source members) (hmember : member ∈ members) :
    Reads accepted (.value member.value) member.source [] := by
  obtain ⟨inner, body, -, -, ⟨rfl, -⟩ | hmembers⟩ := h
  · cases hmember
  · exact reads_of_mem hmembers members rfl member hmember

def findMember (members : List LexMember) (key : List UInt8) : Option LexMember :=
  members.find? (·.key = key)

theorem lexMember_entries (members : List LexMember) (key : List UInt8) :
    lexMember (members.map entry) key = (findMember members key).map value := by
  rw [lexMember, find?_map, Option.map_map]
  rfl

theorem memberSpan_texts (members : List LexMember) (key : List UInt8) :
    memberSpan (members.map memberText) key = (findMember members key).map source := by
  rw [memberSpan, find?_map, Option.map_map]
  rfl

theorem hasMember_entries (members : List LexMember) (key : List UInt8) :
    hasMember (members.map entry) key = (findMember members key).isSome := by
  rw [hasMember, any_map, findMember, isSome_find?]
  rfl

theorem findMember_spec {key : List UInt8}
    (h : findMember members key = some member) : member ∈ members ∧ member.key = key :=
  ⟨mem_of_find?_eq_some h, by simpa using find?_some h⟩

theorem findMember_of_mem (hnodup : (members.map key).Nodup) (hmember : member ∈ members) :
    findMember members member.key = some member := by
  induction members with
  | nil => cases hmember
  | cons first members ih =>
    rw [map_cons, nodup_cons] at hnodup
    obtain rfl | hmember := mem_cons.mp hmember
    · rw [findMember, find?_cons_of_pos (by simp)]
    have hne : first.key ≠ member.key := by
      intro heq
      exact hnodup.1 (heq ▸ mem_map_of_mem hmember)
    rw [findMember, find?_cons_of_neg (by simpa using hne)]
    exact ih hnodup.2 hmember

theorem ascii_of_only {allowed : List (List UInt8)}
    (h : onlyMembers (members.map entry) allowed = true)
    (hascii : ∀ key ∈ allowed, Ascii key) : ∀ member ∈ members, Ascii member.key := by
  intro member hmember
  rw [onlyMembers, all_map, all_eq_true] at h
  have hallowed : allowed.contains member.key = true := h member hmember
  exact hascii _ (by simpa using hallowed)

theorem ascii_of_all {key : List UInt8} (h : key.all (fun b => decide (b.toNat < 0x80)) = true) :
    Ascii key := by
  intro b hb
  simpa using all_eq_true.mp h b hb

/-! ## Texts of values -/

variable {text : List UInt8}

theorem trim_eq (hhead : HeadNot trimmedByte text)
    (hlast : HeadNot trimmedByte text.reverse) : trim text = text := by
  rw [trim, dropWhile_of_headNot hhead, dropWhile_of_headNot hlast, reverse_reverse]

theorem headNot_of_all {p : UInt8 → Bool} (h : ∀ b ∈ text, p b = false) : HeadNot p text := by
  rintro b rest rfl
  exact h b (.head _)

theorem trim_number {lexeme : List UInt8} (h : IsNumber lexeme) : trim lexeme = lexeme := by
  have hall : ∀ b ∈ lexeme, trimmedByte b = false := by
    intro b hb
    have hbetween := numeralByte_cases (h.bytes b hb)
    simp only [trimmedByte, Bool.or_eq_false_iff, Bool.and_eq_false_iff, decide_eq_false_iff_not,
      UInt8.le_iff_toNat_le, UInt8.reduceToNat, Nat.not_le]
    obtain hdigit | rfl | rfl | rfl | rfl | rfl := hbetween
    · refine ⟨?_, by omega⟩
      rintro rfl
      exact absurd hdigit (by decide)
    · decide
    · decide
    · decide
    · decide
    · decide
  exact trim_eq (headNot_of_all hall) (headNot_of_all fun b hb => hall b (mem_reverse.mp hb))

variable {value chars : List UInt8}

theorem trim_string (h : ReadsChars g value chars []) : trim (0x22 :: chars) = 0x22 :: chars := by
  obtain ⟨body, rfl⟩ := readsChars_body h
  apply trim_eq
  · exact .cons rfl _
  rw [reverse_cons, reverse_append]
  exact .cons rfl _

theorem reads_string {value source rest : List UInt8}
    (h : Reads g (.value (.string value)) source rest) :
    ∃ chars, source = 0x22 :: chars ∧ ReadsChars g value chars rest := by
  cases h with
  | name h => cases h
  | string h => exact ⟨_, rfl, h⟩

theorem reads_number {lexeme source rest : List UInt8}
    (h : Reads g (.value (.number lexeme)) source rest) :
    source = lexeme ++ rest ∧ IsNumber lexeme := by
  cases h with
  | name h => cases h
  | number h => exact ⟨rfl, h⟩

theorem reads_quote {node : LexNode} {source chars rest : List UInt8}
    (h : Reads g (.value node) source rest) (hsource : source = 0x22 :: chars) :
    ∃ value, ReadsChars g value chars rest := by
  cases h with
  | name h => cases h <;> cases hsource
  | number h =>
    obtain ⟨first, others, rfl, rfl | hfirst⟩ := h.cons
    · cases hsource
    rw [cons_append] at hsource
    rw [(cons.inj hsource).1] at hfirst
    cases hfirst
  | string h =>
    cases hsource
    exact ⟨_, h⟩
  | emptyArray | array | emptyObject | object => cases hsource

/-- The text has no escaped pair of surrogates in a string. -/
def Unpaired (text : List UInt8) : Prop := IsJson unpaired text

/-- A string is decoded, to what it says, exactly if it has no escaped pair of surrogates. -/
theorem decodeJsonString_iff (h : ReadsChars accepted value chars []) :
    (decodeJsonString (0x22 :: chars) = some value ↔ Unpaired (0x22 :: chars)) ∧
      ∀ decoded, decodeJsonString (0x22 :: chars) = some decoded → decoded = value := by
  have hread := decodeJsonString_of_reads accepted_le h
  constructor
  · constructor
    · intro hvalue
      obtain ⟨-, hchars⟩ | ⟨-, hnone⟩ := hread
      · exact ⟨.string value, _, [], .done _, .string hchars, .done _, fun _ => rfl⟩
      rw [hnone] at hvalue
      cases hvalue
    rintro ⟨node, inner, rest, hws, hreads, -, hend⟩
    obtain rfl := hend rfl
    have hinner : inner = 0x22 :: chars := by
      cases hws with
      | done => rfl
      | more ws _ => cases ws
    obtain ⟨value', hchars⟩ := reads_quote hreads hinner
    obtain ⟨hvalue', -⟩ | ⟨hpair, -⟩ := decodeJsonString_of_reads unpaired_le hchars
    · obtain ⟨hvalue, -⟩ | ⟨-, hnone⟩ := hread
      · exact hvalue
      rw [hnone] at hvalue'
      cases hvalue'
    · cases hpair
  intro decoded hdecoded
  obtain ⟨hvalue, -⟩ | ⟨-, hnone⟩ := hread
  · rw [hvalue] at hdecoded
    exact (Option.some.inj hdecoded).symm
  rw [hnone] at hdecoded
  cases hdecoded

/-- The broker reads the id that the classifier accepted, exactly if the text of the id has no
escaped pair of surrogates. -/
theorem parsePeerIdBytes_iff {node : LexNode} {id : LexPeerId}
    (h : Reads accepted (.value node) text []) (hid : parsePeerId (some node) = .ok (some id)) :
    parsePeerIdBytes (trim text) = .ok (some id) ↔ Unpaired text := by
  cases node with
  | string value =>
    obtain ⟨chars, rfl, hchars⟩ := reads_string h
    rw [trim_string hchars, parsePeerIdBytes, head?_cons, if_pos rfl]
    obtain ⟨hiff, hsame⟩ := decodeJsonString_iff hchars
    rw [← hiff]
    rw [parsePeerId] at hid
    split at hid
    case isTrue hbounds =>
      obtain rfl := Option.some.inj (ok.inj hid)
      cases hdecode : decodeJsonString (0x22 :: chars) with
      | none => simp
      | some decoded =>
        obtain rfl := hsame decoded hdecode
        have hlong : ¬ (decoded = [] ∨ 1024 < decoded.length) := by
          rintro (hnil | hlong)
          · exact hbounds.1 hnil
          · exact absurd hbounds.2 (Nat.not_le.mpr hlong)
        simp only [if_neg hlong]
    · cases hid
  | number lexeme =>
    obtain ⟨heq, hnumber⟩ := reads_number h
    rw [append_nil] at heq
    subst heq
    have hnil : text ≠ [] := by
      obtain ⟨first, others, rfl, -⟩ := hnumber.cons
      simp
    have hquote : text.head? ≠ some 0x22 := by
      intro hhead
      obtain ⟨others, rfl⟩ := head?_eq_some_iff.mp hhead
      exact absurd (hnumber.bytes 0x22 (.head _)) (by decide)
    rw [trim_number hnumber, parsePeerIdBytes, if_neg hquote, parseSafeIntegerI64, if_neg hnil]
    refine ⟨fun _ => ?_, fun _ => hid⟩
    refine ⟨.number text, text, [], .done _, ?_, .done _, fun _ => rfl⟩
    have hread : Reads unpaired (.value (.number text)) (text ++ []) [] := .number hnumber []
    rwa [append_nil] at hread
  | object | array | bool | null => cases hid

/-! ## Classified frames -/

variable {action : ProfileAction}

theorem classifyRequestOrNotification_cases
    (h : classifyRequestOrNotification entries = .ok action) :
    action = .platformError .invalidRequest ∨ (∃ method, action = .notification method) ∨
      onlyMembers entries [utf8 "jsonrpc", utf8 "id", utf8 "method", utf8 "params"] = true ∧
      ∃ id, parsePeerId (lexMember entries (utf8 "id")) = .ok (some id) ∧
        (action = .platformError .invalidParams ∨ ∃ method node, action = .request id method ∧
          lexMember entries (utf8 "params") = some node) := by
  rw [classifyRequestOrNotification] at h
  cases hid : hasMember entries (utf8 "id") with
  | false =>
    rw [hid, if_neg Bool.false_ne_true] at h
    split at h
    · exact .inl (ok.inj h).symm
    split at h
    case h_2 => exact .inl (ok.inj h).symm
    split at h
    · exact .inl (ok.inj h).symm
    · exact .inr (.inl ⟨_, (ok.inj h).symm⟩)
  | true =>
    rw [hid, if_pos rfl] at h
    split at h
    · exact .inl (ok.inj h).symm
    case isFalse honly =>
    rw [Bool.or_eq_true, not_or, Bool.not_eq_true', Bool.not_eq_false] at honly
    split at h
    case h_2 => exact .inl (ok.inj h).symm
    split at h
    · exact .inl (ok.inj h).symm
    rw [if_neg (by decide)] at h
    obtain ⟨id, hparse, hnext⟩ := bind_eq_ok.mp h
    cases id with
    | none => exact .inl (ok.inj hnext).symm
    | some id =>
      refine .inr (.inr ⟨honly.1, id, hparse, ?_⟩)
      dsimp only at hnext
      split at hnext
      case h_1 hparams | h_2 hparams => exact .inr ⟨_, _, (ok.inj hnext).symm, hparams⟩
      · exact .inl (ok.inj hnext).symm

theorem errorOk_cases {error : List (List UInt8 × LexNode)} (h : errorOk error = .ok true) :
    onlyMembers error [utf8 "code", utf8 "message", utf8 "data"] = true ∧
      (∃ lexeme code, lexMember error (utf8 "code") = some (.number lexeme) ∧
        parseSafeInteger lexeme = .ok (some code)) ∧
      ∃ message, lexMember error (utf8 "message") = some (.string message) ∧ message ≠ [] ∧
        message.length ≤ websocketJsonrpcMaxStringBytes := by
  obtain ⟨code, hcode, hrest⟩ := bind_eq_ok.mp h
  have hall := ok.inj hrest
  rw [Bool.and_eq_true, Bool.and_eq_true] at hall
  obtain ⟨⟨honly, rfl⟩, hmessage⟩ := hall
  refine ⟨honly, ?_, ?_⟩
  · rw [codeOk.eq_def] at hcode
    split at hcode
    case h_1 lexeme hmember =>
      cases hparse : parseSafeInteger lexeme with
      | error => rw [hparse] at hcode; cases hcode
      | ok result =>
        rw [hparse] at hcode
        obtain ⟨code, rfl⟩ := Option.isSome_iff_exists.mp (ok.inj hcode)
        exact ⟨lexeme, code, hmember, hparse⟩
    · cases hcode
  rw [messageOk.eq_def] at hmessage
  split at hmessage
  case h_1 message hmember =>
    rw [Bool.and_eq_true, decide_eq_true_eq, decide_eq_true_eq] at hmessage
    exact ⟨message, hmember, hmessage⟩
  · cases hmessage

theorem classifyResponse_cases (h : classifyResponse entries = .ok action) :
    action = .close 1002 ∨ ∃ id, action = .response id ∧ id ≠ [] ∧
      (hasMember entries (utf8 "result") = true ∧ hasMember entries (utf8 "error") = false ∧
          onlyMembers entries [utf8 "jsonrpc", utf8 "id", utf8 "result"] = true ∨
        hasMember entries (utf8 "result") = false ∧
          onlyMembers entries [utf8 "jsonrpc", utf8 "id", utf8 "error"] = true ∧
          ∃ error, lexMember entries (utf8 "error") = some (.object error) ∧
            errorOk error = .ok true) := by
  rw [classifyResponse] at h
  split at h
  · exact .inl (ok.inj h).symm
  case isFalse hone =>
  rw [Bool.or_eq_true, not_or, decide_eq_true_eq] at hone
  split at h
  case h_2 => exact .inl (ok.inj h).symm
  case h_1 id hid =>
  split at h
  · exact .inl (ok.inj h).symm
  case isFalse hbounds =>
  have hne : id ≠ [] := fun hnil => hbounds (.inl hnil)
  cases hresult : hasMember entries (utf8 "result") with
  | true =>
    rw [hresult, if_pos rfl] at h
    split at h
    case isTrue honly =>
      refine .inr ⟨id, (ok.inj h).symm, hne, .inl ⟨rfl, ?_, honly⟩⟩
      rw [hresult] at hone
      simpa using Ne.symm hone.1
    · exact .inl (ok.inj h).symm
  | false =>
    rw [hresult, if_neg (by decide)] at h
    split at h
    · exact .inl (ok.inj h).symm
    case isFalse honly =>
    split at h
    case h_2 => exact .inl (ok.inj h).symm
    case h_1 error herror =>
    obtain ⟨valid, hvalid, hlast⟩ := bind_eq_ok.mp h
    cases valid with
    | false => exact .inl (ok.inj hlast).symm
    | true =>
      refine .inr ⟨id, (ok.inj hlast).symm, hne, .inr ⟨rfl, ?_, error, herror, hvalid⟩⟩
      simpa using honly

/-- The actions with a payload that the router takes out of the text. -/
def Extracts : ProfileAction → Prop
  | .request _ _ => True
  | .response _ => True
  | .platformError .invalidParams => True
  | _ => False

/-- A frame with such an action is an object with keys that differ. -/
theorem classified {frame : List UInt8}
    (h : classifyJsonrpc20TextFrame frame = some action) (hextracts : Extracts action) :
    isUtf8 frame = true ∧ ∃ members, ObjectText frame members ∧
      (members.map key).Nodup ∧
      (classifyResponse (members.map entry) = .ok action ∨
        classifyRequestOrNotification (members.map entry) = .ok action) := by
  rw [classifyJsonrpc20TextFrame] at h
  split at h
  · cases h
    cases hextracts
  split at h
  · cases h
    cases hextracts
  case isFalse hutf8 =>
  refine ⟨by simpa using hutf8, ?_⟩
  split at h
  case h_2 | h_3 =>
    cases h
    cases hextracts
  case h_4 => cases h
  case h_1 node rest after hparse =>
  split at h
  case isFalse =>
    cases h
    cases hextracts
  case isTrue hrest =>
  subst hrest
  have hnode : classifyNode node = .ok action := by
    cases hresult : classifyNode node with
    | ok result => rw [hresult] at h; exact congrArg _ (Option.some.inj h)
    | error => rw [hresult] at h; cases h
  rw [classifyNode.eq_def] at hnode
  split at hnode
  case h_2 =>
    cases hnode
    cases hextracts
  case h_1 entries =>
  obtain ⟨inner, hws, hreads⟩ := (sound _).node hparse
  obtain ⟨members, htext, rfl⟩ := objectText_of_reads hws hreads
  split at hnode
  case isTrue =>
    cases hnode
    cases hextracts
  case isFalse hnodup =>
  refine ⟨members, htext, by simpa [entry, Function.comp_def] using hnodup, ?_⟩
  split at hnode
  · exact .inl hnode
  split at hnode
  · exact .inr hnode
  cases hnode
  cases hextracts

end Skiff.WebSocket
