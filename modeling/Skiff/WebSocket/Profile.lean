import Skiff.Json.Text

/-!
# Frames to the peer

What the router writes to a peer in the JSON-RPC text profile (`router/src/ws/profile.rs`):
requests, results and platform errors. Payload bytes enter as the text that
`from_utf8_lossy` reads in them. An encoded frame longer than the profile's limit is
refused; a platform error never is, since the ids of peers are bounded.
-/

namespace Skiff.WebSocket

open String Json

/-- The id of a peer's request: a string or a JavaScript safe integer. -/
inductive OpaquePeerId where
  | string (value : String)
  | safeInteger (value : Int)
deriving DecidableEq

def OpaquePeerId.canonicalKey : OpaquePeerId → String
  | .string value => "s:" ++ value
  | .safeInteger value => "n:" ++ toString value

theorem toString_injective {m n : Nat} (h : toString m = toString n) : m = n := by
  have hdigits := congrArg toList h
  change m.repr.toList = n.repr.toList at hdigits
  rw [Nat.toList_repr, Nat.toList_repr] at hdigits
  rw [← @Nat.ofDigitChars_ten_toDigits m, hdigits, Nat.ofDigitChars_ten_toDigits]

theorem isDigit_of_mem_toString {n : Nat} {c : Char} (h : c ∈ (toString n).toList) :
    c.isDigit = true := by
  change c ∈ n.repr.toList at h
  rw [Nat.toList_repr] at h
  exact Nat.isDigit_of_mem_toDigits (by decide) (Nat.le_refl _) h

inductive PlatformErrorKind where
  | parse
  | invalidRequest
  | methodNotFound
  | invalidParams
  | internal
  | serverBusy
  | timeout
deriving DecidableEq

namespace PlatformErrorKind

def code : PlatformErrorKind → Int
  | parse => -32700
  | invalidRequest => -32600
  | methodNotFound => -32601
  | invalidParams => -32602
  | internal => -32603
  | serverBusy => -32000
  | timeout => -32001

def message : PlatformErrorKind → String
  | parse => "Parse error"
  | invalidRequest => "Invalid Request"
  | methodNotFound => "Method not found"
  | invalidParams => "Invalid params"
  | internal => "Internal error"
  | serverBusy => "Server busy"
  | timeout => "Request timed out"

end PlatformErrorKind

def maxTextBytes : Nat := 1024 * 1024

/-- The identifiers that the profile accepts: strings of at most 1024 bytes, not empty, and
safe integers. -/
def OpaquePeerId.Bounded : OpaquePeerId → Prop
  | .string value => value ≠ "" ∧ value.utf8ByteSize ≤ 1024
  | .safeInteger value => value.natAbs ≤ 9007199254740991

def encodeJsonString (value : String) : String :=
  ofList (jsonQuote value.toList)

def encodePeerId : OpaquePeerId → String
  | .string value => encodeJsonString value
  | .safeInteger value => toString value

/-- A frame to the peer. `blank` is what is left when even an error could not be encoded. -/
inductive PeerFrame where
  | request (id : OpaquePeerId) (method params : String)
  | result (id : OpaquePeerId) (result : String)
  | platformError (id : Option OpaquePeerId) (kind : PlatformErrorKind)
  | blank
deriving DecidableEq

/-- The end of a platform error's text, from its error member on. -/
def errorMember (kind : PlatformErrorKind) : String :=
  ",\"error\":\x7b\"code\":" ++ toString kind.code ++ ",\"message\":" ++
    encodeJsonString kind.message ++ "\x7d\x7d"

namespace PeerFrame

/-- The encoded text. -/
def text : PeerFrame → String
  | .request id method params =>
    "\x7b\"jsonrpc\":\"2.0\",\"id\":" ++ encodePeerId id ++ ",\"method\":" ++
      encodeJsonString method ++ ",\"params\":" ++ params ++ "\x7d"
  | .result id value =>
    "\x7b\"jsonrpc\":\"2.0\",\"id\":" ++ encodePeerId id ++ ",\"result\":" ++ value ++ "\x7d"
  | .platformError id kind =>
    "\x7b\"jsonrpc\":\"2.0\",\"id\":" ++ (id.map encodePeerId).getD "null" ++ errorMember kind
  | .blank => ""

/-- The id that a frame names. -/
def peerId? : PeerFrame → Option OpaquePeerId
  | .request id _ _ | .result id _ => some id
  | .platformError id _ => id
  | .blank => none

end PeerFrame

/-- The limit on encoded frames; `none` is an error. -/
def assertEncodedFrame (frame : PeerFrame) : Option PeerFrame :=
  if maxTextBytes < frame.text.utf8ByteSize then none else some frame

def encodeOutboundRequest (id : OpaquePeerId) (method params : String) : Option PeerFrame :=
  if method = "" then none else assertEncodedFrame (.request id method params)

def encodeResult (id : OpaquePeerId) (result : String) : Option PeerFrame :=
  assertEncodedFrame (.result id result)

def encodePlatformError (id : Option OpaquePeerId) (kind : PlatformErrorKind) : Option PeerFrame :=
  assertEncodedFrame (.platformError id kind)

/-! ## Platform errors fit -/

theorem utf8ByteSize_cons (c : Char) (cs : List Char) :
    (ofList (c :: cs)).utf8ByteSize = c.utf8Size + (ofList cs).utf8ByteSize := by
  rw [ofList_cons, utf8ByteSize_append, utf8ByteSize_singleton]

theorem utf8ByteSize_le (s : String) : s.utf8ByteSize ≤ 4 * s.length := by
  have hlist : ∀ cs : List Char, (ofList cs).utf8ByteSize ≤ 4 * cs.length := by
    intro cs
    induction cs with
    | nil => exact Nat.le_refl _
    | cons c cs ih =>
      have hc := c.utf8Size_le_four
      rw [utf8ByteSize_cons, List.length_cons]
      omega
  have hle := hlist s.toList
  rw [ofList_toList, length_toList] at hle
  exact hle

/-- An escape takes at most six ASCII characters; any other character stands for itself. -/
theorem jsonEscape_size (ch : Char) :
    (ofList (jsonEscape ch)).utf8ByteSize ≤ 24 * ch.utf8Size := by
  have hpos : 0 < ch.utf8Size := ch.utf8Size_pos
  have hsix : ∀ cs : List Char, cs.length ≤ 6 →
      (ofList cs).utf8ByteSize ≤ 24 * ch.utf8Size := by
    intro cs hcs
    have hle := utf8ByteSize_le (ofList cs)
    rw [length_ofList] at hle
    omega
  unfold jsonEscape
  split_ifs
  iterate 7 exact hsix _ (by decide)
  · exact hsix _ (Nat.le_refl _)
  · exact hsix _ (by rw [List.length_singleton]; decide)

theorem encodeJsonString_size (value : String) :
    (encodeJsonString value).utf8ByteSize ≤ 24 * value.utf8ByteSize + 2 := by
  have hflat : ∀ cs : List Char, (ofList (cs.flatMap jsonEscape)).utf8ByteSize ≤
      24 * (ofList cs).utf8ByteSize := by
    intro cs
    induction cs with
    | nil => exact Nat.le_refl _
    | cons c cs ih =>
      have hc := jsonEscape_size c
      rw [List.flatMap_cons, ofList_append, utf8ByteSize_append, utf8ByteSize_cons]
      omega
  have hquote : ('"' : Char).utf8Size = 1 := by decide
  have hend : (ofList ['"']).utf8ByteSize = 1 := by decide
  have hinner := hflat value.toList
  rw [ofList_toList] at hinner
  rw [encodeJsonString, jsonQuote, List.cons_append, utf8ByteSize_cons, ofList_append,
    utf8ByteSize_append, hquote, hend]
  omega

theorem toString_int_size {value : Int} (h : value.natAbs ≤ 9007199254740991) :
    (toString value).utf8ByteSize ≤ 68 := by
  have hnat : ∀ n : Nat, n ≤ 9007199254740991 → n.repr.utf8ByteSize ≤ 64 := by
    intro n hn
    have hlength : n.repr.length ≤ 16 := by
      rw [Nat.length_repr_le_iff (by decide)]
      omega
    have hle := utf8ByteSize_le n.repr
    omega
  cases value with
  | ofNat n =>
    have hle := hnat n h
    change n.repr.utf8ByteSize ≤ 68
    omega
  | negSucc n =>
    have hle := hnat (n + 1) h
    change ("-" ++ (n + 1).repr).utf8ByteSize ≤ 68
    rw [utf8ByteSize_append]
    have hminus : "-".utf8ByteSize = 1 := by decide
    omega

theorem encodePeerId_size {id : OpaquePeerId} (h : id.Bounded) :
    (encodePeerId id).utf8ByteSize ≤ 24578 := by
  cases id with
  | string value =>
    have hsize := encodeJsonString_size value
    have hbound := h.2
    change (encodeJsonString value).utf8ByteSize ≤ 24578
    omega
  | safeInteger value =>
    have hsize := toString_int_size h
    change (toString value).utf8ByteSize ≤ 24578
    omega

theorem errorMember_size (kind : PlatformErrorKind) : (errorMember kind).utf8ByteSize ≤ 1000 := by
  cases kind <;> decide +kernel

/-- A platform error to a peer with a bounded id is never too long. -/
theorem encodePlatformError_some {id : OpaquePeerId} (h : id.Bounded) (kind : PlatformErrorKind) :
    encodePlatformError (some id) kind = some (.platformError (some id) kind) := by
  have hid := encodePeerId_size h
  have hmember := errorMember_size kind
  have hhead : "\x7b\"jsonrpc\":\"2.0\",\"id\":".utf8ByteSize = 22 := by decide
  have htext : (PeerFrame.platformError (some id) kind).text.utf8ByteSize =
      22 + (encodePeerId id).utf8ByteSize + (errorMember kind).utf8ByteSize := by
    change ("\x7b\"jsonrpc\":\"2.0\",\"id\":" ++ encodePeerId id ++
      errorMember kind).utf8ByteSize = _
    rw [utf8ByteSize_append, utf8ByteSize_append, hhead]
  have hfits : ¬ maxTextBytes < (PeerFrame.platformError (some id) kind).text.utf8ByteSize := by
    rw [htext, maxTextBytes]
    generalize (encodePeerId id).utf8ByteSize = a at *
    generalize (errorMember kind).utf8ByteSize = b at *
    omega
  rw [encodePlatformError, assertEncodedFrame, if_neg hfits]

end Skiff.WebSocket
