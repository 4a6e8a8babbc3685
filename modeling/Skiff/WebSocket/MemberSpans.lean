import Skiff.WebSocket.Classify

/-!
# The member scanners of the router

The router takes the payload of a classified frame out of its text with scanners of its own,
one in the profile (`router/src/ws/profile.rs`) and one in the broker
(`router/src/ws/broker.rs`). They differ only in how they pass over a number. A cursor is
what is left of the source.
-/

namespace Skiff.WebSocket

open Json

/-- The text between a cursor and a later one. -/
def spanText (source rest : List UInt8) : List UInt8 := source.take (source.length - rest.length)

/-! ## Spans -/

/-- The loop of `scan_string_span`, after the opening quote. -/
def scanStringBody : List UInt8 → Option (List UInt8)
  | [] => none
  | byte :: rest =>
    if byte = 0x22 then some rest
    else if byte = 0x5c then
      match rest with
      | [] => none
      | _ :: rest => scanStringBody rest
    else if byte < 0x20 then none
    else scanStringBody rest

def scanStringSpan : List UInt8 → Option (List UInt8)
  | [] => none
  | byte :: rest => if byte = 0x22 then scanStringBody rest else none

/-- The loop over the bytes of an array or an object. The profile subtracts without a check,
but the loop starts at an opening bracket, so that the depth is never zero at a closing one. -/
def scanContainer : Nat → Bool → List UInt8 → Option (List UInt8)
  | _, _, [] => none
  | depth, true, current :: rest =>
    if current = 0x5c then
      match rest with
      | [] => none
      | _ :: rest => scanContainer depth true rest
    else scanContainer depth (current ≠ 0x22) rest
  | depth, false, current :: rest =>
    if current = 0x22 then scanContainer depth true rest
    else if current = 0x7b || current = 0x5b then scanContainer (depth + 1) false rest
    else if current = 0x7d || current = 0x5d then
      match depth with
      | 0 => none
      | next + 1 => if next = 0 then some rest else scanContainer next false rest
    else scanContainer depth false rest

def consumeAt (literal source : List UInt8) : Option (List UInt8) :=
  if source.take literal.length = literal then some (source.drop literal.length) else none

/-- The broker passes over a number byte by byte. -/
def scanNumberBytes (source : List UInt8) : List UInt8 := source.dropWhile numeralByte

/-- The profile passes over a number part by part. -/
def scanNumberParts (source : List UInt8) : List UInt8 :=
  let source := (lexSign (· = 0x2d) source).2.dropWhile isDigit
  let source := if source.head? = some 0x2e then source.tail.dropWhile isDigit else source
  if source.head? = some 0x65 ∨ source.head? = some 0x45 then
    (lexSign (fun b => b = 0x2b || b = 0x2d) source.tail).2.dropWhile isDigit
  else source

section members

variable (scanNumber : List UInt8 → List UInt8)

def scanValueSpan (source : List UInt8) : Option (List UInt8) :=
  match skipWs source with
  | [] => none
  | byte :: rest =>
    if byte = 0x7b || byte = 0x5b then scanContainer 0 false (byte :: rest)
    else if byte = 0x22 then scanStringSpan (byte :: rest)
    else if byte = 0x74 then consumeAt [0x74, 0x72, 0x75, 0x65] (byte :: rest)
    else if byte = 0x66 then consumeAt [0x66, 0x61, 0x6c, 0x73, 0x65] (byte :: rest)
    else if byte = 0x6e then consumeAt [0x6e, 0x75, 0x6c, 0x6c] (byte :: rest)
    else if byte = 0x2d || isDigit byte then
      if (scanNumber (byte :: rest)).length < (byte :: rest).length then
        some (scanNumber (byte :: rest))
      else none
    else none

/-! ## Members -/

/-- The loop of `decode_json_string`: the last byte is the closing quote. Four digits are read
as the classifier reads them. -/
def decodeJsonLoop : Nat → List UInt8 → List UInt8 → Option (List UInt8)
  | 0, _, _ => none
  | _ + 1, out, [] => some out
  | _ + 1, out, [_] => some out
  | fuel + 1, out, byte :: next :: rest =>
    if byte = 0x5c then
      match simpleEscape next with
      | some decoded => decodeJsonLoop fuel (out ++ [decoded]) rest
      | none =>
        if next = 0x75 then
          match lexHex rest with
          | .error _ => none
          | .ok (codepoint, rest) =>
            match charFromU32 codepoint with
            | none => none
            | some c => decodeJsonLoop fuel (out ++ String.utf8EncodeChar c) rest
        else none
    else if byte < 0x20 then none
    else
      match utf8SequenceLen byte with
      | none => none
      | some len =>
        decodeJsonLoop fuel (out ++ (byte :: next :: rest).take len)
          ((byte :: next :: rest).drop len)

def decodeJsonString (raw : List UInt8) : Option (List UInt8) :=
  if raw.head? = some 0x22 ∧ raw.getLast? = some 0x22 then
    decodeJsonLoop (raw.length + 1) [] raw.tail
  else none

/-- The key of a member. -/
def scanKey (source : List UInt8) : Option (List UInt8 × List UInt8) :=
  match scanStringSpan (skipWs source) with
  | none => none
  | some rest => (decodeJsonString (spanText (skipWs source) rest)).map fun key => (key, rest)

/-- The colon and the text of a member's value. -/
def scanMemberValue (source : List UInt8) : Option (List UInt8 × List UInt8) :=
  match skipWs source with
  | [] => none
  | byte :: value =>
    if byte ≠ 0x3a then none
    else
      (scanValueSpan scanNumber (skipWs value)).map fun rest => (spanText (skipWs value) rest, rest)

/-- The loop of `top_level_members`: the keys, each with the text of its value. -/
def membersLoop : Nat → List (List UInt8) → List UInt8 → Option (List (List UInt8 × List UInt8))
  | 0, _, _ => none
  | fuel + 1, seen, source =>
    match scanKey source with
    | none => none
    | some (key, rest) =>
      if key ∈ seen then none
      else
        match scanMemberValue scanNumber rest with
        | none => none
        | some (text, rest) =>
          match skipWs rest with
          | [] => none
          | byte :: rest =>
            if byte = 0x2c then (membersLoop fuel (key :: seen) rest).map ((key, text) :: ·)
            else if byte = 0x7d then some [(key, text)]
            else none

def topLevelMembers (source : List UInt8) : Option (List (List UInt8 × List UInt8)) :=
  match skipWs source with
  | [] => none
  | byte :: rest =>
    if byte ≠ 0x7b then none
    else if (skipWs rest).head? = some 0x7d then some []
    else membersLoop scanNumber (rest.length + 1) [] (skipWs rest)

end members

def memberSpan (members : List (List UInt8 × List UInt8)) (key : List UInt8) :
    Option (List UInt8) :=
  (members.find? (·.1 = key)).map Prod.snd

def trimmedByte (b : UInt8) : Bool := b = 0x20 || 0x09 ≤ b && b ≤ 0x0d

/-- `str::trim` of the text of a value, which starts and ends with an ASCII byte. -/
def trim (text : List UInt8) : List UInt8 :=
  ((text.dropWhile trimmedByte).reverse.dropWhile trimmedByte).reverse

/-- The copy of `parse_safe_integer` in the profile. -/
def parseSafeIntegerI64 (lexeme : List UInt8) : Except Overflow (Option Int) :=
  if lexeme = [] then .ok none else parseSafeInteger lexeme

/-! ## The broker -/

def extractRequestParams (frame : List UInt8) : Option (List UInt8) :=
  if isUtf8 frame then
    (topLevelMembers scanNumberBytes frame).bind fun members => memberSpan members (utf8 "params")
  else none

def parsePeerIdBytes (raw : List UInt8) : Except Overflow (Option LexPeerId) :=
  if raw.head? = some 0x22 then
    match decodeJsonString raw with
    | none => .ok none
    | some value => .ok (if value = [] ∨ 1024 < value.length then none else some (.string value))
  else (parseSafeIntegerI64 raw).map (·.map .safeInteger)

def extractPeerId (frame : List UInt8) : Except Overflow (Option LexPeerId) :=
  if isUtf8 frame then
    match (topLevelMembers scanNumberBytes frame).bind fun members =>
        memberSpan members (utf8 "id") with
    | none => .ok none
    | some text => parsePeerIdBytes (trim text)
  else .ok none

/-! ## The profile -/

/-- `PeerResponseTerminal`, with its message as the bytes that the scanner decodes. -/
inductive PeerResponseTerminalText where
  | success (result : List UInt8)
  | remoteError (code : Int) (message : List UInt8) (data : Option (List UInt8))
deriving DecidableEq

/-- Why there is no terminal: an error of the source, or a call that does not return. -/
inductive TerminalError where
  | invalid (text : String)
  | overflow
deriving DecidableEq

/-- The terminal of an `error` member. -/
def errorTerminal (errorSource : List UInt8) : Except TerminalError PeerResponseTerminalText :=
  match topLevelMembers scanNumberParts errorSource with
  | none => .error (.invalid "response error must be a JSON object")
  | some members =>
    if 3 < members.length then .error (.invalid "response error object has extra members")
    else
      match memberSpan members (utf8 "code") with
      | none => .error (.invalid "response error requires code")
      | some codeText =>
        match memberSpan members (utf8 "message") with
        | none => .error (.invalid "response error requires message")
        | some messageText =>
          match parseSafeIntegerI64 (trim codeText) with
          | .error _ => .error .overflow
          | .ok none => .error (.invalid "response error code must be a safe integer")
          | .ok (some code) =>
            match decodeJsonString (trim messageText) with
            | none => .error (.invalid "response error message must be a string")
            | some message =>
              if message = [] ∨ websocketJsonrpcMaxStringBytes < message.length then
                .error (.invalid "response error message must be non-empty and bounded")
              else .ok (.remoteError code message (memberSpan members (utf8 "data")))

/-- The broker's profile has the default limits. -/
def peerResponseTerminal (frame id : List UInt8) : Except TerminalError PeerResponseTerminalText :=
  if id = [] then .error (.invalid "response id must be non-empty")
  else if !isUtf8 frame then .error (.invalid "response frame must be valid UTF-8")
  else
    match topLevelMembers scanNumberParts frame with
    | none => .error (.invalid "response frame must be a single JSON object")
    | some members =>
      match memberSpan members (utf8 "result"), memberSpan members (utf8 "error") with
      | some result, none => .ok (.success result)
      | none, some error => errorTerminal error
      | _, _ => .error (.invalid "response must contain exactly one of result or error")

end Skiff.WebSocket
