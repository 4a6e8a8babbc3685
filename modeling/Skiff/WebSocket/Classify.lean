import Skiff.WebSocket.LexNode
import Skiff.WebSocket.Profile

/-!
# Classification of peer texts

The lexical classification of the `jsonrpc-2.0-text` profile
(`runtime/transport/src/connection_protocol.rs`): what a frame is, by its top-level members.
-/

namespace Skiff.WebSocket

open Json

def connectionRequestMaxMethodBytes : Nat := 256
def maxIdentifierBytes : Nat := 1024
def javascriptMaxSafeInteger : Int := 9007199254740991

/-- The UTF-8 of a string. -/
def utf8 (s : String) : List UInt8 := s.toList.flatMap String.utf8EncodeChar

/-- A peer id as the classifier accepts it. -/
inductive LexPeerId where
  | string (value : List UInt8)
  | safeInteger (value : Int)
deriving DecidableEq

inductive ProfileAction where
  | request (id : LexPeerId) (method : List UInt8)
  | notification (method : List UInt8)
  | response (id : List UInt8)
  | platformError (kind : PlatformErrorKind)
  | close (code : Nat)
deriving DecidableEq

/-! ## Safe integers -/

/-- The sign, the coefficient, the exponent and the number of fractional digits of a lexeme.
The sign of the exponent is read over. -/
def splitNumberLexeme (lexeme : List UInt8) : Option (Bool × List UInt8 × List UInt8 × Nat) := do
  let negative := lexeme.head? = some 0x2d
  let source := if negative then lexeme.tail else lexeme
  let integer := source.takeWhile isDigit
  if integer = [] then none
  else
    let source := source.dropWhile isDigit
    let (fraction, source) ←
      if source.head? = some 0x2e then
        let digits := source.tail.takeWhile isDigit
        if digits = [] then none else some (digits, source.tail.dropWhile isDigit)
      else some ([], source)
    let (exponent, source) ←
      if source.head? = some 0x65 ∨ source.head? = some 0x45 then
        let signed := source.tail
        let digitsFrom :=
          if signed.head? = some 0x2b ∨ signed.head? = some 0x2d then signed.tail else signed
        let digits := digitsFrom.takeWhile isDigit
        if digits = [] then none else some (digits, digitsFrom.dropWhile isDigit)
      else some ([0x30], source)
    if source ≠ [] then none
    else some (negative, integer ++ fraction, exponent, fraction.length)

/-- The number that decimal digits stand for. -/
def digitsValue (digits : List UInt8) : Nat :=
  digits.foldl (fun value digit => 10 * value + (digit.toNat - 0x30)) 0

/-- `i128::MAX`. -/
def i128Max : Int := 170141183460469231731687303715884105727

/-- `parse::<i128>` of decimal digits. -/
def parseI128 (digits : List UInt8) : Option Int :=
  if digits = [] then none
  else if (digitsValue digits : Int) ≤ i128Max then some (digitsValue digits) else none

def trimZeros (digits : List UInt8) : List UInt8 := digits.dropWhile (· = 0x30)

/-- A sum beyond the range of its type: the call panics, or where overflow is not checked it
pads a number with zeros until memory ends. It does not return. -/
inductive Overflow where
  | overflow
deriving DecidableEq

/-- The digits of a number that is not zero, scaled by a power of ten, if it is an integer. -/
def exactDigits (coefficient : List UInt8) (scale : Int) : Except Overflow (Option (List UInt8)) :=
  if 0 ≤ scale then
    let significant := trimZeros coefficient
    if i128Max < (significant.length : Int) + scale then .error .overflow
    else if 16 < (significant.length : Int) + scale then .ok none
    else .ok (some (significant ++ List.replicate scale.toNat 0x30))
  else
    let removedCount := (-scale).toNat
    if coefficient.length < removedCount then .ok none
    else if (coefficient.drop (coefficient.length - removedCount)).any (· ≠ 0x30) then .ok none
    else .ok (some (trimZeros (coefficient.take (coefficient.length - removedCount))))

/-- The signed number, if it is safe. -/
def safeInteger (negative : Bool) (digits : List UInt8) : Option Int :=
  if digits = [] then some 0
  else
    match parseI128 digits with
    | none => none
    | some magnitude =>
      let exact := if negative then -magnitude else magnitude
      if javascriptMaxSafeInteger < exact ∨ exact < -javascriptMaxSafeInteger then none
      else some exact

def parseSafeInteger (lexeme : List UInt8) : Except Overflow (Option Int) :=
  match splitNumberLexeme lexeme with
  | none => .ok none
  | some (negative, coefficient, exponent, fractionLen) =>
    if coefficient.all (· = 0x30) then .ok (some 0)
    else
      match parseI128 exponent with
      | none => .ok none
      | some exponent =>
        (exactDigits coefficient (exponent - fractionLen)).map fun digits =>
          digits.bind (safeInteger negative)

/-! ## Members -/

def lexMember (members : List (List UInt8 × LexNode)) (key : List UInt8) : Option LexNode :=
  (members.find? (·.1 = key)).map Prod.snd

def hasMember (members : List (List UInt8 × LexNode)) (key : List UInt8) : Bool :=
  members.any (·.1 = key)

def onlyMembers (members : List (List UInt8 × LexNode)) (allowed : List (List UInt8)) : Bool :=
  members.all (allowed.contains ·.1)

/-- `member("jsonrpc") == Some("2.0")`. -/
def isVersion2 (members : List (List UInt8 × LexNode)) : Bool :=
  match lexMember members (utf8 "jsonrpc") with
  | some (.string value) => value = utf8 "2.0"
  | _ => false

def parsePeerId : Option LexNode → Except Overflow (Option LexPeerId)
  | some (.string value) =>
    .ok (if value ≠ [] ∧ value.length ≤ maxIdentifierBytes then some (.string value) else none)
  | some (.number lexeme) => (parseSafeInteger lexeme).map (·.map .safeInteger)
  | _ => .ok none

def classifyRequestOrNotification (members : List (List UInt8 × LexNode)) :
    Except Overflow ProfileAction :=
  let hasId := hasMember members (utf8 "id")
  let allowed :=
    if hasId then [utf8 "jsonrpc", utf8 "id", utf8 "method", utf8 "params"]
    else [utf8 "jsonrpc", utf8 "method", utf8 "params"]
  if !onlyMembers members allowed || !isVersion2 members then .ok (.platformError .invalidRequest)
  else
    match lexMember members (utf8 "method") with
    | some (.string method) =>
      if method = [] ∨ connectionRequestMaxMethodBytes < method.length then
        .ok (.platformError .invalidRequest)
      else if !hasId then .ok (.notification method)
      else do
        let id ← parsePeerId (lexMember members (utf8 "id"))
        match id with
        | none => .ok (.platformError .invalidRequest)
        | some id =>
          match lexMember members (utf8 "params") with
          | some (.object _) | some (.array _) => .ok (.request id method)
          | _ => .ok (.platformError .invalidParams)
    | _ => .ok (.platformError .invalidRequest)

/-- `matches!(error_member("code"), …)`. -/
def codeOk : Option LexNode → Except Overflow Bool
  | some (.number lexeme) => (parseSafeInteger lexeme).map Option.isSome
  | _ => .ok false

def messageOk : Option LexNode → Bool
  | some (.string message) => message ≠ [] && message.length ≤ websocketJsonrpcMaxStringBytes
  | _ => false

/-- The checks of an error object. -/
def errorOk (error : List (List UInt8 × LexNode)) : Except Overflow Bool := do
  let fields := onlyMembers error [utf8 "code", utf8 "message", utf8 "data"]
  let code ← codeOk (lexMember error (utf8 "code"))
  let message := messageOk (lexMember error (utf8 "message"))
  .ok (fields && code && message)

def classifyResponse (members : List (List UInt8 × LexNode)) : Except Overflow ProfileAction :=
  let hasResult := hasMember members (utf8 "result")
  let hasError := hasMember members (utf8 "error")
  if hasResult = hasError || !isVersion2 members then .ok (.close 1002)
  else
    match lexMember members (utf8 "id") with
    | some (.string id) =>
      if id = [] ∨ maxIdentifierBytes < id.length then .ok (.close 1002)
      else if hasResult then
        if onlyMembers members [utf8 "jsonrpc", utf8 "id", utf8 "result"] then .ok (.response id)
        else .ok (.close 1002)
      else if !onlyMembers members [utf8 "jsonrpc", utf8 "id", utf8 "error"] then .ok (.close 1002)
      else
        match lexMember members (utf8 "error") with
        | some (.object error) => do
          let valid ← errorOk error
          .ok (if valid then .response id else .close 1002)
        | _ => .ok (.close 1002)
    | _ => .ok (.close 1002)

/-- The classification of a node that is the whole text. -/
def classifyNode : LexNode → Except Overflow ProfileAction
  | .object members =>
    if ¬ (members.map Prod.fst).Nodup then .ok (.platformError .invalidRequest)
    else if hasMember members (utf8 "result") || hasMember members (utf8 "error") ||
        (hasMember members (utf8 "id") && !hasMember members (utf8 "method")) then
      classifyResponse members
    else if hasMember members (utf8 "method") then classifyRequestOrNotification members
    else .ok (.platformError .invalidRequest)
  | _ => .ok (.platformError .invalidRequest)

/-- The parse of a frame. Each node is read with less fuel than the text it is read from. -/
def parseFrame (frame : List UInt8) : Lexed (LexNode × List UInt8 × LexBudget) :=
  parseLexNode (2 * frame.length + 1) frame ⟨0, 0⟩

/-- The classification of a frame, if it returns. -/
def classifyJsonrpc20TextFrame (frame : List UInt8) : Option ProfileAction :=
  if websocketJsonrpcMaxTextBytes < frame.length then some (.close 1009)
  else if !isUtf8 frame then some (.close 1009)
  else
    match parseFrame frame with
    | .ok (node, rest, _) =>
      if rest = [] then (classifyNode node).toOption else some (.platformError .parse)
    | .error (some .parse) => some (.platformError .parse)
    | .error (some .budget) => some (.close 1009)
    | .error none => none

end Skiff.WebSocket
