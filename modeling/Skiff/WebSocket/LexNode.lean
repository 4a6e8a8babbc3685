import Skiff.Json.Text

/-!
# The lexical parser of peer texts

The parser of `jsonrpc-2.0-text` frames (`runtime/transport/src/connection_protocol.rs`).
The cursor is what is left of the source. The recursion carries fuel; a parse that runs out
of it fails with no error of the source.
-/

namespace Skiff.WebSocket

open Json

def websocketJsonrpcMaxTextBytes : Nat := 1024 * 1024
def websocketJsonrpcMaxJsonDepth : Nat := 64
def websocketJsonrpcMaxJsonNodes : Nat := 100000
def websocketJsonrpcMaxStringBytes : Nat := 64 * 1024

inductive LexError where
  | parse
  | budget

structure LexBudget where
  depth : Nat
  nodes : Nat

/-- What is left of the fuel after one call. -/
theorem exists_fuel {size fuel : Nat} (h : size < fuel) : ∃ n, fuel = n + 1 :=
  ⟨fuel - 1, by omega⟩

namespace LexBudget

variable (budget : LexBudget)

/-- One more node. -/
def node : Except LexError LexBudget :=
  if websocketJsonrpcMaxJsonNodes ≤ budget.nodes then .error .budget
  else .ok { budget with nodes := budget.nodes + 1 }

/-- One more node that holds others. -/
def enter : Except LexError LexBudget :=
  if websocketJsonrpcMaxJsonDepth ≤ budget.depth then .error .budget
  else if websocketJsonrpcMaxJsonNodes ≤ budget.nodes then .error .budget
  else .ok ⟨budget.depth + 1, budget.nodes + 1⟩

def leave : LexBudget := { budget with depth := budget.depth - 1 }

end LexBudget

/-! ## Tokens -/

/-- Whether bytes are valid UTF-8. -/
def isUtf8 (bytes : List UInt8) : Bool := bytes.toByteArray.validateUTF8

def skipWs (source : List UInt8) : List UInt8 := source.dropWhile isWs

def utf8SequenceLen (byte : UInt8) : Option Nat :=
  if byte ≤ 0x7f then some 1
  else if 0xc2 ≤ byte && byte ≤ 0xdf then some 2
  else if 0xe0 ≤ byte && byte ≤ 0xef then some 3
  else if 0xf0 ≤ byte && byte ≤ 0xf4 then some 4
  else none

/-- `from_str_radix` for an unsigned type, radix 16 and digits that do not overflow it: a
leading plus sign is read over. -/
def fromStrRadix16 : List UInt8 → Option Nat
  | [] => none
  | first :: rest =>
    if first = 0x2b then if rest = [] then none else hexValue rest
    else hexValue (first :: rest)

/-- `char::from_u32`. -/
def charFromU32 (n : Nat) : Option Char :=
  if n.isValidChar then some (Char.ofNat n) else none

/-- Four hexadecimal digits at the cursor. -/
def lexHex (source : List UInt8) : Except LexError (Nat × List UInt8) :=
  let hex := source.take 4
  if hex.length = 4 && isUtf8 hex then
    match fromStrRadix16 hex with
    | some value => .ok (value, source.drop 4)
    | none => .error .parse
  else .error .parse

def pushChar (code : Nat) (source : List UInt8) :
    Except LexError (Option (List UInt8) × List UInt8) :=
  match charFromU32 code with
  | some c => .ok (some (String.utf8EncodeChar c), source)
  | none => .error .parse

/-- A `\u` escape, after the letter. -/
def lexUnicodeEscape (source : List UInt8) :
    Except LexError (Option (List UInt8) × List UInt8) := do
  let (first, source) ← lexHex source
  if highSurrogate first then
    if source.take 2 ≠ [0x5c, 0x75] then .error .parse
    else
      let (second, source) ← lexHex (source.drop 2)
      if !lowSurrogate second then .error .parse
      else pushChar (pairCode first second) source
  else if lowSurrogate first then .error .parse
  else pushChar first source

/-- One round of the loop over a string: the bytes it adds, or `none` at the closing quote. -/
def lexStringStep : List UInt8 → Except LexError (Option (List UInt8) × List UInt8)
  | [] => .error .parse
  | byte :: rest =>
    if byte = 0x22 then .ok (none, rest)
    else if byte = 0x5c then
      match rest with
      | [] => .error .parse
      | escaped :: rest =>
        match simpleEscape escaped with
        | some decoded => .ok (some [decoded], rest)
        | none => if escaped = 0x75 then lexUnicodeEscape rest else .error .parse
    else if byte ≤ 0x1f then .error .parse
    else
      match utf8SequenceLen byte with
      | none => .error .parse
      | some len =>
        let slice := (byte :: rest).take len
        if slice.length = len && isUtf8 slice then .ok (some slice, (byte :: rest).drop len)
        else .error .parse

/-- A computation of the parser; `none` is a lack of fuel. -/
abbrev Lexed (α : Type) := Except (Option LexError) α

def lexed {α : Type} (result : Except LexError α) : Lexed α := result.mapError some

def lexStringLoop : Nat → List UInt8 → List UInt8 → Lexed (List UInt8 × List UInt8)
  | 0, _, _ => .error none
  | fuel + 1, value, source => do
    let (piece, source) ← lexed (lexStringStep source)
    match piece with
    | none => pure (value, source)
    | some bytes =>
      if websocketJsonrpcMaxStringBytes < (value ++ bytes).length then .error (some .budget)
      else lexStringLoop fuel (value ++ bytes) source

def parseLexString (source : List UInt8) (budget : LexBudget) :
    Lexed (List UInt8 × List UInt8 × LexBudget) :=
  match source with
  | [] => .error (some .parse)
  | byte :: rest =>
    if byte ≠ 0x22 then .error (some .parse)
    else do
      let budget ← lexed budget.node
      let (value, source) ← lexStringLoop (rest.length + 1) [] rest
      pure (value, source, budget)

/-! ## Numbers -/

/-- Digits at the cursor, at least one. -/
def lexDigits (source : List UInt8) : Except LexError (List UInt8 × List UInt8) :=
  if source.takeWhile isDigit = [] then .error .parse
  else .ok (source.takeWhile isDigit, source.dropWhile isDigit)

def lexSign (isSign : UInt8 → Bool) : List UInt8 → List UInt8 × List UInt8
  | [] => ([], [])
  | byte :: rest => if isSign byte then ([byte], rest) else ([], byte :: rest)

def lexFraction : List UInt8 → Except LexError (List UInt8 × List UInt8)
  | [] => .ok ([], [])
  | byte :: rest =>
    if byte = 0x2e then do
      let (digits, source) ← lexDigits rest
      .ok (byte :: digits, source)
    else .ok ([], byte :: rest)

def lexExponent : List UInt8 → Except LexError (List UInt8 × List UInt8)
  | [] => .ok ([], [])
  | byte :: rest =>
    if byte = 0x65 || byte = 0x45 then do
      let (sign, source) := lexSign (fun b => b = 0x2b || b = 0x2d) rest
      let (digits, source) ← lexDigits source
      .ok (byte :: (sign ++ digits), source)
    else .ok ([], byte :: rest)

def lexNumber (source : List UInt8) : Except LexError (List UInt8 × List UInt8) := do
  let (sign, source) := lexSign (· = 0x2d) source
  let (integer, source) ← lexDigits source
  if 1 < integer.length && integer.head? = some 0x30 then .error .parse
  else
    let (fraction, source) ← lexFraction source
    let (exponent, source) ← lexExponent source
    .ok (sign ++ (integer ++ (fraction ++ exponent)), source)

def parseLexNumber (source : List UInt8) (budget : LexBudget) :
    Except LexError (LexNode × List UInt8 × LexBudget) := do
  let (lexeme, source) ← lexNumber source
  let budget ← budget.node
  .ok (.number lexeme, source, budget)

/-! ## Nodes -/

/-- One of the three names at the cursor. -/
def lexName (name : List UInt8) (node : LexNode) (source : List UInt8) (budget : LexBudget) :
    Except LexError (LexNode × List UInt8 × LexBudget) :=
  if source.take name.length = name then do
    let budget ← budget.node
    .ok (node, source.drop name.length, budget)
  else .error .parse

mutual

def parseLexNode : Nat → List UInt8 → LexBudget → Lexed (LexNode × List UInt8 × LexBudget)
  | 0, _, _ => .error none
  | fuel + 1, source, budget =>
    match skipWs source with
    | [] => .error (some .parse)
    | byte :: rest =>
      if byte = 0x7b then do
        let budget ← lexed budget.enter
        if (skipWs rest).head? = some 0x7d then pure (.object [], (skipWs rest).tail, budget.leave)
        else
          let (members, source, budget) ← parseLexMembers fuel (skipWs rest) budget
          pure (.object members, source, budget)
      else if byte = 0x5b then do
        let budget ← lexed budget.enter
        if (skipWs rest).head? = some 0x5d then pure (.array [], (skipWs rest).tail, budget.leave)
        else
          let (items, source, budget) ← parseLexItems fuel (skipWs rest) budget
          pure (.array items, source, budget)
      else if byte = 0x22 then do
        let (value, source, budget) ← parseLexString (byte :: rest) budget
        pure (.string value, source, budget)
      else if byte = 0x74 then
        lexed (lexName [0x74, 0x72, 0x75, 0x65] (.bool true) (byte :: rest) budget)
      else if byte = 0x66 then
        lexed (lexName [0x66, 0x61, 0x6c, 0x73, 0x65] (.bool false) (byte :: rest) budget)
      else if byte = 0x6e then
        lexed (lexName [0x6e, 0x75, 0x6c, 0x6c] .null (byte :: rest) budget)
      else if byte = 0x2d || isDigit byte then lexed (parseLexNumber (byte :: rest) budget)
      else .error (some .parse)

/-- The loop over the members of an object, to its closing brace. -/
def parseLexMembers : Nat → List UInt8 → LexBudget →
    Lexed (List (List UInt8 × LexNode) × List UInt8 × LexBudget)
  | 0, _, _ => .error none
  | fuel + 1, source, budget => do
    let (key, source, budget) ← parseLexString source budget
    match skipWs source with
    | [] => .error (some .parse)
    | colon :: source =>
      if colon ≠ 0x3a then .error (some .parse)
      else
        let (value, source, budget) ← parseLexNode fuel source budget
        match skipWs source with
        | [] => .error (some .parse)
        | byte :: source =>
          if byte = 0x2c then
            let (members, source, budget) ← parseLexMembers fuel source budget
            pure ((key, value) :: members, source, budget)
          else if byte = 0x7d then pure ([(key, value)], source, budget.leave)
          else .error (some .parse)

/-- The loop over the items of an array, to its closing bracket. -/
def parseLexItems : Nat → List UInt8 → LexBudget → Lexed (List LexNode × List UInt8 × LexBudget)
  | 0, _, _ => .error none
  | fuel + 1, source, budget => do
    let (item, source, budget) ← parseLexNode fuel source budget
    match skipWs source with
    | [] => .error (some .parse)
    | byte :: source =>
      if byte = 0x2c then
        let (items, source, budget) ← parseLexItems fuel source budget
        pure (item :: items, source, budget)
      else if byte = 0x5d then pure ([item], source, budget.leave)
      else .error (some .parse)

end

end Skiff.WebSocket
