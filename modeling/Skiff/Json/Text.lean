import Mathlib.Tactic.Common

/-!
# JSON texts

The grammar of JSON over UTF-8 bytes. `Reads g part source rest` says that a part of a text
is read off the front of `source` and leaves `rest`; a part knows what the text says, with
numbers as they are written, and each member of an object its source text. A grammar may
differ from the standard one in where it lets whitespace stand and in how it reads `\u`
escapes.
-/

namespace Skiff.Json

/-- What a text says. -/
inductive LexNode where
  | object (members : List (List UInt8 × LexNode))
  | array (items : List LexNode)
  | string (value : List UInt8)
  | number (lexeme : List UInt8)
  | bool (value : Bool)
  | null

def hexChar (digit : Nat) : Char :=
  if digit < 10 then Char.ofNat ('0'.toNat + digit) else Char.ofNat ('a'.toNat + (digit - 10))

/-- How a character stands in a JSON string. -/
def jsonEscape (ch : Char) : List Char :=
  if ch = '"' then ['\\', '"']
  else if ch = '\\' then ['\\', '\\']
  else if ch = '\x08' then ['\\', 'b']
  else if ch = '\x0c' then ['\\', 'f']
  else if ch = '\n' then ['\\', 'n']
  else if ch = '\r' then ['\\', 'r']
  else if ch = '\t' then ['\\', 't']
  else if ch.toNat < 0x20 then
    ['\\', 'u', '0', '0', hexChar (ch.toNat / 16), hexChar (ch.toNat % 16)]
  else [ch]

def jsonQuote (value : List Char) : List Char := '"' :: value.flatMap jsonEscape ++ ['"']

structure JsonGrammar where
  /-- Whitespace may follow a comma inside an object. -/
  afterComma : Bool
  /-- Whitespace may follow the value of the text. -/
  afterText : Bool
  /-- A plus sign may stand for the first digit of an escape. -/
  signedEscape : Bool
  /-- A surrogate may be escaped by itself. -/
  loneSurrogate : Bool
  /-- A pair of escaped surrogates stands for one character. -/
  surrogatePair : Bool

/-- RFC 8259. -/
def rfc8259 : JsonGrammar := ⟨true, true, false, true, true⟩

/-! ## Bytes -/

def isWs (b : UInt8) : Bool := b = 0x20 || b = 0x09 || b = 0x0a || b = 0x0d

def isDigit (b : UInt8) : Bool := 0x30 ≤ b && b ≤ 0x39

/-- A byte of a number, wherever it stands in it. -/
def numeralByte (b : UInt8) : Bool :=
  isDigit b || b = 0x2e || b = 0x65 || b = 0x45 || b = 0x2b || b = 0x2d

/-- The value of a hexadecimal digit. -/
def hexDigit? (b : UInt8) : Option Nat :=
  if 0x30 ≤ b && b ≤ 0x39 then some (b.toNat - 0x30)
  else if 0x61 ≤ b && b ≤ 0x66 then some (b.toNat - 0x61 + 10)
  else if 0x41 ≤ b && b ≤ 0x46 then some (b.toNat - 0x41 + 10)
  else none

/-- The value of a sequence of hexadecimal digits. -/
def hexValue (digits : List UInt8) : Option Nat :=
  digits.foldlM (fun value digit => (hexDigit? digit).map (16 * value + ·)) 0

/-- What the escape of one byte stands for. -/
def simpleEscape (b : UInt8) : Option UInt8 :=
  if b = 0x22 then some 0x22
  else if b = 0x5c then some 0x5c
  else if b = 0x2f then some 0x2f
  else if b = 0x62 then some 0x08
  else if b = 0x66 then some 0x0c
  else if b = 0x6e then some 0x0a
  else if b = 0x72 then some 0x0d
  else if b = 0x74 then some 0x09
  else none

def highSurrogate (n : Nat) : Bool := 0xd800 ≤ n && n ≤ 0xdbff

def lowSurrogate (n : Nat) : Bool := 0xdc00 ≤ n && n ≤ 0xdfff

/-- The character that a pair of surrogates stands for. -/
def pairCode (first second : Nat) : Nat := 0x10000 + (first - 0xd800) * 1024 + (second - 0xdc00)

/-! ## Tokens -/

inductive ReadsWs : List UInt8 → List UInt8 → Prop
  | done (source : List UInt8) : ReadsWs source source
  | more {b : UInt8} {source rest : List UInt8} (ws : isWs b = true) (h : ReadsWs source rest) :
      ReadsWs (b :: source) rest

def IsDigits (digits : List UInt8) : Prop := digits ≠ [] ∧ ∀ d ∈ digits, isDigit d = true

def IsFraction (fraction : List UInt8) : Prop :=
  fraction = [] ∨ ∃ digits, fraction = 0x2e :: digits ∧ IsDigits digits

def IsExponent (exponent : List UInt8) : Prop :=
  exponent = [] ∨ ∃ e sign digits, exponent = e :: (sign ++ digits) ∧ (e = 0x65 ∨ e = 0x45) ∧
    (sign = [] ∨ sign = [0x2b] ∨ sign = [0x2d]) ∧ IsDigits digits

/-- A number: its digits before the point do not start with a zero, unless it is the only one. -/
def IsNumber (lexeme : List UInt8) : Prop :=
  ∃ sign integer fraction exponent, lexeme = sign ++ (integer ++ (fraction ++ exponent)) ∧
    (sign = [] ∨ sign = [0x2d]) ∧ IsDigits integer ∧
    (integer.head? = some 0x30 → integer.length = 1) ∧ IsFraction fraction ∧ IsExponent exponent

/-- The four digits of an escape and their value. -/
def HexDigits (g : JsonGrammar) (digits : List UInt8) (value : Nat) : Prop :=
  digits.length = 4 ∧ (hexValue digits = some value ∨
    g.signedEscape = true ∧ ∃ others, digits = 0x2b :: others ∧ hexValue others = some value)

/-- A character that stands for itself in a string. -/
def Unescaped (c : Char) : Prop := 0x20 ≤ c.toNat ∧ c ≠ '"' ∧ c ≠ '\\'

/-- The rest of a string after its opening quote, with the UTF-8 of what it stands for. A
surrogate by itself stands for nothing. -/
inductive ReadsChars (g : JsonGrammar) : List UInt8 → List UInt8 → List UInt8 → Prop
  | close (rest : List UInt8) : ReadsChars g [] (0x22 :: rest) rest
  | unescaped {c : Char} {value source rest : List UInt8} (plain : Unescaped c)
      (h : ReadsChars g value source rest) :
      ReadsChars g (String.utf8EncodeChar c ++ value) (String.utf8EncodeChar c ++ source) rest
  | escape {b decoded : UInt8} {value source rest : List UInt8}
      (simple : simpleEscape b = some decoded) (h : ReadsChars g value source rest) :
      ReadsChars g (decoded :: value) (0x5c :: b :: source) rest
  | unicode {digits : List UInt8} {n : Nat} {value source rest : List UInt8}
      (hex : HexDigits g digits n) (scalar : highSurrogate n = false ∧ lowSurrogate n = false)
      (h : ReadsChars g value source rest) :
      ReadsChars g (String.utf8EncodeChar (Char.ofNat n) ++ value)
        (0x5c :: 0x75 :: (digits ++ source)) rest
  | pair {first second : List UInt8} {m n : Nat} {value source rest : List UInt8}
      (allowed : g.surrogatePair = true) (hex : HexDigits g first m) (high : highSurrogate m = true)
      (hex' : HexDigits g second n) (low : lowSurrogate n = true)
      (h : ReadsChars g value source rest) :
      ReadsChars g (String.utf8EncodeChar (Char.ofNat (pairCode m n)) ++ value)
        (0x5c :: 0x75 :: (first ++ 0x5c :: 0x75 :: (second ++ source))) rest
  | lone {digits : List UInt8} {n : Nat} {value source rest : List UInt8}
      (allowed : g.loneSurrogate = true) (hex : HexDigits g digits n)
      (surrogate : highSurrogate n = true ∨ lowSurrogate n = true)
      (h : ReadsChars g value source rest) :
      ReadsChars g value (0x5c :: 0x75 :: (digits ++ source)) rest

/-- The three names, with what they say. -/
inductive IsName : List UInt8 → LexNode → Prop
  | isTrue : IsName [0x74, 0x72, 0x75, 0x65] (.bool true)
  | isFalse : IsName [0x66, 0x61, 0x6c, 0x73, 0x65] (.bool false)
  | isNull : IsName [0x6e, 0x75, 0x6c, 0x6c] .null

/-! ## Values -/

/-- A member of an object: its key, what its value says, and the text of the value. -/
structure LexMember where
  key : List UInt8
  value : LexNode
  source : List UInt8

def LexMember.entry (member : LexMember) : List UInt8 × LexNode := (member.key, member.value)

/-- A value, or what stands between the brackets of an array or an object that is not
empty, with the closing one. -/
inductive Part where
  | value (node : LexNode)
  | items (nodes : List LexNode)
  | members (members : List LexMember)

inductive Reads (g : JsonGrammar) : Part → List UInt8 → List UInt8 → Prop
  | name {text : List UInt8} {node : LexNode} (h : IsName text node) (rest : List UInt8) :
      Reads g (.value node) (text ++ rest) rest
  | number {lexeme : List UInt8} (h : IsNumber lexeme) (rest : List UInt8) :
      Reads g (.value (.number lexeme)) (lexeme ++ rest) rest
  | string {value source rest : List UInt8} (h : ReadsChars g value source rest) :
      Reads g (.value (.string value)) (0x22 :: source) rest
  | emptyArray {source rest : List UInt8} (ws : ReadsWs source (0x5d :: rest)) :
      Reads g (.value (.array [])) (0x5b :: source) rest
  | array {nodes : List LexNode} {source inner rest : List UInt8} (ws : ReadsWs source inner)
      (h : Reads g (.items nodes) inner rest) :
      Reads g (.value (.array nodes)) (0x5b :: source) rest
  | emptyObject {source rest : List UInt8} (ws : ReadsWs source (0x7d :: rest)) :
      Reads g (.value (.object [])) (0x7b :: source) rest
  | object {members : List LexMember} {source inner rest : List UInt8} (ws : ReadsWs source inner)
      (h : Reads g (.members members) inner rest) :
      Reads g (.value (.object (members.map LexMember.entry))) (0x7b :: source) rest
  | lastItem {node : LexNode} {source after rest : List UInt8}
      (h : Reads g (.value node) source after) (ws : ReadsWs after (0x5d :: rest)) :
      Reads g (.items [node]) source rest
  | item {node : LexNode} {nodes : List LexNode} {source after next inner rest : List UInt8}
      (h : Reads g (.value node) source after) (ws : ReadsWs after (0x2c :: next))
      (ws' : ReadsWs next inner) (h' : Reads g (.items nodes) inner rest) :
      Reads g (.items (node :: nodes)) source rest
  | lastMember {key text : List UInt8} {node : LexNode} {source colon next after rest : List UInt8}
      (hkey : ReadsChars g key source colon) (beforeColon : ReadsWs colon (0x3a :: next))
      (afterColon : ReadsWs next (text ++ after)) (h : Reads g (.value node) (text ++ after) after)
      (afterValue : ReadsWs after (0x7d :: rest)) :
      Reads g (.members [⟨key, node, text⟩]) (0x22 :: source) rest
  | member {key text : List UInt8} {node : LexNode} {members : List LexMember}
      {source colon next after comma inner rest : List UInt8}
      (hkey : ReadsChars g key source colon) (beforeColon : ReadsWs colon (0x3a :: next))
      (afterColon : ReadsWs next (text ++ after)) (h : Reads g (.value node) (text ++ after) after)
      (afterValue : ReadsWs after (0x2c :: comma)) (afterComma : ReadsWs comma inner)
      (compact : g.afterComma = false → inner = comma)
      (h' : Reads g (.members members) inner rest) :
      Reads g (.members (⟨key, node, text⟩ :: members)) (0x22 :: source) rest

/-- A whole text that says `node`. -/
def SaysNode (g : JsonGrammar) (source : List UInt8) (node : LexNode) : Prop :=
  ∃ inner rest, ReadsWs source inner ∧ Reads g (.value node) inner rest ∧ ReadsWs rest [] ∧
    (g.afterText = false → rest = [])

/-- A single JSON value with optional surrounding whitespace. -/
def IsJson (g : JsonGrammar) (source : List UInt8) : Prop := ∃ node, SaysNode g source node

end Skiff.Json
