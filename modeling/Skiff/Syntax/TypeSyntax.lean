import Skiff.Json.Text
import Skiff.Recoverable.Envelope

/-!
# Scanning type texts

The scanners of `syntax/src/type_syntax.rs` and the ones of `type_expr.rs` that are like them. Each
counts how deep it is in angle brackets, braces and parentheses, outside of string literals, and
splits where all the depths are zero. A closing mark at depth zero is not counted. Texts are lists
of characters.
-/

namespace Skiff.Syntax

open Recoverable (isWhitespace)

abbrev Text := List Char

def trimStart (text : Text) : Text := text.dropWhile isWhitespace

def trimEnd (text : Text) : Text := (text.reverse.dropWhile isWhitespace).reverse

def trim (text : Text) : Text := trimEnd (trimStart text)

def stripPrefix (mark text : Text) : Option Text :=
  if mark.isPrefixOf text then some (text.drop mark.length) else none

def stripSuffix (mark text : Text) : Option Text :=
  if mark.isSuffixOf text then some (text.take (text.length - mark.length)) else none

/-! ## Depths -/

structure Scan where
  angle : Nat
  brace : Nat
  paren : Nat
  inString : Bool
  escaped : Bool

namespace Scan

def start : Scan := ⟨0, 0, 0, false, false⟩

def step (s : Scan) (ch : Char) : Scan :=
  if s.inString then
    if s.escaped then { s with escaped := false }
    else if ch = '\\' then { s with escaped := true }
    else if ch = '"' then { s with inString := false }
    else s
  else if ch = '"' then { s with inString := true }
  else if ch = '<' then { s with angle := s.angle + 1 }
  else if ch = '>' then { s with angle := s.angle - 1 }
  else if ch = '{' then { s with brace := s.brace + 1 }
  else if ch = '}' then { s with brace := s.brace - 1 }
  else if ch = '(' then { s with paren := s.paren + 1 }
  else if ch = ')' then { s with paren := s.paren - 1 }
  else s

def atTop (s : Scan) : Bool := !s.inString && s.angle == 0 && s.brace == 0 && s.paren == 0

end Scan

/-- The parts of the text that follows `part`, which is the part so far. -/
def splitParts (delimiter : Char) (s : Scan) (part : Text) : Text → List Text
  | [] => [trim part]
  | ch :: rest =>
    if s.atTop && ch == delimiter then trim part :: splitParts delimiter s [] rest
    else splitParts delimiter (s.step ch) (part ++ [ch]) rest

def splitTopLevel (input : Text) (delimiter : Char) : List Text :=
  splitParts delimiter .start [] input

/-- The text before the first delimiter at depth zero and the text after it. -/
def findTopLevel (delimiter : Char) (s : Scan) (before : Text) : Text → Option (Text × Text)
  | [] => none
  | ch :: rest =>
    if s.atTop && ch == delimiter then some (before, rest)
    else findTopLevel delimiter (s.step ch) (before ++ [ch]) rest

def splitTopLevelOnce (input : Text) (delimiter : Char) : Option (Text × Text) :=
  (findTopLevel delimiter .start [] input).map fun (before, rest) => (trim before, trim rest)

/-! ## Records -/

/-- This scanner does not look at parentheses. -/
def findColon (s : Scan) (before : Text) : Text → Option (Text × Text)
  | [] => none
  | ch :: rest =>
    if s.atTop && ch == ':' then some (before, rest)
    else findColon (if ch = '(' ∨ ch = ')' then
      (if s.inString then s.step ch else s) else s.step ch) (before ++ [ch]) rest

def splitRecordTypeField (field : Text) : Option (Text × Text) :=
  (findColon .start [] field).map fun (before, rest) => (trim before, trim rest)

/-- The names and type texts of the fields, if the text is one of a record type. -/
def recordTypeFields (ty : Text) : Option (List (Text × Text)) :=
  match (stripPrefix ['{'] (trim ty)).bind (stripSuffix ['}']) with
  | none => none
  | some inner =>
    if (trim inner).isEmpty then some []
    else (splitTopLevel (trim inner) ',').mapM splitRecordTypeField

/-! ## Generics -/

structure GenericScan where
  angle : Nat
  brace : Nat
  inString : Bool
  escaped : Bool
  opened : Option Nat
  closed : Option Nat

/-- The character at the index, with the one before it. Arrows are passed over, and angle brackets
are not counted in braces. -/
def GenericScan.step (s : GenericScan) (before : Option Char) (index : Nat) (ch : Char) :
    GenericScan :=
  if s.inString then
    if s.escaped then { s with escaped := false }
    else if ch = '\\' then { s with escaped := true }
    else if ch = '"' then { s with inString := false }
    else s
  else if ch = '>' ∧ before = some '-' then s
  else if ch = '"' then { s with inString := true }
  else if ch = '{' then { s with brace := s.brace + 1 }
  else if ch = '}' then { s with brace := s.brace - 1 }
  else if ch = '<' ∧ s.brace = 0 then
    { s with
      angle := s.angle + 1
      opened := if s.angle = 0 then s.opened.or (some index) else s.opened }
  else if ch = '>' ∧ s.brace = 0 ∧ 0 < s.angle then
    { s with
      angle := s.angle - 1
      closed := if s.angle = 1 then some index else s.closed }
  else s

def genericScan (s : GenericScan) (before : Option Char) (index : Nat) : Text → GenericScan
  | [] => s
  | ch :: rest => genericScan (s.step before index ch) (some ch) (index + 1) rest

structure GenericParts where
  root : Text
  inner : Text
  args : List Text

def genericParts (input : Text) : Option GenericParts :=
  let input := trim input
  let s := genericScan ⟨0, 0, false, false, none, none⟩ none 0 input
  match s.opened, s.closed with
  | some opened, some closed =>
    if s.angle ≠ 0 ∨ closed + 1 ≠ input.length ∨ closed ≤ opened then none
    else
      let inner := trim ((input.drop (opened + 1)).take (closed - (opened + 1)))
      some ⟨trim (input.take opened), inner, splitTopLevel inner ','⟩
  | _, _ => none

/-! ## String literals -/

def hexDigit (ch : Char) : Option Nat :=
  if '0' ≤ ch ∧ ch ≤ '9' then some (ch.toNat - '0'.toNat)
  else if 'a' ≤ ch ∧ ch ≤ 'f' then some (ch.toNat - 'a'.toNat + 10)
  else if 'A' ≤ ch ∧ ch ≤ 'F' then some (ch.toNat - 'A'.toNat + 10)
  else none

def hexCode (a b c d : Char) : Option Nat := do
  return ((((← hexDigit a) * 16 + (← hexDigit b)) * 16 + (← hexDigit c)) * 16) + (← hexDigit d)

def unescape : Char → Option Char
  | '"' => some '"'
  | '\\' => some '\\'
  | '/' => some '/'
  | 'b' => some '\x08'
  | 'f' => some '\x0c'
  | 'n' => some '\n'
  | 'r' => some '\r'
  | 't' => some '\t'
  | _ => none

def consValue (ch : Char) : Option (Text × Text) → Option (Text × Text)
  | some (value, rest) => some (ch :: value, rest)
  | none => none

/-- The value of a JSON string up to its closing quote, and what follows it. -/
def jsonString : Text → Option (Text × Text)
  | [] => none
  | '"' :: rest => some ([], rest)
  | '\\' :: 'u' :: a :: b :: c :: d :: rest =>
    match hexCode a b c d with
    | none => none
    | some code =>
      if 0xdc00 ≤ code ∧ code ≤ 0xdfff then none
      else if 0xd800 ≤ code ∧ code ≤ 0xdbff then
        match rest with
        | '\\' :: 'u' :: a' :: b' :: c' :: d' :: rest =>
          match hexCode a' b' c' d' with
          | none => none
          | some low =>
            if 0xdc00 ≤ low ∧ low ≤ 0xdfff then
              consValue (Char.ofNat (0x10000 + (code - 0xd800) * 0x400 + (low - 0xdc00)))
                (jsonString rest)
            else none
        | _ => none
      else consValue (Char.ofNat code) (jsonString rest)
  | '\\' :: ch :: rest =>
    match unescape ch with
    | none => none
    | some value => consValue value (jsonString rest)
  | ch :: rest => if ch.toNat < 0x20 then none else consValue ch (jsonString rest)

/-- The value of a text after its first quote, if it is a JSON string. -/
def jsonFromStr (rest : Text) : Option Text :=
  match jsonString rest with
  | some (value, []) => some value
  | _ => none

/-- How strings are read from JSON and printed. -/
class SerdeJson where
  fromStr : Text → Option Text
  toString : Text → Text

variable [SerdeJson]

class SerdeJson.Documented : Prop where
  fromStr_eq : ∀ rest, SerdeJson.fromStr ('"' :: rest) = jsonFromStr rest
  toString_eq : SerdeJson.toString = Json.jsonQuote

def stringLiteral (input : Text) : Option Text :=
  match trim input with
  | '"' :: rest =>
    if ('"' :: rest).getLast? = some '"' then SerdeJson.fromStr ('"' :: rest) else none
  | _ => none

/-- The value ends at the last quote, so nothing may follow it. -/
theorem stringLiteral_eq [SerdeJson.Documented] (input : Text) :
    stringLiteral input =
      match trim input with
      | '"' :: rest => if rest.getLast? = some '"' then jsonFromStr rest else none
      | _ => none := by
  rw [stringLiteral]
  split
  case h_1 rest heq =>
    rw [SerdeJson.Documented.fromStr_eq]
    cases rest <;> rfl
  · rfl

end Skiff.Syntax
