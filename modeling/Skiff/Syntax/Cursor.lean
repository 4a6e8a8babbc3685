import Skiff.Syntax.Token

/-!
# The cursor of the parser

`syntax/src/parser/cursor.rs`. The tokens end with the one of the end of the file, and the cursor
stays there: `advance` then gives the token before it, the last one of the file, once more.
-/

namespace Skiff.Syntax

/-- The tokens and the index of the next one. -/
structure Parser where
  tokens : List Token
  current : Nat
  inBounds : current < tokens.length
  ended : ∃ front last, tokens = front ++ [last] ∧ last.kind = .eof

/-- How a run of the parser ends without a value. It panics where it looks before the first token,
and `outOfFuel` is no outcome of the code. -/
inductive ParseFailure where
  | error (e : CompileError)
  | panic
  | outOfFuel

abbrev ParseM := StateT Parser (Except ParseFailure)

namespace Parser

variable (p : Parser)

def peek : Token := p.tokens.get ⟨p.current, p.inBounds⟩

def previous : Option Token := if p.current = 0 then none else p.tokens[p.current - 1]?

def isAtEnd : Bool := p.peek.kind = .eof

theorem next_inBounds (h : p.isAtEnd = false) : p.current + 1 < p.tokens.length := by
  obtain ⟨front, last, htokens, hlast⟩ := p.ended
  have hbound := p.inBounds
  by_contra hge
  have hpeek : p.peek = last := by
    have hcurrent : p.current = front.length := by
      rw [htokens, List.length_append, List.length_singleton] at hbound hge
      omega
    have hget : p.tokens[p.current]? = some last := by
      rw [htokens, hcurrent, List.getElem?_concat_length]
    rw [List.getElem?_eq_getElem hbound] at hget
    exact Option.some.inj hget
  have hend : p.isAtEnd = true := by
    rw [isAtEnd, hpeek]
    exact decide_eq_true hlast
  rw [h] at hend
  cases hend

def checkIdent (expected : String) : Bool :=
  match p.peek.kind with
  | .ident value => value.text = expected.toList
  | _ => false

def checkSymbol (expected : String) : Bool :=
  match p.peek.kind with
  | .symbol value => value = expected
  | _ => false

end Parser

def throwSyntax {α : Type} (message : String) (location : SourceLocation) : ParseM α :=
  fun _ => .error (.error (.syntaxError message location))

def advance : ParseM Token := fun p =>
  let p := if h : p.isAtEnd = false then
    { p with current := p.current + 1, inBounds := p.next_inBounds h } else p
  match p.previous with
  | some token => .ok (token, p)
  | none => .error .panic

def checkIdent (expected : String) : ParseM Bool := fun p => .ok (p.checkIdent expected, p)

def checkSymbol (expected : String) : ParseM Bool := fun p => .ok (p.checkSymbol expected, p)

def matchIdent (expected : String) : ParseM Bool := do
  if ← checkIdent expected then
    let _ ← advance
    return true
  else return false

def matchSymbol (expected : String) : ParseM Bool := do
  if ← checkSymbol expected then
    let _ ← advance
    return true
  else return false

def expectIdent (message : String) : ParseM Ident := do
  let token ← advance
  match token.kind with
  | .ident value => return value
  | _ => throwSyntax message token.start

def expectIdentValue (expected : String) : ParseM Token := do
  let token ← advance
  match token.kind with
  | .ident value =>
    if value.text = expected.toList then return token
    else throwSyntax ("expected " ++ expected) token.start
  | _ => throwSyntax ("expected " ++ expected) token.start

def expectSymbol (expected : String) : ParseM Unit := do
  let token ← advance
  match token.kind with
  | .symbol value =>
    if value = expected then return ()
    else throwSyntax ("expected symbol " ++ expected) token.start
  | _ => throwSyntax ("expected symbol " ++ expected) token.start

end Skiff.Syntax
