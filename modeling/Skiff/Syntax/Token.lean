import Skiff.Syntax.TypeSyntax

/-!
# Tokens

The tokens of the lexer (`syntax/src/lexer.rs`). A token is told by its kind; where it stands is
kept for the errors.
-/

namespace Skiff.Syntax

def isIdentStart (ch : Char) : Bool := ch == '_' || ch.isAlpha

def isIdentContinue (ch : Char) : Bool := isIdentStart ch || ch.isDigit

/-- What `Lexer::ident` reads. -/
structure Ident where
  text : Text
  shape : ∃ ch rest, text = ch :: rest ∧ isIdentStart ch = true ∧ rest.all isIdentContinue = true

instance : DecidableEq Ident := fun a b =>
  decidable_of_iff (a.text = b.text) ⟨fun h => by cases a; cases b; congr, fun h => congrArg _ h⟩

structure SourceLocation where
  line : Nat
  column : Nat
  offset : Nat

/-- The value of a number literal, by the bits of its `f64`. -/
abbrev NumberBits := UInt64

inductive DurationUnit where
  | milliseconds
  | seconds
  | minutes
  | hours
  | days
deriving DecidableEq

inductive TokenKind where
  | ident (value : Ident)
  | number (value : NumberBits)
  | duration (digits : Text) (unit : DurationUnit)
  | string (value : Text)
  | symbol (value : String)
  | eof
deriving DecidableEq

/-- A token and where it starts. -/
structure Token where
  kind : TokenKind
  start : SourceLocation

inductive CompileError where
  | syntaxError (message : String) (location : SourceLocation)

end Skiff.Syntax
