import Skiff.Syntax.TypeExpr

/-!
# Type trees and their texts

A type tree is what the parser reads a type as, and its text is what the parser keeps of it. The
scanners see a text as depths and delimiters: `arrows` says how many levels of angle brackets a
text seems to close (the `>` of each arrow closes one), and `spills` which of its delimiters a
scanner takes to be at depth zero.
-/

namespace Skiff.Syntax

inductive TypeTree where
  | string (value : Text)
  | name (path : Text)
  | generic (root : Text) (args : List TypeTree)
  | any (interface : TypeTree)
  | function (params : List (Text × TypeTree)) (returnType : TypeTree)
  | record (fields : List (Text × TypeTree))
  | nullable (inner : TypeTree)
  | union (branches : List TypeTree)

open TypeExpr (joinWith)

/-- How a character stands in the text that the parser makes of a string literal. -/
def escapeStringType (ch : Char) : Text :=
  if ch = '"' then ['\\', '"']
  else if ch = '\\' then ['\\', '\\']
  else if ch = '\n' then ['\\', 'n']
  else if ch = '\r' then ['\\', 'r']
  else if ch = '\t' then ['\\', 't']
  else [ch]

def quoteStringType (value : Text) : Text := '"' :: value.flatMap escapeStringType ++ ['"']

namespace TypeTree

/-! ## What a tree says -/

mutual

def expr : TypeTree → TypeExpr
  | .string value => .stringLiteral value
  | .name path => .named path []
  | .generic root args => .named root (exprs args)
  | .any interface => .anyInterface interface.expr
  | .function params returnType => .function (fieldExprs params) returnType.expr
  | .record [] => .emptyRecord
  | .record (field :: fields) => .record (fieldExprs (field :: fields))
  | .nullable inner => .nullable inner.expr
  | .union branches => .union (exprs branches)

def exprs : List TypeTree → List TypeExpr
  | [] => []
  | tree :: rest => tree.expr :: exprs rest

def fieldExprs : List (Text × TypeTree) → List (Text × TypeExpr)
  | [] => []
  | (field, tree) :: rest => (field, tree.expr) :: fieldExprs rest

end

/-! ## How a tree is written, with this way to quote strings -/

section

variable (quote : Text → Text)

mutual

def text : TypeTree → Text
  | .string value => quote value
  | .name path => path
  | .generic root args => root ++ '<' :: joinWith [',', ' '] (texts args) ++ ['>']
  | .any interface => ['a', 'n', 'y', ' '] ++ interface.text
  | .function params returnType =>
    ['f', 'n', '('] ++ joinWith [',', ' '] (fieldTexts params) ++ [')', ' ', '-', '>', ' '] ++
      returnType.text
  | .record [] => ['{', '}']
  | .record (field :: fields) =>
    ['{', ' '] ++ joinWith [',', ' '] (fieldTexts (field :: fields)) ++ [' ', '}']
  | .nullable inner => inner.text ++ ['?']
  | .union branches => joinWith [' ', '|', ' '] (texts branches)

def texts : List TypeTree → List Text
  | [] => []
  | tree :: rest => tree.text :: texts rest

def fieldTexts : List (Text × TypeTree) → List Text
  | [] => []
  | (field, tree) :: rest => (field ++ [':', ' '] ++ tree.text) :: fieldTexts rest

end

end

/-! ## What the scanners make of it -/

mutual

/-- The arrows of the text. -/
def arrows : TypeTree → Nat
  | .string _ => 0
  | .name _ => 0
  | .generic _ args => arrowsAll args
  | .any interface => interface.arrows
  | .function params returnType => arrowsFields params + 1 + returnType.arrows
  | .record fields => arrowsFields fields
  | .nullable inner => inner.arrows
  | .union branches => arrowsAll branches

def arrowsAll : List TypeTree → Nat
  | [] => 0
  | tree :: rest => tree.arrows + arrowsAll rest

def arrowsFields : List (Text × TypeTree) → Nat
  | [] => 0
  | (_, tree) :: rest => tree.arrows + arrowsFields rest

end

mutual

/-- The marks that a scanner sees at depth zero, in a text at this depth of angle brackets and
outside of braces and parentheses. -/
def spills (mark : Char) (angle : Nat) : TypeTree → Nat
  | .string _ => 0
  | .name _ => 0
  | .generic _ args => spillsAll mark ',' (angle + 1) args
  | .any interface => interface.spills mark angle
  | .function params returnType => returnType.spills mark (angle - (arrowsFields params + 1))
  | .record _ => 0
  | .nullable inner => inner.spills mark angle
  | .union branches => spillsAll mark '|' angle branches

def spillsAll (mark separator : Char) (angle : Nat) : List TypeTree → Nat
  | [] => 0
  | [tree] => tree.spills mark angle
  | tree :: rest =>
    tree.spills mark angle + (if angle ≤ tree.arrows ∧ mark = separator then 1 else 0) +
      spillsAll mark separator (angle - tree.arrows) rest

end

/-- The text ends with the `?` of a nullable. -/
def endsNullable : TypeTree → Bool
  | .string _ => false
  | .name _ => false
  | .generic _ _ => false
  | .any interface => interface.endsNullable
  | .function _ returnType => returnType.endsNullable
  | .record _ => false
  | .nullable _ => true
  | .union branches => lastEndsNullable branches
where
  lastEndsNullable : List TypeTree → Bool
  | [] => false
  | [tree] => tree.endsNullable
  | _ :: rest => lastEndsNullable rest

end TypeTree

/-! ## Scanning -/

theorem forall_of_all {p : Char → Bool} {text : Text} (h : text.all p = true) :
    ∀ ch ∈ text, p ch = true := List.all_eq_true.mp h

namespace Scan

def past (s : Scan) (text : Text) : Scan := text.foldl step s

theorem past_nil (s : Scan) : s.past [] = s := rfl

theorem past_cons (s : Scan) (ch : Char) (text : Text) :
    s.past (ch :: text) = (s.step ch).past text := rfl

theorem past_append (s : Scan) (first second : Text) :
    s.past (first ++ second) = (s.past first).past second := List.foldl_append

/-- The marks at depth zero that a scanner comes over. -/
def marks (mark : Char) (s : Scan) : Text → Nat
  | [] => 0
  | ch :: rest => (if s.atTop && ch == mark then 1 else 0) + marks mark (s.step ch) rest

theorem marks_append (mark : Char) (s : Scan) (first second : Text) :
    marks mark s (first ++ second) = marks mark s first + marks mark (s.past first) second := by
  induction first generalizing s with
  | nil => simp [marks, past_nil]
  | cons ch rest ih =>
    rw [List.cons_append, marks, ih, past_cons, marks]
    omega

/-- Outside of strings. -/
def depths (angle brace paren : Nat) : Scan := ⟨angle, brace, paren, false, false⟩

def isPlain (ch : Char) : Bool :=
  ch != '"' && ch != '<' && ch != '>' && ch != '{' && ch != '}' && ch != '(' && ch != ')'

variable {a b p : Nat} {mark : Char}

theorem atTop_depths : (depths a b p).atTop = decide (a = 0 ∧ b = 0 ∧ p = 0) := by
  rw [Bool.eq_iff_iff]
  simp [atTop, depths, and_assoc]

theorem step_plain {ch : Char} (h : isPlain ch = true) : (depths a b p).step ch = depths a b p := by
  simp only [isPlain, Bool.and_eq_true, bne_iff_ne, ne_eq] at h
  simp [step, depths, h]

@[simp] theorem step_openAngle : (depths a b p).step '<' = depths (a + 1) b p := rfl
@[simp] theorem step_closeAngle : (depths a b p).step '>' = depths (a - 1) b p := rfl
@[simp] theorem step_openBrace : (depths a b p).step '{' = depths a (b + 1) p := rfl
@[simp] theorem step_closeBrace : (depths a b p).step '}' = depths a (b - 1) p := rfl
@[simp] theorem step_openParen : (depths a b p).step '(' = depths a b (p + 1) := rfl
@[simp] theorem step_closeParen : (depths a b p).step ')' = depths a b (p - 1) := rfl

theorem past_plain {text : Text} (h : ∀ ch ∈ text, isPlain ch = true) :
    (depths a b p).past text = depths a b p := by
  induction text with
  | nil => rfl
  | cons ch rest ih =>
    rw [past_cons, step_plain (h ch List.mem_cons_self)]
    exact ih fun c hc => h c (.tail _ hc)

theorem marks_eq_zero {s : Scan} {text : Text} (h : mark ∉ text) : marks mark s text = 0 := by
  induction text generalizing s with
  | nil => rfl
  | cons ch rest ih =>
    have hne : ch ≠ mark := fun heq => h (heq ▸ (.head _))
    rw [marks, ih fun hrest => h (List.mem_cons_of_mem _ hrest)]
    simp [hne]

end Scan

end Skiff.Syntax
