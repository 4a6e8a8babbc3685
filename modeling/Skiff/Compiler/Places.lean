import Skiff.Syntax.Ast

/-!
# Writable places

`compiler/source/src/writable_places.rs`: a name with the selectors after it. Two places overlap
if one path is a prefix of the other; an index that is not a literal is taken to be any index.
-/

namespace Skiff.Compiler

open Syntax

inductive IndexSelector where
  | stringLiteral (value : Text)
  | numberLiteral (value : NumberBits)
  | dynamic
deriving DecidableEq

inductive Selector where
  | field (name : Text)
  | index (selector : IndexSelector)

inductive WritableRoot where
  | varBinding (name : Text)
  | inOutParam (index : Nat)
  | actorSelfField (field : Text)
deriving DecidableEq

structure WritablePlace where
  root : WritableRoot
  path : List Selector

def indexSelector : Expr → IndexSelector
  | .literal (.string value) => .stringLiteral value
  | .literal (.number value) => .numberLiteral value
  | _ => .dynamic

def selectorsMayOverlap : Selector → Selector → Bool
  | .field left, .field right => left = right
  | .index .dynamic, .index _ => true
  | .index _, .index .dynamic => true
  | .index left, .index right => left = right
  | .field _, .index _ => false
  | .index _, .field _ => false

def pathPrefix (left right : List Selector) : Bool :=
  left.length ≤ right.length && (left.zip right).all fun pair => selectorsMayOverlap pair.1 pair.2

def WritablePlace.overlaps (place other : WritablePlace) : Bool :=
  place.root = other.root && (pathPrefix place.path other.path || pathPrefix other.path place.path)

/-- The place of an expression, if it is an exact path. Bare `self` is no place. -/
def placeFromExpr : Expr → Option WritablePlace
  | .identifier name => if name = "self".toList then none else some ⟨.varBinding name, []⟩
  | .field (.identifier name) field =>
    if name = "self".toList then some ⟨.actorSelfField field, []⟩
    else (placeFromExpr (.identifier name)).map fun object =>
      ⟨object.root, object.path ++ [.field field]⟩
  | .field object field =>
    (placeFromExpr object).map fun object => ⟨object.root, object.path ++ [.field field]⟩
  | .index object index =>
    (placeFromExpr object).map fun object =>
      ⟨object.root, object.path ++ [.index (indexSelector index)]⟩
  | .generic callee _ => placeFromExpr callee
  | _ => none

def selectorsFromExpr : Expr → Option (List Selector)
  | .identifier _ => some []
  | .field object field => (selectorsFromExpr object).map (· ++ [.field field])
  | .index object index => (selectorsFromExpr object).map (· ++ [.index (indexSelector index)])
  | .generic callee _ => selectorsFromExpr callee
  | _ => none

def exprRootName : Expr → Option Text
  | .identifier name => some name
  | .field object _ => exprRootName object
  | .index object _ => exprRootName object
  | .generic callee _ => exprRootName callee
  | _ => none

/-! ## Places at run time -/

inductive IndexValue where
  | string (value : Text)
  | number (value : NumberBits)

inductive Step where
  | field (name : Text)
  | index (value : IndexValue)

/-- A step that the selector may stand for, by the value of its index. -/
inductive Selector.Takes : Selector → Step → Prop
  | field (name : Text) : Takes (.field name) (.field name)
  | stringLiteral (value : Text) : Takes (.index (.stringLiteral value)) (.index (.string value))
  | numberLiteral (value : NumberBits) :
      Takes (.index (.numberLiteral value)) (.index (.number value))
  | dynamic (value : IndexValue) : Takes (.index .dynamic) (.index value)

/-- With some values of their indices, one of the places is in the other. -/
def WritablePlace.MayMeet (place other : WritablePlace) : Prop :=
  place.root = other.root ∧ ∃ steps steps', List.Forall₂ Selector.Takes place.path steps ∧
    List.Forall₂ Selector.Takes other.path steps' ∧ (steps <+: steps' ∨ steps' <+: steps)

theorem selectorsMayOverlap_of_takes {left right : Selector} {step : Step}
    (h : left.Takes step) (h' : right.Takes step) : selectorsMayOverlap left right = true := by
  cases h with
  | field name =>
    cases h'
    simp [selectorsMayOverlap]
  | stringLiteral value =>
    cases h' with
    | stringLiteral => simp [selectorsMayOverlap]
    | dynamic => rfl
  | numberLiteral value =>
    cases h' with
    | numberLiteral => simp [selectorsMayOverlap]
    | dynamic => rfl
  | dynamic value => cases h' <;> rfl

theorem pathPrefix_of_takes {left right : List Selector} {steps steps' : List Step}
    (h : List.Forall₂ Selector.Takes left steps) (h' : List.Forall₂ Selector.Takes right steps')
    (hpre : steps <+: steps') : pathPrefix left right = true := by
  induction h generalizing right steps' with
  | nil => simp [pathPrefix]
  | @cons selector step left steps htake h ih =>
    obtain ⟨more, rfl⟩ := hpre
    cases h' with
    | @cons other _ right _ htake' h' =>
      have hrest := ih h' (List.prefix_append steps more)
      simp only [pathPrefix, Bool.and_eq_true, decide_eq_true_eq] at hrest ⊢
      refine ⟨by simpa using hrest.1, ?_⟩
      rw [List.zip_cons_cons, List.all_cons, selectorsMayOverlap_of_takes htake htake',
        Bool.true_and]
      exact hrest.2

/-- Places that do not overlap never meet. -/
theorem WritablePlace.overlaps_of_mayMeet {place other : WritablePlace}
    (h : place.MayMeet other) : place.overlaps other = true := by
  obtain ⟨hroot, steps, steps', hplace, hother, hpre⟩ := h
  have hpath : pathPrefix place.path other.path = true ∨
      pathPrefix other.path place.path = true := by
    obtain hpre | hpre := hpre
    · exact .inl (pathPrefix_of_takes hplace hother hpre)
    · exact .inr (pathPrefix_of_takes hother hplace hpre)
  simp only [overlaps, hroot, decide_true, Bool.true_and, Bool.or_eq_true]
  exact hpath

end Skiff.Compiler
