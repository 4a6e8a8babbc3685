import Mathlib.Data.List.TakeWhile
import Mathlib.Data.String.Basic
import Skiff.Data.Bson
import Skiff.Data.OrdMap

/-!
# Documents updated through dotted paths

A document is a finite map from top-level field names. An update assigns operators
to dotted paths, and an assignment at `a.b.c` can change nothing but the top-level
field `a`. What an operator does below the top level is left to the server, which
is a parameter here: it sees the rest of the path, the operand and the field as it
is, and answers with the field as it will be, or rejects the update.

The frame rule `get?_applyAll` is all that is needed to show that an update keeps
its hands off a field.
-/

namespace Skiff

open List

/-! ## Dotted paths -/

/-- The segments of a dotted path. There is always at least one. -/
def splitPath (path : String) : List String := (splitDots path.toList).map String.ofList

/-- The first segment of a dotted path. -/
def topLevel (path : String) : String := String.ofList (path.toList.takeWhile (· ≠ '.'))

theorem splitDots_eq (text : List Char) :
    ∃ rest, splitDots text = text.takeWhile (· ≠ '.') :: rest := by
  induction text with
  | nil => exact ⟨[], rfl⟩
  | cons c text ih =>
    obtain ⟨rest, hrest⟩ := ih
    by_cases hc : c = '.'
    · exact ⟨splitDots text, by simp [splitDots, hc]⟩
    refine ⟨rest, ?_⟩
    rw [splitDots, if_neg hc, hrest, takeWhile_cons_of_pos (by simpa using hc)]

variable (path : String)

theorem splitPath_eq : ∃ rest, splitPath path = topLevel path :: rest := by
  obtain ⟨rest, hrest⟩ := splitDots_eq path.toList
  refine ⟨rest.map String.ofList, ?_⟩
  rw [splitPath, hrest, map_cons]
  rfl

theorem topLevel_mem_splitPath : topLevel path ∈ splitPath path := by
  obtain ⟨rest, hrest⟩ := splitPath_eq path
  rw [hrest]
  exact .head _

@[simp] theorem toList_topLevel (path : String) :
    (topLevel path).toList = path.toList.takeWhile (· ≠ '.') := by
  simp [topLevel]

theorem splitDots_of_not_mem {text : List Char} (h : '.' ∉ text) : splitDots text = [text] := by
  induction text with
  | nil => rfl
  | cons c text ih =>
    rw [mem_cons, not_or] at h
    rw [splitDots, if_neg (Ne.symm h.1), ih h.2]

theorem splitDots_tail_eq_nil_iff {text : List Char} : (splitDots text).tail = [] ↔ '.' ∉ text := by
  constructor
  · intro h
    induction text with
    | nil => exact not_mem_nil
    | cons c text ih =>
      obtain ⟨rest, hrest⟩ := splitDots_eq text
      rw [splitDots] at h
      split at h
      case isTrue =>
        rw [tail_cons, hrest] at h
        cases h
      case isFalse hc =>
        rw [hrest] at h ih
        rw [mem_cons, not_or]
        exact ⟨Ne.symm hc, ih h⟩
  intro h
  rw [splitDots_of_not_mem h, tail_cons]

theorem splitPath_tail_eq_nil_iff {path : String} :
    (splitPath path).tail = [] ↔ '.' ∉ path.toList := by
  rw [splitPath, ← map_tail, map_eq_nil_iff, splitDots_tail_eq_nil_iff]

theorem dot_not_mem_topLevel : '.' ∉ (topLevel path).toList := by
  intro hdot
  rw [toList_topLevel] at hdot
  simpa using mem_takeWhile_imp hdot

theorem topLevel_eq_self_iff {path : String} : topLevel path = path ↔ '.' ∉ path.toList := by
  constructor
  · intro h
    rw [← h]
    exact dot_not_mem_topLevel path
  intro h
  have hall : path.toList.takeWhile (· ≠ '.') = path.toList :=
    takeWhile_eq_self_iff.mpr fun c hc => by
      have : c ≠ '.' := fun heq => h (heq ▸ hc)
      simpa using this
  rw [topLevel, hall, String.ofList_toList]

/-! ## Updates -/

inductive Operator where
  | set
  | inc
  | unset
  | addToSet
  | pull
deriving DecidableEq

/-- One operator at one path. -/
structure Assignment (β : Type u) where
  operator : Operator
  path : String
  operand : β

/-- What the operators do to the field they are aimed at. The outer `none` is a
rejected update, the inner one a field that is absent. -/
structure Server (α : Type u) (β : Type v) where
  effect : Operator → List String → β → Option α → Option (Option α)

namespace Server

/-- `$set` of a whole field stores its operand. -/
def SetsWhole {α : Type u} (server : Server α α) : Prop :=
  ∀ operand old, server.effect .set [] operand old = some (some operand)

variable {α : Type u} {β : Type v} (server : Server α β)

def applyOne (fields : OrdMap String α) (assignment : Assignment β) : Option (OrdMap String α) :=
  let name := topLevel assignment.path
  let rest := (splitPath assignment.path).tail
  match server.effect assignment.operator rest assignment.operand (fields.get? name) with
  | none => none
  | some none => some (fields.erase name)
  | some (some value) => some (fields.insert name value)

def applyAll (fields : OrdMap String α) (assignments : List (Assignment β)) :
    Option (OrdMap String α) :=
  assignments.foldlM server.applyOne fields

variable {server} {fields fields' : OrdMap String α}

variable {assignment : Assignment β} {name : String} {assignments : List (Assignment β)}

theorem get?_applyOne (h : server.applyOne fields assignment = some fields')
    (hname : topLevel assignment.path ≠ name) : fields'.get? name = fields.get? name := by
  simp only [applyOne] at h
  split at h
  · cases h
  · cases h
    exact OrdMap.get?_erase_of_ne _ (Ne.symm hname)
  cases h
  exact OrdMap.get?_insert_of_ne _ _ (Ne.symm hname)

/-- The field an assignment is aimed at becomes what the server says. -/
theorem get?_applyOne_self (h : server.applyOne fields assignment = some fields') :
    server.effect assignment.operator (splitPath assignment.path).tail assignment.operand
        (fields.get? (topLevel assignment.path)) =
      some (fields'.get? (topLevel assignment.path)) := by
  simp only [applyOne] at h
  split at h
  · cases h
  case h_2 heffect =>
    cases h
    rw [heffect, OrdMap.get?_erase, if_pos rfl]
  case h_3 value heffect =>
    cases h
    rw [heffect, OrdMap.get?_insert, if_pos rfl]

/-- A property of one field that every assignment to it establishes holds after an
update, if it held before or the update assigns to the field at all. -/
theorem applyAll_establishes (h : server.applyAll fields assignments = some fields')
    {P : Option α → Prop} (hassigned : ∀ assignment ∈ assignments, topLevel assignment.path = name →
      ∀ old new, server.effect assignment.operator (splitPath assignment.path).tail
        assignment.operand old = some new → P new)
    (hstart : P (fields.get? name) ∨ ∃ assignment ∈ assignments, topLevel assignment.path = name) :
    P (fields'.get? name) := by
  induction assignments generalizing fields with
  | nil =>
    cases h
    obtain hstart | ⟨assignment, hmem, -⟩ := hstart
    · exact hstart
    · cases hmem
  | cons assignment rest ih =>
    obtain ⟨middle, hmiddle, hrest⟩ := Option.bind_eq_some_iff.mp h
    rw [forall_mem_cons] at hassigned
    refine ih hrest hassigned.2 ?_
    by_cases hname : topLevel assignment.path = name
    · left
      have heffect := get?_applyOne_self hmiddle
      rw [hname] at heffect
      exact hassigned.1 hname _ _ heffect
    obtain hstart | ⟨other, hmem, hother⟩ := hstart
    · left
      rw [get?_applyOne hmiddle hname]
      exact hstart
    obtain rfl | hmem := mem_cons.mp hmem
    · exact absurd hother hname
    · exact .inr ⟨other, hmem, hother⟩

/-- An update leaves a field alone that none of its paths starts at. -/
theorem get?_applyAll (h : server.applyAll fields assignments = some fields')
    (hname : ∀ assignment ∈ assignments, topLevel assignment.path ≠ name) :
    fields'.get? name = fields.get? name := by
  refine applyAll_establishes (P := fun value => value = fields.get? name) h ?_ (.inl rfl)
  intro assignment hmem hself
  exact absurd hself (hname assignment hmem)

end Server

end Skiff
