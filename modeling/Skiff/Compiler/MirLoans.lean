import Skiff.Compiler.Loans
import Skiff.Compiler.TypeRef

/-!
# The loans of a call in the MIR

The check that `call_writable_facts` (`compiler/lowering/src/mir/facts.rs`) makes again of the
inout arguments of a call once they are lowered. The source rules tell two literal indices apart;
here any two indices may be the same.
-/

namespace Skiff.Compiler

open Syntax List Selector

/-! ## Lowered arguments -/

inductive InOutPathSegmentIr where
  | field (name : Text)
  | index (selector : Nat)

structure InOutArgIr where
  parameterOrdinal : Nat
  rootSlot : Nat
  path : List InOutPathSegmentIr

inductive MirSlotKind where
  | param
  | selfValue
  | «local»
  | temp
  | pattern
deriving DecidableEq

structure MirSlot where
  slot : Nat
  kind : MirSlotKind
  writableLocal : Bool
  ty : Option TypeRefIr

structure MirExpression where
  index : Nat
  ty : TypeRefIr

/-- The part of the facts of an index access that is read here. -/
structure MirIndexAccessFacts where
  selectorType : TypeRefIr

/-! ## The check -/

inductive MirInOutPathSegment where
  | field (name : Text)
  | index (selector : Nat) (selectorType : TypeRefIr) (access : MirIndexAccessFacts)

structure MirInOutLoan where
  parameterOrdinal : Nat
  rootSlot : Nat
  rootType : TypeRefIr
  path : List MirInOutPathSegment

def mirPathPrefix (left right : List MirInOutPathSegment) : Bool :=
  left.length ≤ right.length &&
    (left.zip right).all fun pair =>
      match pair with
      | (.field left, .field right) => left = right
      | (.index _ _ _, .index _ _ _) => true
      | _ => false

def inoutLoansOverlap (left right : MirInOutLoan) : Bool :=
  left.rootSlot = right.rootSlot &&
    (mirPathPrefix left.path right.path || mirPathPrefix right.path left.path)

/-- What the MIR builder knows of a function; `debug` is the debug text of a type. -/
structure MirFacts where
  slots : List MirSlot
  expressions : List MirExpression
  indexAccesses : Nat → Option MirIndexAccessFacts
  debug : TypeRefIr → String

namespace MirFacts

variable (facts : MirFacts)

def validateRootSlot (slot : Nat) : Except String MirSlot :=
  match facts.slots[slot]? with
  | none => .error ("writable root references missing slot " ++ toString slot)
  | some entry =>
    if entry.slot = slot then .ok entry
    else .error ("writable root slot " ++ toString slot ++ " found stored index " ++
      toString entry.slot)

def expressionAt (reference : Nat) : Except String MirExpression :=
  match facts.expressions[reference]? with
  | none => .error ("missing expression " ++ toString reference)
  | some expression =>
    if expression.index = reference then .ok expression
    else .error ("expression lookup " ++ toString reference ++ " found stored index " ++
      toString expression.index)

def indexAccess (selector : Nat) : Except String MirIndexAccessFacts := do
  let expression ← facts.expressionAt selector
  match facts.indexAccesses selector with
  | none => .error ("index selector " ++ toString selector ++ " has no exact source fact")
  | some access =>
    if access.selectorType = expression.ty then .ok access
    else .error ("index selector " ++ toString selector ++ " type " ++ facts.debug expression.ty ++
      " disagrees with source fact " ++ facts.debug access.selectorType)

def pathSegment : InOutPathSegmentIr → Except String MirInOutPathSegment
  | .field name => .ok (.field name)
  | .index selector => do
    let expression ← facts.expressionAt selector
    let access ← facts.indexAccess selector
    return .index selector expression.ty access

def inoutLoan (arg : InOutArgIr) : Except String MirInOutLoan := do
  let root ← facts.validateRootSlot arg.rootSlot
  if root.kind ≠ .local ∨ root.writableLocal = false then
    .error ("inout loan for parameter " ++ toString arg.parameterOrdinal ++ " root slot " ++
      toString arg.rootSlot ++ " is not a source-confirmed writable local")
  else
    match root.ty with
    | none => .error ("inout loan for parameter " ++ toString arg.parameterOrdinal ++
        " root slot " ++ toString arg.rootSlot ++ " has no exact type")
    | some rootType =>
      return ⟨arg.parameterOrdinal, arg.rootSlot, rootType, ← arg.path.mapM facts.pathSegment⟩

def addLoan (loans : List MirInOutLoan) (arg : InOutArgIr) : Except String (List MirInOutLoan) := do
  let candidate ← facts.inoutLoan arg
  if loans.any fun existing => existing.parameterOrdinal = candidate.parameterOrdinal then
    .error ("inout call repeats callee parameter ordinal " ++ toString candidate.parameterOrdinal)
  else if loans.any fun existing => inoutLoansOverlap existing candidate then
    .error ("inout loan for parameter " ++ toString arg.parameterOrdinal ++
      " overlaps an earlier loan for root slot " ++ toString arg.rootSlot)
  else return loans ++ [candidate]

/-- The loans of `call_writable_facts`, for a call whose target is exact or not. -/
def callInoutLoans (exact : Bool) (args : List InOutArgIr) : Except String (List MirInOutLoan) := do
  if args ≠ [] ∧ exact = false then
    .error "inout loans require an exact local, publication-local, or package-direct target"
  else
    let loans ← args.foldlM facts.addLoan []
    return loans.mergeSort fun left right => left.parameterOrdinal ≤ right.parameterOrdinal

end MirFacts

/-! ## The two tests of a pair -/

/-- What a step of a path is if all indices are alike. -/
def Selector.shape : Selector → Option Text
  | .field name => some name
  | .index _ => none

def InOutPathSegmentIr.shape : InOutPathSegmentIr → Option Text
  | .field name => some name
  | .index _ => none

def MirInOutPathSegment.shape : MirInOutPathSegment → Option Text
  | .field name => some name
  | .index _ _ _ => none

/-- A root and the shape of a path. -/
abbrev Outline (κ : Type) : Type := κ × List (Option Text)

/-- One of the outlines is in the other. -/
def Outline.Meets {κ : Type} (outline other : Outline κ) : Prop :=
  outline.1 = other.1 ∧ (outline.2 <+: other.2 ∨ other.2 <+: outline.2)

def WritablePlace.outline (place : WritablePlace) : Outline WritableRoot :=
  (place.root, place.path.map shape)

def InOutArgIr.outline (arg : InOutArgIr) : Outline Nat :=
  (arg.rootSlot, arg.path.map InOutPathSegmentIr.shape)

def MirInOutLoan.outline (loan : MirInOutLoan) : Outline Nat :=
  (loan.rootSlot, loan.path.map MirInOutPathSegment.shape)

theorem shape_of_mayOverlap {a b : Selector} (h : selectorsMayOverlap a b = true) :
    a.shape = b.shape := by
  cases a with
  | field name =>
    cases b with
    | field other => exact congrArg some (of_decide_eq_true h)
    | index _ => simp [selectorsMayOverlap] at h
  | index _ =>
    cases b with
    | field other => simp [selectorsMayOverlap] at h
    | index _ => rfl

theorem pathPrefix_shape {left right : List Selector} (h : pathPrefix left right = true) :
    left.map shape <+: right.map shape := by
  induction left generalizing right with
  | nil => exact nil_prefix
  | cons a left ih =>
    cases right with
    | nil => simp [pathPrefix] at h
    | cons b right =>
      simp only [pathPrefix, length_cons, Nat.add_le_add_iff_right, zip_cons_cons,
        all_cons, Bool.and_eq_true] at h
      obtain ⟨hlength, hfirst, hrest⟩ := h
      rw [map_cons, map_cons, cons_prefix_cons]
      exact ⟨shape_of_mayOverlap hfirst, ih (Bool.and_eq_true _ _ ▸ ⟨hlength, hrest⟩)⟩

theorem WritablePlace.meets_of_overlaps {place other : WritablePlace}
    (h : place.overlaps other = true) : place.outline.Meets other.outline := by
  rw [overlaps, Bool.and_eq_true, Bool.or_eq_true] at h
  exact ⟨of_decide_eq_true h.1, h.2.imp pathPrefix_shape pathPrefix_shape⟩

theorem WritablePlace.overlaps_comm (place other : WritablePlace) :
    place.overlaps other = other.overlaps place := by
  rw [overlaps, overlaps, Bool.or_comm]
  congr 1
  exact decide_eq_decide.mpr eq_comm

theorem mirPathPrefix_iff {left right : List MirInOutPathSegment} :
    mirPathPrefix left right = true ↔
      left.map MirInOutPathSegment.shape <+: right.map MirInOutPathSegment.shape := by
  induction left generalizing right with
  | nil => simp [mirPathPrefix]
  | cons a left ih =>
    cases right with
    | nil => simp [mirPathPrefix]
    | cons b right =>
      rw [map_cons, map_cons, cons_prefix_cons, ← ih]
      simp only [mirPathPrefix, length_cons, Nat.add_le_add_iff_right, zip_cons_cons,
        all_cons, Bool.and_eq_true]
      rw [and_left_comm]
      refine and_congr_left fun _ => ?_
      cases a <;> cases b <;> simp [MirInOutPathSegment.shape]

theorem inoutLoansOverlap_iff {loan other : MirInOutLoan} :
    inoutLoansOverlap loan other = true ↔ loan.outline.Meets other.outline := by
  rw [inoutLoansOverlap, Bool.and_eq_true, Bool.or_eq_true, decide_eq_true_eq, mirPathPrefix_iff,
    mirPathPrefix_iff]
  rfl

/-! ## The two tests of a list -/

section Clashes

variable {α : Type} {R : α → α → Prop} {existing rest : List α} {x : α}

theorem not_pairwise_of_mem {a : α} (ha : a ∈ existing) (h : R a x) :
    ¬ (existing ++ x :: rest).Pairwise fun a b => ¬ R a b :=
  fun hpairwise => (pairwise_append.mp hpairwise).2.2 a ha x (.head _) h

theorem pairwise_concat (hexisting : existing.Pairwise fun a b => ¬ R a b)
    (h : ∀ a ∈ existing, ¬ R a x) : (existing ++ [x]).Pairwise fun a b => ¬ R a b := by
  rw [pairwise_append]
  refine ⟨hexisting, pairwise_singleton _ _, fun a ha b hb => ?_⟩
  rw [mem_singleton.mp hb]
  exact h a ha

end Clashes

variable {facts : MirFacts} {scope : Scope}

/-- The overlap test of `validate_inout_call` finds nothing. -/
def SourceAccepts (scope : Scope) (exprs : List Expr) : Prop :=
  (exprs.foldl (Loans.add scope) ⟨[], false, []⟩).rejected = false

theorem rejected_foldl {exprs : List Expr} {s : Loans} (h : s.rejected = true) :
    (exprs.foldl (Loans.add scope) s).rejected = true := by
  induction exprs generalizing s with
  | nil => exact h
  | cons expr rest ih =>
    apply ih
    obtain ⟨message, heq⟩ | ⟨place, -, -, heq⟩ := @Loans.add_cases scope s expr
    · rw [heq]
      rfl
    rw [heq]
    exact h

theorem foldl_add_iff {exprs : List Expr} {s : Loans}
    (hvars : ∀ expr ∈ exprs, ∃ name path, placeFromExpr expr = some ⟨.varBinding name, path⟩ ∧
      scope name = some .var)
    (hs : s.rejected = false) (hplaces : s.places.Pairwise fun a b => ¬ a.overlaps b = true) :
    (exprs.foldl (Loans.add scope) s).rejected = false ↔
      (s.places ++ exprs.filterMap placeFromExpr).Pairwise fun a b => ¬ a.overlaps b = true := by
  induction exprs generalizing s with
  | nil => simpa only [foldl_nil, hs, filterMap_nil, append_nil, true_iff]
  | cons expr rest ih =>
    obtain ⟨name, path, hplace, hscope⟩ := hvars expr (.head _)
    rw [foldl_cons, filterMap_cons_some hplace, Loans.add, hplace]
    simp only [hscope, if_true, WritablePlace.overlaps_comm ⟨.varBinding name, path⟩, Bool.or_self,
      any_eq_true]
    split
    case isTrue hclash =>
      obtain ⟨existing, hmem, hoverlaps⟩ := hclash
      refine iff_of_false ?_ (not_pairwise_of_mem hmem hoverlaps)
      rw [rejected_foldl rfl]
      exact Bool.noConfusion
    case isFalse hnone =>
      have hnext := pairwise_concat hplaces fun existing hmem hoverlaps =>
        hnone ⟨existing, hmem, hoverlaps⟩
      have hrest := @ih { s with places := s.places ++ [⟨.varBinding name, path⟩] }
        (fun other hother => hvars other (.tail _ hother)) hs hnext
      rw [append_assoc] at hrest
      exact hrest

/-- What the MIR builder has for a lowered argument: a writable slot with a type, and the facts of
each selector. -/
structure Built (facts : MirFacts) (arg : InOutArgIr) : Prop where
  root : ∃ ty, facts.slots[arg.rootSlot]? = some ⟨arg.rootSlot, .local, true, some ty⟩
  selectors : ∀ selector, .index selector ∈ arg.path → ∃ expression access,
    facts.expressionAt selector = .ok expression ∧ facts.indexAccess selector = .ok access

theorem pathSegments_ok {segments : List InOutPathSegmentIr}
    (h : ∀ selector, .index selector ∈ segments → ∃ expression access,
      facts.expressionAt selector = .ok expression ∧ facts.indexAccess selector = .ok access) :
    ∃ path, segments.mapM facts.pathSegment = .ok path ∧
      path.map MirInOutPathSegment.shape = segments.map InOutPathSegmentIr.shape := by
  induction segments with
  | nil => exact ⟨[], rfl, rfl⟩
  | cons segment segments ih =>
    obtain ⟨path, hpath, hshape⟩ := ih fun selector hmem => h selector (.tail _ hmem)
    obtain ⟨first, hfirst, hsame⟩ : ∃ first, facts.pathSegment segment = .ok first ∧
        first.shape = segment.shape := by
      cases segment with
      | field name => exact ⟨.field name, rfl, rfl⟩
      | index selector =>
        obtain ⟨expression, access, hexpression, haccess⟩ := h selector (.head _)
        refine ⟨.index selector expression.ty access, ?_, rfl⟩
        rw [MirFacts.pathSegment, hexpression, haccess]
        rfl
    refine ⟨first :: path, ?_, congrArg₂ cons hsame hshape⟩
    rw [mapM_cons, hfirst, hpath]
    rfl

theorem Built.loan {arg : InOutArgIr} (h : Built facts arg) : ∃ loan,
    facts.inoutLoan arg = .ok loan ∧ loan.parameterOrdinal = arg.parameterOrdinal ∧
      loan.outline = arg.outline := by
  obtain ⟨ty, hentry⟩ := h.root
  obtain ⟨path, hpath, hshape⟩ := pathSegments_ok h.selectors
  refine ⟨⟨arg.parameterOrdinal, arg.rootSlot, ty, path⟩, ?_, rfl, congrArg _ hshape⟩
  simp [MirFacts.inoutLoan, MirFacts.validateRootSlot, hentry, hpath]
  rfl

theorem foldlM_addLoan_iff {args : List InOutArgIr} {existing : List MirInOutLoan}
    (hbuilt : ∀ arg ∈ args, Built facts arg)
    (hordinals : (existing.map MirInOutLoan.parameterOrdinal ++
      args.map InOutArgIr.parameterOrdinal).Nodup)
    (hexisting : (existing.map MirInOutLoan.outline).Pairwise fun a b => ¬ a.Meets b) :
    (∃ out, args.foldlM facts.addLoan existing = .ok out) ↔
      (existing.map MirInOutLoan.outline ++ args.map InOutArgIr.outline).Pairwise
        fun a b => ¬ a.Meets b := by
  induction args generalizing existing with
  | nil => exact iff_of_true ⟨existing, rfl⟩ (by simpa using hexisting)
  | cons arg args ih =>
    obtain ⟨loan, hloan, hordinal, houtline⟩ := (hbuilt arg (.head _)).loan
    have hfresh : ¬ (existing.any fun other => other.parameterOrdinal = loan.parameterOrdinal) =
        true := by
      rw [any_eq_true]
      rintro ⟨other, hother, heq⟩
      exact (nodup_append.mp hordinals).2.2 _ (mem_map_of_mem hother) _ (.head _)
        ((of_decide_eq_true heq).trans hordinal)
    rw [foldlM_cons, map_cons, ← houtline]
    by_cases hclash : (existing.any fun other => inoutLoansOverlap other loan) = true
    · have hadd : ∃ message, facts.addLoan existing arg = .error message := by
        rw [MirFacts.addLoan, hloan]
        exact ⟨_, (if_neg hfresh).trans (if_pos hclash)⟩
      obtain ⟨message, hadd⟩ := hadd
      obtain ⟨other, hother, hoverlap⟩ := any_eq_true.mp hclash
      rw [hadd]
      refine iff_of_false ?_ (not_pairwise_of_mem (mem_map_of_mem hother)
        (inoutLoansOverlap_iff.mp hoverlap))
      rintro ⟨out, hout⟩
      cases hout
    have hadd : facts.addLoan existing arg = .ok (existing ++ [loan]) := by
      rw [MirFacts.addLoan, hloan]
      exact (if_neg hfresh).trans (if_neg hclash)
    have hrest := @ih (existing ++ [loan]) (fun other hother => hbuilt other (.tail _ hother))
    simp only [map_append, map_cons, map_nil, append_assoc, hordinal, singleton_append] at hrest
    rw [hadd]
    refine hrest hordinals (pairwise_concat hexisting fun outline houtline hmeets => ?_)
    obtain ⟨other, hother, rfl⟩ := mem_map.mp houtline
    exact hclash (any_eq_true.mpr ⟨other, hother, inoutLoansOverlap_iff.mpr hmeets⟩)

/-! ## Agreement -/

/-- The arguments are what the places are lowered to, in the slots of their roots. -/
structure Lowered (facts : MirFacts) (slotOf : WritableRoot → Nat) (places : List WritablePlace)
    (args : List InOutArgIr) : Prop where
  outlines : args.map InOutArgIr.outline =
    places.map fun place => (slotOf place.root, place.path.map shape)
  slots : ∀ place ∈ places, ∀ other ∈ places,
    slotOf place.root = slotOf other.root → place.root = other.root
  built : ∀ arg ∈ args, Built facts arg
  ordinals : (args.map InOutArgIr.parameterOrdinal).Nodup

/-- No two of the places overlap, but two do if all indices are alike. -/
def LiteralApart (places : List WritablePlace) : Prop :=
  (places.Pairwise fun a b => ¬ a.overlaps b = true) ∧
    ¬ places.Pairwise fun a b => ¬ a.outline.Meets b.outline

variable {slotOf : WritableRoot → Nat} {places : List WritablePlace} {args : List InOutArgIr}

theorem Lowered.accepts_iff (h : Lowered facts slotOf places args) :
    (∃ loans, facts.callInoutLoans true args = .ok loans) ↔
      places.Pairwise fun a b => ¬ a.outline.Meets b.outline := by
  have hfold := @foldlM_addLoan_iff facts args [] h.built h.ordinals .nil
  rw [map_nil, nil_append, h.outlines, pairwise_map] at hfold
  have hrun : (∃ loans, facts.callInoutLoans true args = .ok loans) ↔
      ∃ out, args.foldlM facts.addLoan [] = .ok out := by
    rw [MirFacts.callInoutLoans, if_neg (by simp)]
    constructor
    · rintro ⟨out, hout⟩
      obtain ⟨found, hfound, -⟩ := bind_eq_ok.mp hout
      exact ⟨found, hfound⟩
    rintro ⟨found, hfound⟩
    exact ⟨_, bind_eq_ok.mpr ⟨found, hfound, rfl⟩⟩
  rw [hrun, hfold]
  exact List.Pairwise.iff_of_mem fun {a b} ha hb =>
    not_congr (and_congr_left fun _ => ⟨h.slots a ha b hb, congrArg slotOf⟩)

/-- The two tests agree exactly if it is not literal indices alone that tell the places apart, and
the one of the MIR never accepts what the source rules reject. -/
theorem inoutLoans_agree_iff {exprs : List Expr}
    (hvars : ∀ expr ∈ exprs, ∃ name path, placeFromExpr expr = some ⟨.varBinding name, path⟩ ∧
      scope name = some .var)
    (h : Lowered facts slotOf (exprs.filterMap placeFromExpr) args) :
    ((∃ loans, facts.callInoutLoans true args = .ok loans) → SourceAccepts scope exprs) ∧
      ((SourceAccepts scope exprs ↔ ∃ loans, facts.callInoutLoans true args = .ok loans) ↔
        ¬ LiteralApart (exprs.filterMap placeFromExpr)) := by
  have hsource : SourceAccepts scope exprs ↔
      (exprs.filterMap placeFromExpr).Pairwise fun a b => ¬ a.overlaps b = true :=
    foldl_add_iff hvars rfl .nil
  have hmir : (∃ loans, facts.callInoutLoans true args = .ok loans) → SourceAccepts scope exprs :=
    fun haccepts => hsource.mpr ((h.accepts_iff.mp haccepts).imp fun hnot hoverlaps =>
      hnot (WritablePlace.meets_of_overlaps hoverlaps))
  refine ⟨hmir, ?_⟩
  rw [LiteralApart, ← hsource, ← h.accepts_iff]
  constructor
  · rintro hagree ⟨haccepts, hnot⟩
    exact hnot (hagree.mp haccepts)
  · intro hnot
    refine ⟨fun haccepts => ?_, hmir⟩
    by_contra hclash
    exact hnot ⟨haccepts, hclash⟩

/-- A function with the one `var` `a`. -/
def cellFacts : MirFacts where
  slots := [⟨0, .local, true, some (.builtin "Array" [])⟩]
  expressions := [⟨0, .builtin "number" []⟩, ⟨1, .builtin "number" []⟩]
  indexAccesses _ := some ⟨.builtin "number" []⟩
  debug _ := "number"

/-- The arguments of `f(inout a.x, inout a.y)`. -/
def fieldExprs : List Expr := [.field (.identifier ['a']) ['x'], .field (.identifier ['a']) ['y']]

theorem inoutLoans_agree_fields : SourceAccepts varScope fieldExprs ↔
    ∃ loans, cellFacts.callInoutLoans true [⟨0, 0, [.field ['x']]⟩, ⟨1, 0, [.field ['y']]⟩] =
      .ok loans := by
  refine (@inoutLoans_agree_iff cellFacts varScope (fun _ => 0) _ fieldExprs ?_
    ⟨rfl, ?_, ?_, by decide⟩).2.mpr ?_
  · simp [fieldExprs, placeFromExpr, varScope]
  · simp [fieldExprs, placeFromExpr]
  · simp only [forall_mem_cons, not_mem_nil, false_imp_iff, implies_true, and_true]
    exact ⟨⟨⟨_, rfl⟩, by simp⟩, ⟨_, rfl⟩, by simp⟩
  · rintro ⟨-, hclash⟩
    simp [fieldExprs, placeFromExpr, Outline.Meets, WritablePlace.outline, shape] at hclash

/-- The arguments of `f(inout a[0], inout a[1])`. -/
def itemExprs : List Expr :=
  [.index (.identifier ['a']) (.literal (.number 0)),
    .index (.identifier ['a']) (.literal (.number 1))]

def itemArgs : List InOutArgIr := [⟨0, 0, [.index 0]⟩, ⟨1, 0, [.index 1]⟩]

/-- The source rules accept the loans of two items, and the MIR does not. -/
theorem items_overlap_in_mir :
    Lowered cellFacts (fun _ => 0) (itemExprs.filterMap placeFromExpr) itemArgs ∧
      SourceAccepts varScope itemExprs ∧
      ¬ ∃ loans, cellFacts.callInoutLoans true itemArgs = .ok loans := by
  refine ⟨⟨rfl, ?_, ?_, by decide⟩, rfl, ?_⟩
  · simp [itemExprs, placeFromExpr]
  · simp only [itemArgs, forall_mem_cons, not_mem_nil, false_imp_iff, implies_true, and_true]
    exact ⟨⟨⟨_, rfl⟩, by simp; exact ⟨⟨_, rfl⟩, _, rfl⟩⟩, ⟨_, rfl⟩,
      by simp; exact ⟨⟨_, rfl⟩, _, rfl⟩⟩
  · rintro ⟨loans, hloans⟩
    have hrefused : (cellFacts.callInoutLoans true itemArgs).isOk = false := by decide
    rw [hloans] at hrefused
    cases hrefused

end Skiff.Compiler
