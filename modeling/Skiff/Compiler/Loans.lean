import Skiff.Compiler.Places

/-!
# Exclusive loans

`compiler/source/src/execution_semantics/inout.rs`: while a call holds the places of its `inout`
arguments, no other argument may read or write them. The check walks the other arguments, and does
not go into all of their parts.
-/

namespace Skiff.Compiler

open Syntax List

/-! ## The check -/

/-- `expr_path` of `ast_utils.rs`. -/
def exprPath : Expr → Option Text
  | .identifier name => some name
  | .field object field => (exprPath object).map (· ++ '.' :: field)
  | .generic callee _ => exprPath callee
  | .dependencySourceAddress dependencyRef publicPath => some (dependencyRef ++ '/' :: publicPath)
  | _ => none

/-- The place that an expression reads as a whole. -/
def readPlace (expr : Expr) : Option WritablePlace :=
  match selectorsFromExpr expr, exprRootName expr with
  | some selectors, some root => some ⟨.varBinding root, selectors⟩
  | _, _ => none

section

variable (loans : List WritablePlace)

def readsLoan (expr : Expr) : Bool :=
  match readPlace expr with
  | some read => loans.any fun loan => loan.overlaps read
  | none => false

mutual

def walkExprForLoans (expr : Expr) : Bool :=
  readsLoan loans expr ||
    match expr with
    | .literal _ => false
    | .identifier _ => false
    | .dependencySourceAddress _ _ => false
    | .field _ _ => false
    | .generic _ _ => false
    | .index _ index => walkExprForLoans index
    | .binary _ left right => walkExprForLoans left || walkExprForLoans right
    | .unary _ expr => walkExprForLoans expr
    | .interfaceBox value _ => walkExprForLoans value
    | .ternary condition thenExpr elseExpr =>
      walkExprForLoans condition || walkExprForLoans thenExpr || walkExprForLoans elseExpr
    | .call callee args => walkExprForLoans callee || walkArgs args
    | .record _ _ fields => walkFields fields
    | .objectLiteral entries => walkFields entries
    | .mapLiteral entries => walkFields entries
    | .arrayLiteral items => walkItems items
    | .patch _ operations => walkOperations operations
    | .valueBlock _ tail => walkExprForLoans tail
    | .concurrentValue _ tail => walkExprForLoans tail
    | .timeout _ value => walkExprForLoans value
    | .throw value => walkExprForLoans value
    | .rethrow exception => walkExprForLoans exception
    | .tryCatch _ tryExpr => walkExprForLoans tryExpr
    | .dbOperation _ => false
    | .dbQuery _ _ => false
    | .dbTransaction _ _ => false
    | .dbLeaseClaim _ _ _ _ _ => false
    | .dbLeaseRead _ _ _ => false
    | .dispatch _ _ => false

def walkArgs : List CallArg → Bool
  | [] => false
  | .value expr :: rest => walkExprForLoans expr || walkArgs rest
  | .inOutPlace expr :: rest => walkExprForLoans expr || walkArgs rest

def walkFields : List (Text × Expr) → Bool
  | [] => false
  | (_, value) :: rest => walkExprForLoans value || walkFields rest

def walkItems : List Expr → Bool
  | [] => false
  | item :: rest => walkExprForLoans item || walkItems rest

def walkOperations : List PatchOperation → Bool
  | [] => false
  | .set _ value :: rest => walkExprForLoans value || walkOperations rest
  | .inc _ value :: rest => walkExprForLoans value || walkOperations rest

end

def loanedPlaceUse (expr : Expr) : Option String :=
  if walkExprForLoans loans expr then some "reads or writes the loaned place" else none

end

inductive BindingKind where
  | var
  | immutable
  | selfValue
  | inOutParam
deriving DecidableEq

abbrev Scope := Text → Option BindingKind

/-- The resolved target of a call, as far as the check looks at it. -/
inductive InOutTarget where
  | localCallable (sourceCallable : Text)
  | dependencyPackageFunction (inoutParameters : Nat → Option Text) (maySuspend : Option Bool)
  | other

inductive CallableEffectSummary where
  | analyzed (mayPending : Bool)
  | unknown

/-- What the analysis knows of the callables of the package. -/
structure OwnerAnalyzer where
  inoutParamIndices : Text → Nat → Option Text
  callableEffects : Text → Option CallableEffectSummary

def OwnerAnalyzer.mayPending (analyzer : OwnerAnalyzer) (sourceCallable : Text) : Bool :=
  match analyzer.callableEffects sourceCallable with
  | some (.analyzed mayPending) => mayPending
  | some .unknown => true
  | none => true

def notExact (calleePath : String) (index : Nat) : String :=
  "inout only allowed on exact package-local or package-direct targets; argument " ++
    toString index ++ " of `" ++ calleePath ++ "` targets a dynamic or non-exact callee"

def notWritable : String := "inout argument must be a writable place derived from a local `var`"

/-- Every inout parameter has an inout argument, and no other one has. -/
def validatePlacement (declared : Nat → Option Text) (calleePath : String)
    (position : CallArg × Nat) : List String :=
  match position.1.isInOutPlace, declared position.2 with
  | true, none =>
    ["inout argument at position " ++ toString position.2 ++
      " does not match an inout parameter of `" ++ calleePath ++ "`"]
  | false, some name =>
    ["inout argument required for parameter `" ++ String.ofList name ++ "` of `" ++ calleePath ++
      "`"]
  | true, some _ => []
  | false, none => []

/-- The loans so far, and whether one was rejected. -/
structure Loans where
  places : List WritablePlace
  rejected : Bool
  diagnostics : List String

namespace Loans

def reject (s : Loans) (message : String) : Loans :=
  { s with rejected := true, diagnostics := s.diagnostics ++ [message] }

def add (scope : Scope) (s : Loans) (expr : Expr) : Loans :=
  match placeFromExpr expr with
  | none => s.reject notWritable
  | some place =>
    match place.root with
    | .varBinding name =>
      if scope name = some .var then
        if s.places.any fun existing => existing.overlaps place || place.overlaps existing then
          s.reject "overlapping inout arguments"
        else { s with places := s.places ++ [place] }
      else s.reject notWritable
    | .actorSelfField _ => s.reject notWritable
    | .inOutParam _ => s.reject notWritable

end Loans

/-- The expressions of the inout arguments. -/
def inOutExprs : List CallArg → List Expr
  | [] => []
  | .inOutPlace expr :: rest => expr :: inOutExprs rest
  | .value _ :: rest => inOutExprs rest

def validateUse (loans : List WritablePlace) (calleePath : String) (position : CallArg × Nat) :
    List String :=
  match position.1 with
  | .inOutPlace _ => []
  | .value expr =>
    match loanedPlaceUse loans expr with
    | some reason =>
      ["inout place is exclusively loaned; argument " ++ toString position.2 ++ " of `" ++
        calleePath ++ "` " ++ reason]
    | none => []

def validateLoans (declared : Nat → Option Text) (mayPending : Bool) (calleePath : String)
    (args : List CallArg) (scope : Scope) : List String :=
  let placement := args.zipIdx.flatMap (validatePlacement declared calleePath)
  let pending :=
    if mayPending then
      ["inout call requires a NoPending callee; `" ++ calleePath ++ "` may suspend"]
    else []
  let loans := (inOutExprs args).foldl (Loans.add scope) ⟨[], false, []⟩
  let diagnostics := placement ++ pending ++ loans.diagnostics
  if loans.rejected then diagnostics
  else diagnostics ++ args.zipIdx.flatMap (validateUse loans.places calleePath)

/-- The diagnostics that the check of a call adds. -/
def validateInoutCall (analyzer : OwnerAnalyzer) (target : Option InOutTarget) (call : Expr)
    (args : List CallArg) (scope : Scope) (inLane : Bool) : List String :=
  match call with
  | .call callee _ =>
    let positions := (args.zipIdx.filter fun position => position.1.isInOutPlace).map Prod.snd
    if positions.isEmpty then []
    else if inLane then ["sibling lane must not issue inout calls"]
    else
      let calleePath := String.ofList ((exprPath callee).getD "<callee>".toList)
      match target with
      | some (.localCallable sourceCallable) =>
        validateLoans (analyzer.inoutParamIndices sourceCallable)
          (analyzer.mayPending sourceCallable) calleePath args scope
      | some (.dependencyPackageFunction inoutParameters maySuspend) =>
        validateLoans inoutParameters (maySuspend.getD true) calleePath args scope
      | some .other => positions.map (notExact calleePath)
      | none => positions.map (notExact calleePath)
  | _ => []

/-! ## What an expression reads -/

section

variable (fields : TypeRef → List Text)

/-- The paths that an expression reads, each with the names that are bound around it. Of an object
of a longer path only what stands in its selectors is read by itself. -/
inductive Reads : Bool → List Text → Expr → WritablePlace → Prop
  | path {expr : Expr} {place : WritablePlace} (h : readPlace expr = some place) :
      Reads false [] expr place
  | object {inPath : Bool} {bound : List Text} {expr object : Expr} {place : WritablePlace}
      (hobject : expr.object? = some object)
      (h : Reads (readPlace object).isSome bound object place) : Reads inPath bound expr place
  | part {inPath : Bool} {names bound : List Text} {expr part : Expr} {place : WritablePlace}
      (hpart : (names, part) ∈ expr.parts fields) (h : Reads false bound part place) :
      Reads inPath (names ++ bound) expr place

/-- The parts that the walk goes into. -/
def walkedParts : Expr → List Expr
  | .index _ index => [index]
  | .binary _ left right => [left, right]
  | .unary _ expr => [expr]
  | .interfaceBox value _ => [value]
  | .ternary condition thenExpr elseExpr => [condition, thenExpr, elseExpr]
  | .call callee args => callee :: args.map CallArg.expr
  | .record _ _ values => values.map Prod.snd
  | .objectLiteral entries => entries.map Prod.snd
  | .mapLiteral entries => entries.map Prod.snd
  | .arrayLiteral items => items
  | .patch _ operations => operations.map PatchOperation.value
  | .valueBlock _ tail => [tail]
  | .concurrentValue _ tail => [tail]
  | .timeout _ value => [value]
  | .throw value => [value]
  | .rethrow exception => [exception]
  | .tryCatch _ tryExpr => [tryExpr]
  | _ => []

/-- The parts that the walk leaves out: the statements of blocks, what is done with the database
and what is dispatched. -/
def unwalkedParts : Expr → List BoundExpr
  | .valueBlock body _ => blockParts body
  | .concurrentValue body _ => blockParts body
  | .dbOperation operation => operation.parts fields
  | .dbQuery target query => query.parts fields target
  | .dbTransaction _ body => blockParts body
  | .dbLeaseClaim target key slot binding body =>
    (Expr.dbLeaseClaim target key slot binding body).parts fields
  | .dbLeaseRead target key slot => (Expr.dbLeaseRead target key slot).parts fields
  | .dispatch call timing => (Expr.dispatch call timing).parts fields
  | _ => []

/-- What an expression that is walked reads without the walk coming there: below the object of a
path, or in a part that is left out. -/
inductive Unseen : List Text → Expr → WritablePlace → Prop
  | object {bound : List Text} {expr object : Expr} {place : WritablePlace}
      (hobject : expr.object? = some object)
      (h : Reads fields (readPlace object).isSome bound object place) : Unseen bound expr place
  | walked {names bound : List Text} {expr part : Expr} {place : WritablePlace}
      (hpart : (names, part) ∈ expr.parts fields) (hwalked : part ∈ walkedParts expr)
      (h : Unseen bound part place) : Unseen (names ++ bound) expr place
  | unwalked {names bound : List Text} {expr part : Expr} {place : WritablePlace}
      (hpart : (names, part) ∈ unwalkedParts fields expr)
      (h : Reads fields false bound part place) :
      Unseen (names ++ bound) expr place

end

/-! ## The walk -/

section

variable {loans : List WritablePlace}

theorem walkArgs_eq (args : List CallArg) :
    walkArgs loans args = (args.map CallArg.expr).any (walkExprForLoans loans) := by
  induction args with
  | nil => rw [walkArgs]; rfl
  | cons arg rest ih =>
    cases arg with
    | value expr | inOutPlace expr => rw [walkArgs, ih]; rfl

theorem walkFields_eq (entries : List (Text × Expr)) :
    walkFields loans entries = (entries.map Prod.snd).any (walkExprForLoans loans) := by
  induction entries with
  | nil => rw [walkFields]; rfl
  | cons entry rest ih => rw [walkFields, ih]; rfl

theorem walkItems_eq (items : List Expr) :
    walkItems loans items = items.any (walkExprForLoans loans) := by
  induction items with
  | nil => rw [walkItems]; rfl
  | cons item rest ih => rw [walkItems, ih]; rfl

theorem walkOperations_eq (operations : List PatchOperation) :
    walkOperations loans operations =
      (operations.map PatchOperation.value).any (walkExprForLoans loans) := by
  induction operations with
  | nil => rw [walkOperations]; rfl
  | cons operation rest ih =>
    cases operation with
    | set path value | inc path value => rw [walkOperations, ih]; rfl

/-- The walk compares the expression itself and goes into its walked parts. -/
theorem walkExprForLoans_eq (expr : Expr) :
    walkExprForLoans loans expr =
      (readsLoan loans expr || (walkedParts expr).any (walkExprForLoans loans)) := by
  cases expr <;>
    simp [walkExprForLoans, walkedParts, walkArgs_eq, walkFields_eq, walkItems_eq,
      walkOperations_eq, Bool.or_assoc]

variable {fields : TypeRef → List Text}

theorem mem_walkedParts_or {expr part : Expr} {names : List Text}
    (h : (names, part) ∈ expr.parts fields) :
    part ∈ walkedParts expr ∨ (names, part) ∈ unwalkedParts fields expr := by
  have hplain : ∀ exprs : List Expr, (names, part) ∈ plainParts exprs → part ∈ exprs := by
    intro exprs hmem
    obtain ⟨other, hother, heq⟩ := mem_map.mp hmem
    cases heq
    exact hother
  cases expr with
  | valueBlock body tail | concurrentValue body tail =>
    obtain h | h := mem_append.mp h
    · exact .inr h
    rw [mem_singleton] at h
    cases h
    exact .inl (.head _)
  | dbOperation operation | dbQuery target query | dbTransaction mode body
  | dbLeaseClaim target key slot binding body | dbLeaseRead target key slot
  | dispatch call timing => exact .inr h
  | literal value | identifier name | dependencySourceAddress dependencyRef publicPath
  | generic callee typeArgs | field object name => cases h
  | _ => exact .inl (hplain _ h)

theorem unwalkedParts_subset {expr part : Expr} {names : List Text}
    (h : (names, part) ∈ unwalkedParts fields expr) : (names, part) ∈ expr.parts fields := by
  cases expr with
  | valueBlock body tail | concurrentValue body tail => exact mem_append_left _ h
  | dbOperation operation | dbQuery target query | dbTransaction mode body
  | dbLeaseClaim target key slot binding body | dbLeaseRead target key slot
  | dispatch call timing => exact h
  | _ => cases h

/-- What the walk does not see is read. -/
theorem Unseen.reads {bound : List Text} {expr : Expr} {place : WritablePlace}
    (h : Unseen fields bound expr place) : Reads fields false bound expr place := by
  induction h with
  | object hobject h => exact .object hobject h
  | walked hpart hwalked h ih => exact .part hpart ih
  | unwalked hpart h => exact .part (unwalkedParts_subset hpart) h

/-- What a walked expression reads is compared with the loans, or the walk does not see it. -/
theorem unseen_of_reads {inPath : Bool} {bound : List Text} {expr : Expr} {place : WritablePlace}
    (h : Reads fields inPath bound expr place) (hpath : inPath = false)
    (hwalk : walkExprForLoans loans expr = false) :
    (∀ loan ∈ loans, loan.overlaps place = false) ∨ Unseen fields bound expr place := by
  induction h with
  | @path expr place hplace =>
    rw [walkExprForLoans_eq, Bool.or_eq_false_iff, readsLoan, hplace] at hwalk
    refine .inl fun loan hloan => ?_
    simpa using any_eq_false.mp hwalk.1 loan hloan
  | object hobject h ih => exact .inr (.object hobject h)
  | @part inPath names bound expr part place hpart h ih =>
    rw [walkExprForLoans_eq, Bool.or_eq_false_iff] at hwalk
    obtain hwalked | hunwalked := mem_walkedParts_or hpart
    · have hnone : walkExprForLoans loans part = false := by
        simpa using any_eq_false.mp hwalk.2 part hwalked
      obtain hfree | hunseen := ih rfl hnone
      · exact .inl hfree
      · exact .inr (.walked hpart hwalked hunseen)
    · exact .inr (.unwalked hunwalked h)

end

/-! ## The loans of a call -/

def loanedPlaces (args : List CallArg) : List WritablePlace :=
  (inOutExprs args).filterMap placeFromExpr

/-- Two places that do not meet, whatever the values of their indices. -/
def Apart (place other : WritablePlace) : Prop := ¬ place.MayMeet other

/-- No name that is bound on the way to the place is its root. -/
def Free (bound : List Text) (place : WritablePlace) : Prop :=
  ∀ name ∈ bound, place.root ≠ .varBinding name

section

variable (fields : TypeRef → List Text) (args : List CallArg)

/-- While the call runs, nothing else in its arguments reads or writes a loaned place. -/
structure Exclusive : Prop where
  disjoint : (loanedPlaces args).Pairwise Apart
  values : ∀ loan ∈ loanedPlaces args, ∀ expr, .value expr ∈ args → ∀ bound place,
    Reads fields false bound expr place → Free bound place → Apart loan place
  selectors : ∀ before expr after, args = before ++ .inOutPlace expr :: after →
    ∀ loan ∈ loanedPlaces (before ++ after), ∀ bound place,
      Reads fields true bound expr place → Free bound place → Apart loan place

/-- Nothing that the walk does not see reads a loaned place: nothing unseen in the other arguments,
and nothing in the selectors of the inout arguments. -/
structure NoBlindRead : Prop where
  values : ∀ loan ∈ loanedPlaces args, ∀ expr, .value expr ∈ args → ∀ bound place,
    Unseen fields bound expr place → Free bound place → Apart loan place
  selectors : ∀ before expr after, args = before ++ .inOutPlace expr :: after →
    ∀ loan ∈ loanedPlaces (before ++ after), ∀ bound place,
      Reads fields true bound expr place → Free bound place → Apart loan place

end

namespace Loans

variable {scope : Scope} {s : Loans} {expr : Expr}

theorem add_cases : (∃ message, s.add scope expr = s.reject message) ∨
    ∃ place, placeFromExpr expr = some place ∧ (∀ loan ∈ s.places, loan.overlaps place = false) ∧
      s.add scope expr = { s with places := s.places ++ [place] } := by
  rw [add]
  split
  case h_1 => exact .inl ⟨_, rfl⟩
  case h_2 place hplace =>
    split
    case h_1 name hroot =>
      split
      case isTrue =>
        split
        case isTrue => exact .inl ⟨_, rfl⟩
        case isFalse hnone =>
          refine .inr ⟨place, hplace, fun loan hloan => ?_, rfl⟩
          by_contra hoverlaps
          exact hnone (any_eq_true.mpr ⟨loan, hloan, by simp [Bool.of_not_eq_false hoverlaps]⟩)
      case isFalse => exact .inl ⟨_, rfl⟩
    case h_2 | h_3 => exact .inl ⟨_, rfl⟩

theorem foldl_diagnostics (exprs : List Expr) :
    s.diagnostics <+: (exprs.foldl (add scope) s).diagnostics := by
  induction exprs generalizing s with
  | nil => exact prefix_refl _
  | cons expr rest ih =>
    have hstep : s.diagnostics <+: (s.add scope expr).diagnostics := by
      obtain ⟨message, heq⟩ | ⟨place, -, -, heq⟩ := @add_cases scope s expr
      · rw [heq]
        exact prefix_append _ _
      · exact heq ▸ prefix_refl _
    exact hstep.trans ih

/-- Without a diagnostic every expression is a place, and the places are apart. -/
theorem foldl_ok (exprs : List Expr) (h : (exprs.foldl (add scope) s).diagnostics = [])
    (hapart : s.places.Pairwise Apart) :
    (exprs.foldl (add scope) s).places = s.places ++ exprs.filterMap placeFromExpr ∧
      (exprs.foldl (add scope) s).places.Pairwise Apart ∧
      (exprs.foldl (add scope) s).rejected = s.rejected := by
  induction exprs generalizing s with
  | nil => exact ⟨(append_nil _).symm, hapart, rfl⟩
  | cons expr rest ih =>
    rw [foldl_cons] at h ⊢
    obtain ⟨message, heq⟩ | ⟨place, hplace, hnone, heq⟩ := @add_cases scope s expr
    · rw [heq] at h
      have hpre := @foldl_diagnostics scope (s.reject message) rest
      rw [h, prefix_nil] at hpre
      simp [reject] at hpre
    rw [heq] at h ⊢
    have hmore : (s.places ++ [place]).Pairwise Apart := by
      rw [pairwise_append]
      refine ⟨hapart, pairwise_singleton _ _, fun loan hloan other hother => ?_⟩
      rw [mem_singleton.mp hother]
      intro hmeet
      have hoverlaps := WritablePlace.overlaps_of_mayMeet hmeet
      rw [hnone loan hloan] at hoverlaps
      cases hoverlaps
    obtain ⟨hplaces, hpairwise, hrejected⟩ := ih h hmore
    refine ⟨?_, hpairwise, hrejected⟩
    rw [hplaces, filterMap_cons_some hplace, append_assoc, singleton_append]

end Loans

section

variable {analyzer : OwnerAnalyzer} {target : Option InOutTarget} {callee : Expr}
  {args : List CallArg} {scope : Scope} {inLane : Bool} {fields : TypeRef → List Text}

/-- Without a diagnostic the loans are apart, and the walk of each other argument finds nothing. -/
theorem validateLoans_ok {declared : Nat → Option Text} {mayPending : Bool} {calleePath : String}
    (h : validateLoans declared mayPending calleePath args scope = []) :
    (loanedPlaces args).Pairwise Apart ∧
      ∀ expr, .value expr ∈ args → walkExprForLoans (loanedPlaces args) expr = false := by
  rw [validateLoans] at h
  have hloans : ((inOutExprs args).foldl (Loans.add scope) ⟨[], false, []⟩).diagnostics = [] := by
    split at h
    · exact (append_eq_nil_iff.mp h).2
    · exact (append_eq_nil_iff.mp (append_eq_nil_iff.mp h).1).2
  obtain ⟨hplaces, hapart, hrejected⟩ := Loans.foldl_ok (inOutExprs args) hloans List.Pairwise.nil
  rw [hrejected, if_neg Bool.false_ne_true, hplaces] at h
  rw [hplaces] at hapart
  refine ⟨hapart, fun expr hexpr => ?_⟩
  obtain ⟨index, hindex⟩ := mem_iff_getElem?.mp hexpr
  have huse := flatMap_eq_nil_iff.mp (append_eq_nil_iff.mp h).2
    (.value expr, index) (mk_mem_zipIdx_iff_getElem?.mpr hindex)
  have hnone : loanedPlaceUse (loanedPlaces args) expr = none := by
    cases hsome : loanedPlaceUse (loanedPlaces args) expr with
    | none => rfl
    | some reason =>
      simp only [validateUse] at huse
      rw [nil_append, ← loanedPlaces, hsome] at huse
      cases huse
  rw [loanedPlaceUse] at hnone
  cases hwalk : walkExprForLoans (loanedPlaces args) expr with
  | false => rfl
  | true =>
    rw [hwalk] at hnone
    cases hnone

theorem positions_ne_nil (h : inOutExprs args ≠ []) :
    (args.zipIdx.filter fun position => position.1.isInOutPlace).map Prod.snd ≠ [] := by
  intro hnil
  have hnone : ∀ arg ∈ args, arg.isInOutPlace = false := by
    intro arg harg
    obtain ⟨index, hindex⟩ := mem_iff_getElem?.mp harg
    have hfilter := filter_eq_nil_iff.mp (map_eq_nil_iff.mp hnil) (arg, index)
      (mk_mem_zipIdx_iff_getElem?.mpr hindex)
    simpa using hfilter
  refine h ?_
  clear hnil h
  induction args with
  | nil => rfl
  | cons arg rest ih =>
    cases arg with
    | value expr => exact ih fun arg harg => hnone arg (.tail _ harg)
    | inOutPlace expr => cases hnone _ (.head _)

theorem validateInoutCall_ok (hinout : inOutExprs args ≠ [])
    (h : validateInoutCall analyzer target (.call callee args) args scope inLane = []) :
    ∃ declared mayPending calleePath,
      validateLoans declared mayPending calleePath args scope = [] := by
  have hpositions := positions_ne_nil hinout
  rw [validateInoutCall] at h
  rw [if_neg (by simpa using hpositions)] at h
  cases inLane with
  | true => cases h
  | false =>
    rw [if_neg Bool.false_ne_true] at h
    cases target with
    | none => exact absurd (map_eq_nil_iff.mp h) hpositions
    | some target =>
      cases target with
      | localCallable sourceCallable | dependencyPackageFunction inoutParameters maySuspend =>
        exact ⟨_, _, _, h⟩
      | other => exact absurd (map_eq_nil_iff.mp h) hpositions

/-- A call that the check accepts has exclusive loans exactly if no part that the check does not
look at reads a loaned place. -/
theorem exclusive_iff (fields : TypeRef → List Text) (hinout : inOutExprs args ≠ [])
    (h : validateInoutCall analyzer target (.call callee args) args scope inLane = []) :
    Exclusive fields args ↔ NoBlindRead fields args := by
  obtain ⟨declared, mayPending, calleePath, hloans⟩ := validateInoutCall_ok hinout h
  obtain ⟨hdisjoint, hwalk⟩ := validateLoans_ok hloans
  constructor
  · intro hexclusive
    refine ⟨fun loan hloan expr hexpr bound place hunseen hfree => ?_, hexclusive.selectors⟩
    exact hexclusive.values loan hloan expr hexpr bound place hunseen.reads hfree
  intro hblind
  refine ⟨hdisjoint, fun loan hloan expr hexpr bound place hreads hfree => ?_, hblind.selectors⟩
  obtain hfree' | hunseen := unseen_of_reads hreads rfl (hwalk expr hexpr)
  · intro hmeet
    have hoverlaps := WritablePlace.overlaps_of_mayMeet hmeet
    rw [hfree' loan hloan] at hoverlaps
    cases hoverlaps
  · exact hblind.values loan hloan expr hexpr bound place hunseen hfree

end

/-! ## A clean call, and a read of the loaned place -/

/-- A package with the callable `f`, whose first parameter is an inout one and which never
suspends. -/
def plainAnalyzer : OwnerAnalyzer where
  inoutParamIndices _ index := if index = 0 then some "p".toList else none
  callableEffects _ := some (.analyzed false)

def plainTarget : Option InOutTarget := some (.localCallable "f".toList)

/-- The binding of each name is a `var`. -/
def varScope : Scope := fun _ => some .var

/-- The arguments of `f(inout x, g(y).name)`. -/
def plainArgs : List CallArg :=
  [.inOutPlace (.identifier "x".toList),
    .value (.field (.call (.identifier "g".toList) [.value (.identifier "y".toList)])
      "name".toList)]

/-- The arguments of `f(inout x, g(x).name)`. -/
def fieldOfCallArgs : List CallArg :=
  [.inOutPlace (.identifier "x".toList),
    .value (.field (.call (.identifier "g".toList) [.value (.identifier "x".toList)])
      "name".toList)]

def calleeF : Expr := .identifier "f".toList

theorem inOutExprs_plainArgs : inOutExprs plainArgs ≠ [] := cons_ne_nil _ _

theorem inOutExprs_fieldOfCallArgs : inOutExprs fieldOfCallArgs ≠ [] := cons_ne_nil _ _

theorem reads_identifier {fields : TypeRef → List Text} {bound : List Text} {name : Text}
    {place : WritablePlace} (h : Reads fields false bound (.identifier name) place) :
    place = ⟨.varBinding name, []⟩ := by
  cases h with
  | path h => exact (Option.some.inj h).symm
  | object hobject => cases hobject
  | part hpart => cases hpart

/-- The walk does not see `y`, which is another place than the loaned one. -/
theorem exclusive_iff_plainArgs : Exclusive (fun _ => []) plainArgs := by
  have hother (name : Text) (hname : name ≠ "x".toList) :
      Apart ⟨.varBinding "x".toList, []⟩ ⟨.varBinding name, []⟩ := fun hmeet => by
    injection hmeet.1 with heq
    exact hname heq.symm
  refine (exclusive_iff (fun _ => []) inOutExprs_plainArgs
    (show validateInoutCall plainAnalyzer plainTarget (.call calleeF plainArgs) plainArgs varScope
      false = [] by decide +kernel)).mpr ⟨?_, ?_⟩
  · intro loan hloan expr hexpr bound place hunseen _
    rw [mem_singleton.mp (show loan ∈ [⟨.varBinding "x".toList, []⟩] from hloan)]
    obtain _ | ⟨_, hexpr⟩ := hexpr
    cases mem_singleton.mp hexpr
    cases hunseen with
    | walked hpart hwalked => cases hwalked
    | unwalked hpart => cases hpart
    | object hobject h =>
      cases hobject
      cases h with
      | path h => cases h
      | object hobject => cases hobject
      | part hpart h =>
        obtain _ | ⟨_, hpart⟩ := hpart
        · exact reads_identifier h ▸ hother _ (by decide)
        cases mem_singleton.mp hpart
        exact reads_identifier h ▸ hother _ (by decide)
  · intro before expr after hargs loan _ bound place hreads
    have hexpr : CallArg.inOutPlace expr ∈ plainArgs := hargs ▸ mem_append_cons_self
    obtain _ | ⟨_, hexpr⟩ := hexpr
    · cases hreads with
      | object hobject => cases hobject
      | part hpart => cases hpart
    · cases mem_singleton.mp hexpr

/-- The object of `g(x).name` is no path, and the walk does not go into it: `f(inout x, g(x).name)`
is accepted, and reads `x` while it is loaned. -/
theorem fieldOfCall_reads_loan :
    inOutExprs fieldOfCallArgs ≠ [] ∧
      validateInoutCall plainAnalyzer plainTarget (.call calleeF fieldOfCallArgs) fieldOfCallArgs
        varScope false = [] ∧
      ¬ Exclusive (fun _ => []) fieldOfCallArgs := by
  refine ⟨inOutExprs_fieldOfCallArgs, by decide +kernel, ?_⟩
  intro hexclusive
  have hargument : Reads (fun _ => []) false ([] ++ []) (.identifier "x".toList)
      ⟨.varBinding "x".toList, []⟩ := .path rfl
  have hcall : Reads (fun _ => []) false ([] ++ [])
      (.call (.identifier "g".toList) [.value (.identifier "x".toList)])
      ⟨.varBinding "x".toList, []⟩ :=
    .part (.tail _ (.head _)) hargument
  have hapart := hexclusive.values ⟨.varBinding "x".toList, []⟩ (.head _) _
    (.tail _ (.head _)) [] _ (.object rfl hcall)
    (fun name hname => by cases hname)
  exact hapart ⟨rfl, [], [], .nil, .nil, .inl (prefix_refl _)⟩

end Skiff.Compiler
