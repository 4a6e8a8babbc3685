import Skiff.Syntax.TypeParser
import Skiff.Syntax.TypeSplits

/-!
# The trees that types are parsed as

Beside each function of the parser stands one that reads the same tokens and keeps the tree of
them. The text that the parser keeps is the one of that tree.
-/

namespace Skiff.Syntax

open TypeExpr (joinWith)
open List TypeTree

/-! ## Derivations -/

def deriveQualifiers : Nat → TypeTree → ParseM TypeTree
  | 0, _ => outOfFuel
  | fuel + 1, leaf => do
    if ← matchSymbol "." then
      let segment ← expectIdent "expected qualified type segment"
      deriveQualifiers fuel (.name (leaf.text quoteStringType ++ '.' :: segment.text))
    else return leaf

/-- A name, or a string literal that stands alone. -/
def deriveTypeName (fuel : Nat) : ParseM TypeTree := do
  let token ← advance
  let leaf ← match token.kind with
    | .ident value => pure (.name value.text)
    | .string value => pure (.string value)
    | _ => throwSyntax "expected type name" token.start
  let leaf ← (do
    if ← matchSymbol "/" then
      let segment ← expectIdent "expected source module after dependency /"
      return .name (leaf.text quoteStringType ++ '/' :: segment.text)
    else return leaf)
  deriveQualifiers fuel leaf

def deriveNullableMarks : Nat → TypeTree → ParseM TypeTree
  | 0, _ => outOfFuel
  | fuel + 1, tree => do
    if ← matchSymbol "?" then deriveNullableMarks fuel (.nullable tree)
    else return tree

/-- One branch is no union. -/
def unionOf (first : TypeTree) (rest : List TypeTree) : TypeTree :=
  if rest.isEmpty then first else .union (first :: rest)

mutual

def deriveType : Nat → ParseM TypeTree
  | 0 => outOfFuel
  | fuel + 1 => do
    let tree ← deriveNullableType fuel
    deriveBranches fuel tree []

def deriveBranches : Nat → TypeTree → List TypeTree → ParseM TypeTree
  | 0, _, _ => outOfFuel
  | fuel + 1, first, rest => do
    if ← matchSymbol "|" then
      let rhs ← deriveNullableType fuel
      deriveBranches fuel first (rest ++ [rhs])
    else return unionOf first rest

def deriveNullableType : Nat → ParseM TypeTree
  | 0 => outOfFuel
  | fuel + 1 => do
    let tree ← derivePrimaryType fuel
    deriveNullableMarks fuel tree

def derivePrimaryType : Nat → ParseM TypeTree
  | 0 => outOfFuel
  | fuel + 1 => do
    if ← matchIdent "any" then
      let interface ← derivePrimaryType fuel
      return .any interface
    else if ← checkIdent "fn" then deriveFunctionType fuel
    else if ← matchSymbol "\x7b" then deriveRecordType fuel
    else
      let leaf ← deriveTypeName fuel
      if ← matchSymbol "<" then
        let args ← (do
          if ← checkSymbol ">" then return []
          else deriveTypeArgs fuel [])
        expectSymbol ">"
        return .generic (leaf.text quoteStringType) args
      else return leaf

def deriveTypeArgs : Nat → List TypeTree → ParseM (List TypeTree)
  | 0, _ => outOfFuel
  | fuel + 1, args => do
    let ty ← deriveType fuel
    let args := args ++ [ty]
    if ← matchSymbol "," then deriveTypeArgs fuel args
    else return args

def deriveFunctionType : Nat → ParseM TypeTree
  | 0 => outOfFuel
  | fuel + 1 => do
    let _ ← expectIdentValue "fn"
    expectSymbol "("
    let params ← deriveParams fuel
    expectSymbol ")"
    expectSymbol "->"
    let returnType ← deriveType fuel
    return .function params returnType

def deriveParams : Nat → ParseM (List (Text × TypeTree))
  | 0 => outOfFuel
  | fuel + 1 => do
    if ← checkSymbol ")" then return []
    else deriveParamList fuel []

def deriveParamList : Nat → List (Text × TypeTree) → ParseM (List (Text × TypeTree))
  | 0, _ => outOfFuel
  | fuel + 1, params => do
    let _ ← matchIdent "inout"
    let name ← expectIdent "expected parameter name"
    expectSymbol ":"
    let ty ← deriveType fuel
    let params := params ++ [(name.text, ty)]
    if ← matchSymbol "," then deriveParamList fuel params
    else return params

def deriveRecordType : Nat → ParseM TypeTree
  | 0 => outOfFuel
  | fuel + 1 => do
    let fields ← (do
      if ← checkSymbol "\x7d" then return []
      else deriveRecordFields fuel [])
    expectSymbol "\x7d"
    return .record fields

def deriveRecordFields : Nat → List (Text × TypeTree) → ParseM (List (Text × TypeTree))
  | 0, _ => outOfFuel
  | fuel + 1, fields => do
    let field ← expectIdent "expected record field name"
    expectSymbol ":"
    let ty ← deriveType fuel
    let fields := fields ++ [(field.text, ty)]
    if ← matchSymbol "," then
      if ← checkSymbol "\x7d" then return fields
      else deriveRecordFields fuel fields
    else return fields

end

/-! ## The text that the parser keeps -/

abbrev typeText : TypeTree → Text := text quoteStringType

theorem map_ite {α β : Type} (f : α → β) (c : Bool) (yes no : ParseM α) :
    f <$> (if c = true then yes else no) = if c = true then f <$> yes else f <$> no := by
  cases c <;> rfl

theorem parseQualifiers_text (fuel : Nat) (leaf : TypeTree) :
    parseQualifiers fuel (typeText leaf) = typeText <$> deriveQualifiers fuel leaf := by
  induction fuel generalizing leaf with
  | zero => rfl
  | succ fuel ih =>
    rw [parseQualifiers, deriveQualifiers, map_bind]
    refine bind_congr fun dotted => ?_
    rw [map_ite]
    cases dotted with
    | true =>
      simp only [if_true, map_bind]
      refine bind_congr fun segment => ?_
      exact ih (.name (typeText leaf ++ '.' :: segment.text))
    | false => simp

theorem parseTypeName_text (fuel : Nat) :
    parseTypeName fuel = typeText <$> deriveTypeName fuel := by
  have htail : ∀ leaf : TypeTree,
      ((do
        if ← matchSymbol "/" then
          let segment ← expectIdent "expected source module after dependency /"
          return typeText leaf ++ '/' :: segment.text
        else return typeText leaf) >>= parseQualifiers fuel : ParseM Text) =
      typeText <$> ((do
        if ← matchSymbol "/" then
          let segment ← expectIdent "expected source module after dependency /"
          return .name (typeText leaf ++ '/' :: segment.text)
        else return leaf) >>= deriveQualifiers fuel : ParseM TypeTree) := by
    intro leaf
    rw [map_bind, bind_assoc, bind_assoc]
    refine bind_congr fun slash => ?_
    cases slash with
    | true =>
      simp only [if_true, bind_assoc, pure_bind]
      refine bind_congr fun segment => ?_
      exact parseQualifiers_text fuel (.name (typeText leaf ++ '/' :: segment.text))
    | false =>
      simp only [Bool.false_eq_true, if_false, pure_bind]
      exact parseQualifiers_text fuel leaf
  rw [parseTypeName, deriveTypeName, map_bind]
  refine bind_congr fun token => ?_
  cases token.kind with
  | ident value => exact htail (.name value.text)
  | string value => exact htail (.string value)
  | number value | duration digits unit | symbol value | eof => rfl

theorem parseNullableMarks_text (fuel : Nat) (tree : TypeTree) :
    parseNullableMarks fuel (typeText tree) = typeText <$> deriveNullableMarks fuel tree := by
  induction fuel generalizing tree with
  | zero => rfl
  | succ fuel ih =>
    rw [parseNullableMarks, deriveNullableMarks, map_bind]
    refine bind_congr fun marked => ?_
    cases marked with
    | true => exact ih (.nullable tree)
    | false => exact (map_pure typeText tree).symm

theorem joinWith_concat (separator : Text) (first : Text) (rest : List Text) (part : Text) :
    joinWith separator (first :: (rest ++ [part])) =
      joinWith separator (first :: rest) ++ separator ++ part := by
  induction rest generalizing first with
  | nil => rfl
  | cons next rest ih =>
    rw [Scan.joinWith_cons (cons_ne_nil _ _), cons_append, Scan.joinWith_cons (cons_ne_nil _ _), ih]
    simp only [append_assoc]

/-- The text of the branches so far. -/
theorem typeText_unionOf (first : TypeTree) (rest : List TypeTree) :
    typeText (unionOf first rest) =
      joinWith [' ', '|', ' '] (typeText first :: rest.map typeText) := by
  cases rest with
  | nil => rfl
  | cons next rest =>
    show joinWith [' ', '|', ' '] (texts quoteStringType (first :: next :: rest)) = _
    rw [texts_eq]
    rfl

theorem typeText_unionOf_concat (first : TypeTree) (rest : List TypeTree) (rhs : TypeTree) :
    typeText (unionOf first rest) ++ " | ".toList ++ typeText rhs =
      typeText (unionOf first (rest ++ [rhs])) := by
  rw [typeText_unionOf, typeText_unionOf, map_append, map_singleton, joinWith_concat]
  rfl

/-- The text of the arguments, after an opening bracket. -/
def argsText (before : Text) (args : List TypeTree) : Text :=
  before ++ joinWith [',', ' '] (args.map typeText)

/-- Between two arguments the text ends with a comma. -/
def openText (before : Text) (args : List TypeTree) : Text :=
  if args.isEmpty then before else argsText before args ++ [',', ' ']

theorem openText_append (before : Text) (args : List TypeTree) (ty : TypeTree) :
    openText before args ++ typeText ty = argsText before (args ++ [ty]) := by
  cases args with
  | nil => rfl
  | cons first rest =>
    rw [openText, if_neg (by simp), argsText, argsText, map_append, map_cons,
      map_singleton, cons_append, joinWith_concat]
    simp only [append_assoc]

theorem openText_concat (before : Text) (args : List TypeTree) (ty : TypeTree) :
    argsText before (args ++ [ty]) ++ ", ".toList = openText before (args ++ [ty]) := by
  rw [openText, if_neg (by simp)]
  rfl

def paramRef (param : Param) : Text × Text := (param.name.text, param.ty.name)

def fieldRef (field : Text × TypeTree) : Text × Text := (field.1, typeText field.2)

theorem typeText_generic (leaf : TypeTree) (args : List TypeTree) :
    argsText (typeText leaf ++ ['<']) args ++ ['>'] = typeText (.generic (typeText leaf) args) := by
  show _ = typeText leaf ++ '<' :: joinWith [',', ' '] (texts quoteStringType args) ++ ['>']
  rw [argsText, texts_eq, append_assoc (typeText leaf)]
  rfl

theorem typeText_record (fields : List (Text × TypeTree)) :
    (if (fields.map (fieldText quoteStringType)).isEmpty then "{}".toList
      else "\x7b ".toList ++ joinWith ", ".toList (fields.map (fieldText quoteStringType)) ++
        " \x7d".toList) = typeText (.record fields) := by
  cases fields with
  | nil => rfl
  | cons field rest =>
    show _ = ['{', ' '] ++ joinWith [',', ' ']
      (fieldTexts quoteStringType (field :: rest)) ++ [' ', '}']
    rw [fieldTexts_eq]
    rfl

/-- The text of a function with these parameters. -/
def functionText (refs : List (Text × Text)) (returnType : Text) : Text :=
  "fn(".toList ++ joinWith ", ".toList (refs.map fun param => param.1 ++ ": ".toList ++ param.2) ++
    ") -> ".toList ++ returnType

theorem typeText_function (params : List (Text × TypeTree)) (returnType : TypeTree) :
    functionText (params.map fieldRef) (typeText returnType) =
      typeText (.function params returnType) := by
  show _ = ['f', 'n', '('] ++ joinWith [',', ' '] (fieldTexts quoteStringType params) ++
    [')', ' ', '-', '>', ' '] ++ typeText returnType
  rw [functionText, fieldTexts_eq, map_map]
  rfl

mutual

theorem parseType_text (fuel : Nat) :
    parseType fuel = (fun tree => ⟨typeText tree⟩) <$> deriveType fuel := by
  cases fuel with
  | zero => rfl
  | succ fuel =>
    rw [parseType, deriveType, map_bind, parseNullableType_text fuel, bind_map_left]
    refine bind_congr fun tree => ?_
    exact parseBranches_text fuel tree []

theorem parseBranches_text (fuel : Nat) (first : TypeTree) (rest : List TypeTree) :
    parseBranches fuel (typeText (unionOf first rest)) =
      (fun tree => ⟨typeText tree⟩) <$> deriveBranches fuel first rest := by
  cases fuel with
  | zero => rfl
  | succ fuel =>
    rw [parseBranches, deriveBranches, map_bind]
    refine bind_congr fun more => ?_
    cases more with
    | true =>
      simp only [if_true, map_bind]
      rw [parseNullableType_text fuel, bind_map_left]
      refine bind_congr fun rhs => ?_
      rw [typeText_unionOf_concat]
      exact parseBranches_text fuel first (rest ++ [rhs])
    | false => rfl

theorem parseNullableType_text (fuel : Nat) :
    parseNullableType fuel = typeText <$> deriveNullableType fuel := by
  cases fuel with
  | zero => rfl
  | succ fuel =>
    rw [parseNullableType, deriveNullableType, map_bind, parsePrimaryType_text fuel, bind_map_left]
    refine bind_congr fun tree => ?_
    exact parseNullableMarks_text fuel tree

theorem parsePrimaryType_text (fuel : Nat) :
    parsePrimaryType fuel = typeText <$> derivePrimaryType fuel := by
  cases fuel with
  | zero => rfl
  | succ fuel =>
    rw [parsePrimaryType, derivePrimaryType, map_bind]
    refine bind_congr fun any => ?_
    cases any with
    | true =>
      simp only [if_true, map_bind]
      rw [parsePrimaryType_text fuel, bind_map_left]
      rfl
    | false =>
      simp only [Bool.false_eq_true, if_false, map_bind]
      refine bind_congr fun fn => ?_
      cases fn with
      | true => exact parseFunctionTypeName_text fuel
      | false =>
        simp only [Bool.false_eq_true, if_false, map_bind]
        refine bind_congr fun brace => ?_
        cases brace with
        | true => exact parseRecordTypeName_text fuel
        | false =>
          simp only [Bool.false_eq_true, if_false, map_bind]
          rw [parseTypeName_text fuel, bind_map_left]
          refine bind_congr fun leaf => ?_
          refine bind_congr fun angle => ?_
          cases angle with
          | true =>
            simp only [if_true, map_bind, bind_assoc]
            refine bind_congr fun close => ?_
            cases close with
            | true => rfl
            | false =>
              have hargs := parseTypeArgs_text fuel (typeText leaf ++ ['<']) []
              simp only [Bool.false_eq_true, if_false]
              rw [show typeText leaf ++ ['<'] = openText (typeText leaf ++ ['<']) []
                from rfl, hargs, bind_map_left]
              refine bind_congr fun args => bind_congr fun _ => ?_
              exact congrArg pure (typeText_generic leaf args)
          | false => rfl

theorem parseTypeArgs_text (fuel : Nat) (before : Text) (args : List TypeTree) :
    parseTypeArgs fuel (openText before args) = argsText before <$> deriveTypeArgs fuel args := by
  cases fuel with
  | zero => rfl
  | succ fuel =>
    rw [parseTypeArgs, deriveTypeArgs, map_bind, parseType_text fuel, bind_map_left]
    refine bind_congr fun ty => ?_
    dsimp only
    rw [openText_append, map_bind]
    refine bind_congr fun more => ?_
    cases more with
    | true =>
      simp only [if_true]
      rw [openText_concat]
      exact parseTypeArgs_text fuel before (args ++ [ty])
    | false => rfl

theorem parseFunctionTypeName_text (fuel : Nat) :
    parseFunctionTypeName fuel = typeText <$> deriveFunctionType fuel := by
  cases fuel with
  | zero => rfl
  | succ fuel =>
    rw [parseFunctionTypeName, deriveFunctionType, map_bind]
    refine bind_congr fun _ => ?_
    rw [map_bind]
    refine bind_congr fun _ => ?_
    have hrest : ∀ refs : List (Text × Text),
        (do
          expectSymbol ")"
          expectSymbol "->"
          let returnType ← parseType fuel
          return functionText refs returnType.name : ParseM Text) =
        (do
          expectSymbol ")"
          expectSymbol "->"
          let returnType ← deriveType fuel
          return functionText refs (typeText returnType)) := by
      intro refs
      rw [parseType_text fuel]
      simp only [bind_map_left]
    have hparams := congrArg (· >>= fun refs => (do
      expectSymbol ")"
      expectSymbol "->"
      let returnType ← parseType fuel
      return functionText refs returnType.name : ParseM Text)) (parseParams_text fuel)
    rw [bind_map_left, bind_map_left] at hparams
    refine Eq.trans ?_ (hparams.trans ?_)
    · refine bind_congr fun params => ?_
      simp only [functionText, map_map]
      rfl
    rw [map_bind]
    refine bind_congr fun params => ?_
    rw [hrest]
    simp only [map_bind, map_pure, typeText_function]

theorem parseParams_text (fuel : Nat) :
    map paramRef <$> parseParams fuel = map fieldRef <$> deriveParams fuel := by
  cases fuel with
  | zero => rfl
  | succ fuel =>
    rw [parseParams, deriveParams, map_bind, map_bind]
    refine bind_congr fun close => ?_
    cases close with
    | true => rfl
    | false => exact parseParamList_text fuel [] [] rfl

theorem parseParamList_text (fuel : Nat) (params : List Param) (trees : List (Text × TypeTree))
    (h : params.map paramRef = trees.map fieldRef) :
    map paramRef <$> parseParamList fuel params = map fieldRef <$> deriveParamList fuel trees := by
  cases fuel with
  | zero => rfl
  | succ fuel =>
    rw [parseParamList, deriveParamList, parseType_text fuel]
    simp only [map_bind, bind_map_left]
    refine bind_congr fun inout => bind_congr fun name => bind_congr fun _ => ?_
    refine bind_congr fun ty => bind_congr fun more => ?_
    have hmore : (params ++ [Param.mk name (if inout then .inOut else .value) ⟨typeText ty⟩]).map
        paramRef = (trees ++ [(name.text, ty)]).map fieldRef := by
      rw [map_append, h, map_append]
      rfl
    cases more with
    | true => exact parseParamList_text fuel _ _ hmore
    | false =>
      simp only [Bool.false_eq_true, if_false, map_pure]
      rw [hmore]

theorem parseRecordTypeName_text (fuel : Nat) :
    parseRecordTypeName fuel = typeText <$> deriveRecordType fuel := by
  cases fuel with
  | zero => rfl
  | succ fuel =>
    rw [parseRecordTypeName, deriveRecordType, map_bind, bind_assoc, bind_assoc]
    refine bind_congr fun close => ?_
    cases close with
    | true =>
      simp only [if_true, pure_bind, map_bind]
      rfl
    | false =>
      have hfields := parseRecordFields_text fuel []
      simp only [Bool.false_eq_true, if_false]
      rw [map_nil] at hfields
      rw [hfields, bind_map_left]
      refine bind_congr fun fields => ?_
      rw [map_bind]
      refine bind_congr fun _ => ?_
      rw [map_pure, ← typeText_record]
      split <;> rfl

theorem parseRecordFields_text (fuel : Nat) (fields : List (Text × TypeTree)) :
    parseRecordFields fuel (fields.map (fieldText quoteStringType)) =
      map (fieldText quoteStringType) <$> deriveRecordFields fuel fields := by
  cases fuel with
  | zero => rfl
  | succ fuel =>
    rw [parseRecordFields, deriveRecordFields, map_bind]
    refine bind_congr fun field => ?_
    rw [map_bind]
    refine bind_congr fun _ => ?_
    rw [parseType_text fuel, bind_map_left, map_bind]
    refine bind_congr fun ty => ?_
    have hfields : fields.map (fieldText quoteStringType) ++
        [field.text ++ ": ".toList ++ typeText ty] =
          (fields ++ [(field.text, ty)]).map (fieldText quoteStringType) := by
      rw [map_append]
      rfl
    dsimp only
    rw [hfields, map_bind]
    refine bind_congr fun more => ?_
    cases more with
    | true =>
      simp only [if_true, map_bind]
      refine bind_congr fun close => ?_
      cases close with
      | true => rfl
      | false => exact parseRecordFields_text fuel (fields ++ [(field.text, ty)])
    | false => rfl

end

end Skiff.Syntax
