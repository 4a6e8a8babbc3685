import Skiff.Syntax.TypeParser

/-!
# The syntax tree

The expressions and statements of `syntax/src/ast.rs`. A block is the list of its statements, and
spans are left out. `parts` are the expressions that stand in another one, each with the names that
are bound between them.
-/

namespace Skiff.Syntax

inductive Literal where
  | null
  | bool (value : Bool)
  | number (value : NumberBits)
  | string (value : Text)

inductive BinaryOp where
  | add
  | sub
  | mul
  | div
  | eq
  | ne
  | lt
  | le
  | gt
  | ge
  | and
  | or

inductive UnaryOp where
  | not

structure DurationLiteral where
  digits : Text
  unit : DurationUnit

inductive LocalBindingKind where
  | final
  | var

inductive ForBinding where
  | item (name : Text)
  | entry (key value : Text)

inductive DbBlockMode where
  | effect
  | value

inductive DbOperationKind where
  | find
  | optional
  | require
  | insert
  | update
  | upsert
  | replace
  | delete
  | count
  | exists

structure FieldPath where
  segments : List Text

inductive DbIndexDirection where
  | asc
  | desc

structure DbOrderEntry where
  field : FieldPath
  direction : DbIndexDirection

inductive Pattern where
  | wildcard
  | binding (name : Text)
  | literal (value : Literal)
  | nominal (name : Text) (typeArgs : List TypeRef) (fields : List (Text × Option Pattern))
  | record (fields : List (Text × Option Pattern))
  | or (alternatives : List Pattern)

mutual

def Pattern.names : Pattern → List Text
  | .wildcard => []
  | .binding name => [name]
  | .literal _ => []
  | .nominal _ _ fields => fieldNames fields
  | .record fields => fieldNames fields
  | .or alternatives => patternNames alternatives

def patternNames : List Pattern → List Text
  | [] => []
  | pattern :: rest => pattern.names ++ patternNames rest

def fieldNames : List (Text × Option Pattern) → List Text
  | [] => []
  | (name, none) :: rest => name :: fieldNames rest
  | (_, some pattern) :: rest => pattern.names ++ fieldNames rest

end

def ForBinding.names : ForBinding → List Text
  | .item name => [name]
  | .entry key value => [key, value]

mutual

inductive Expr where
  | literal (value : Literal)
  | identifier (name : Text)
  | dependencySourceAddress (dependencyRef publicPath : Text)
  | binary (op : BinaryOp) (left right : Expr)
  | unary (op : UnaryOp) (expr : Expr)
  | ternary (condition thenExpr elseExpr : Expr)
  | call (callee : Expr) (args : List CallArg)
  | generic (callee : Expr) (typeArgs : List TypeRef)
  | interfaceBox (value : Expr) (interface : TypeRef)
  | field (object : Expr) (field : Text)
  | index (object index : Expr)
  | record (typeName : Text) (typeArgs : List TypeRef) (fields : List (Text × Expr))
  | objectLiteral (entries : List (Text × Expr))
  | mapLiteral (entries : List (Text × Expr))
  | arrayLiteral (items : List Expr)
  | patch (target : TypeRef) (operations : List PatchOperation)
  | valueBlock (body : List Stmt) (tail : Expr)
  | concurrentValue (body : List Stmt) (tail : Expr)
  | timeout (duration : DurationLiteral) (value : Expr)
  | throw (value : Expr)
  | rethrow (exception : Expr)
  | tryCatch (catchType : TypeRef) (tryExpr : Expr)
  | dbOperation (operation : DbOperation)
  | dbQuery (target : TypeRef) (query : DbQueryBlock)
  | dbTransaction (mode : DbBlockMode) (body : List Stmt)
  | dbLeaseClaim (target : TypeRef) (key : Expr) (slot : Text) (binding : Option Text)
      (body : List Stmt)
  | dbLeaseRead (target : TypeRef) (key : Expr) (slot : Text)
  | dispatch (call : Expr) (timing : Option DispatchTiming)

inductive CallArg where
  | value (expr : Expr)
  | inOutPlace (expr : Expr)

inductive PatchOperation where
  | set (path : List Text) (value : Expr)
  | inc (path : List Text) (value : Expr)

inductive DispatchTiming where
  | after (delay : Expr)
  | atTime (time : Expr)

inductive DbOperation where
  | mk (op : DbOperationKind) (many : Bool) (target : TypeRef) (selector : Option DbSelector)
      (query : Option DbQueryBlock) (projection : Option (List FieldPath)) (body : Option DbBody)
      (insertBody : Option DbBody) (change : Option (List DbChangeOp))

inductive DbSelector where
  | key (value : Expr)
  | query (query : DbQueryBlock)

inductive DbQueryBlock where
  | mk (whereClauses : List DbWhereClause) (order : List DbOrderEntry) (limit : Option Expr)
      (offset : Option Expr) (after : Option Expr)

inductive DbWhereClause where
  | predicate (expr : Expr)
  | conditional (condition expr : Expr)

inductive DbBody where
  | objectFields (fields : List (Text × Expr))
  | values (value : Expr)

inductive DbChangeOp where
  | set (path : FieldPath) (value : Expr)
  | inc (path : FieldPath) (value : Expr)
  | unset (path : FieldPath)
  | addToSet (path : FieldPath) (value : Expr)
  | remove (path : FieldPath) (value : Expr)

inductive Stmt where
  | compilerTestEffectRegister (target : Text) (targetProbe : Expr) (declarationStart : Bool)
      (expect stepExpect : Option Expr) (outcome : TestEffectStepOutcome)
  | assert (condition : Expr) (message : Option Text)
  | localBinding (kind : LocalBindingKind) (name : Text) (ty : Option TypeRef) (value : Expr)
  | assign (target value : Expr)
  | timeout (duration : DurationLiteral) (body : List Stmt)
  | concurrent (body : List Stmt)
  | serial (body : List Stmt)
  | ifStmt (condition : Expr) (thenBlock : List Stmt) (elseBlock : Option (List Stmt))
  | forStmt (binding : ForBinding) (iterable : Expr) (body : List Stmt)
  | whileStmt (condition : Expr) (body : List Stmt)
  | matchStmt (value : Expr) (arms : List MatchArm)
  | dbTransaction (body : List Stmt)
  | throw (value : Expr)
  | rethrow (exception : Expr)
  | emit (value : Expr)
  | returnStmt (value : Option Expr)
  | breakStmt
  | continueStmt
  | expr (value : Expr)

inductive MatchArm where
  | mk (pattern : Pattern) (body : List Stmt)

inductive TestEffectStepOutcome where
  | respond (value : Expr)
  | throw (value : Expr)
  | stream (events : List Expr)

end

namespace CallArg

def expr : CallArg → Expr
  | .value expr => expr
  | .inOutPlace expr => expr

def isInOutPlace : CallArg → Bool
  | .value _ => false
  | .inOutPlace _ => true

end CallArg

/-! ## The expressions in another one -/

/-- An expression and the names that are bound in front of it. -/
abbrev BoundExpr := List Text × Expr

def bindParts (names : List Text) (parts : List BoundExpr) : List BoundExpr :=
  parts.map fun part => (part.1 ++ names, part.2)

def plainParts (exprs : List Expr) : List BoundExpr := exprs.map fun expr => ([], expr)

def PatchOperation.value : PatchOperation → Expr
  | .set _ value => value
  | .inc _ value => value

def DispatchTiming.time : DispatchTiming → Expr
  | .after delay => delay
  | .atTime time => time

def TestEffectStepOutcome.exprs : TestEffectStepOutcome → List Expr
  | .respond value => [value]
  | .throw value => [value]
  | .stream events => events

def DbBody.exprs : DbBody → List Expr
  | .objectFields fields => fields.map Prod.snd
  | .values value => [value]

def DbChangeOp.exprs : DbChangeOp → List Expr
  | .set _ value => [value]
  | .inc _ value => [value]
  | .unset _ => []
  | .addToSet _ value => [value]
  | .remove _ value => [value]

section

variable (fields : TypeRef → List Text)

/-- The predicates of a query see the fields of its target as names. -/
def DbWhereClause.parts (target : TypeRef) : DbWhereClause → List BoundExpr
  | .predicate expr => [(fields target, expr)]
  | .conditional condition expr => [([], condition), (fields target, expr)]

def DbQueryBlock.parts (target : TypeRef) : DbQueryBlock → List BoundExpr
  | .mk whereClauses _ limit offset after =>
    whereClauses.flatMap (DbWhereClause.parts fields target) ++
      plainParts (limit.toList ++ offset.toList ++ after.toList)

def DbSelector.parts (target : TypeRef) : DbSelector → List BoundExpr
  | .key value => plainParts [value]
  | .query block => block.parts fields target

def DbOperation.parts : DbOperation → List BoundExpr
  | .mk _ _ target selector query _ body insertBody change =>
    selector.toList.flatMap (DbSelector.parts fields target) ++
      query.toList.flatMap (DbQueryBlock.parts fields target) ++
      plainParts ((body.toList ++ insertBody.toList).flatMap DbBody.exprs) ++
      plainParts ((change.getD []).flatMap DbChangeOp.exprs)

/-- The names that a statement binds for those after it. -/
def Stmt.names : Stmt → List Text
  | .localBinding _ name _ _ => [name]
  | _ => []

def blockNames (block : List Stmt) : List Text := block.flatMap Stmt.names

mutual

def Stmt.parts : Stmt → List BoundExpr
  | .compilerTestEffectRegister _ targetProbe _ expect stepExpect outcome =>
    plainParts (targetProbe :: expect.toList ++ stepExpect.toList ++ outcome.exprs)
  | .assert condition _ => plainParts [condition]
  | .localBinding _ _ _ value => plainParts [value]
  | .assign target value => plainParts [target, value]
  | .timeout _ body => blockParts body
  | .concurrent body => blockParts body
  | .serial body => blockParts body
  | .ifStmt condition thenBlock none => plainParts [condition] ++ blockParts thenBlock
  | .ifStmt condition thenBlock (some elseBlock) =>
    plainParts [condition] ++ blockParts thenBlock ++ blockParts elseBlock
  | .forStmt binding iterable body =>
    plainParts [iterable] ++ bindParts binding.names (blockParts body)
  | .whileStmt condition body => plainParts [condition] ++ blockParts body
  | .matchStmt value arms => plainParts [value] ++ armParts arms
  | .dbTransaction body => blockParts body
  | .throw value => plainParts [value]
  | .rethrow exception => plainParts [exception]
  | .emit value => plainParts [value]
  | .returnStmt value => plainParts value.toList
  | .breakStmt => []
  | .continueStmt => []
  | .expr value => plainParts [value]

def armParts : List MatchArm → List BoundExpr
  | [] => []
  | .mk pattern body :: rest => bindParts pattern.names (blockParts body) ++ armParts rest

def blockParts : List Stmt → List BoundExpr
  | [] => []
  | stmt :: rest => stmt.parts ++ bindParts stmt.names (blockParts rest)

end

end

namespace Expr

/-- What a name, member or index path goes on from. -/
def object? : Expr → Option Expr
  | .field object _ => some object
  | .index object _ => some object
  | .generic callee _ => some callee
  | _ => none

/-- The expressions in this one, without the object of a path. -/
def parts (fields : TypeRef → List Text) : Expr → List BoundExpr
  | .literal _ => []
  | .identifier _ => []
  | .dependencySourceAddress _ _ => []
  | .binary _ left right => plainParts [left, right]
  | .unary _ expr => plainParts [expr]
  | .ternary condition thenExpr elseExpr => plainParts [condition, thenExpr, elseExpr]
  | .call callee args => plainParts (callee :: args.map CallArg.expr)
  | .generic _ _ => []
  | .interfaceBox value _ => plainParts [value]
  | .field _ _ => []
  | .index _ selector => plainParts [selector]
  | .record _ _ values => plainParts (values.map Prod.snd)
  | .objectLiteral entries => plainParts (entries.map Prod.snd)
  | .mapLiteral entries => plainParts (entries.map Prod.snd)
  | .arrayLiteral items => plainParts items
  | .patch _ operations => plainParts (operations.map PatchOperation.value)
  | .valueBlock body tail => blockParts body ++ [(blockNames body, tail)]
  | .concurrentValue body tail => blockParts body ++ [(blockNames body, tail)]
  | .timeout _ value => plainParts [value]
  | .throw value => plainParts [value]
  | .rethrow exception => plainParts [exception]
  | .tryCatch _ tryExpr => plainParts [tryExpr]
  | .dbOperation operation => operation.parts fields
  | .dbQuery target query => query.parts fields target
  | .dbTransaction _ body => blockParts body
  | .dbLeaseClaim _ key _ binding body =>
    plainParts [key] ++ bindParts binding.toList (blockParts body)
  | .dbLeaseRead _ key _ => plainParts [key]
  | .dispatch target timing => plainParts (target :: timing.toList.map DispatchTiming.time)

end Expr

end Skiff.Syntax
