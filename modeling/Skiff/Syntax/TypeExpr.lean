import Skiff.Syntax.TypeSyntax

/-!
# Type expressions

`TypeExpr::parse` and `to_type_string` (`syntax/src/type_expr.rs`). A type is carried as text, and
is parsed anew from it wherever its structure is needed.
-/

namespace Skiff.Syntax

inductive TypeExpr where
  | emptyRecord
  | stringLiteral (value : Text)
  | anyInterface (interface : TypeExpr)
  | named (name : Text) (args : List TypeExpr)
  | nullable (inner : TypeExpr)
  | union (parts : List TypeExpr)
  | record (fields : List (Text × TypeExpr))
  | function (params : List (Text × TypeExpr)) (returnType : TypeExpr)

namespace TypeExpr

/-- The names and type texts of the parameters. -/
def functionTypeParams (raw : Text) : Option (List (Text × Text)) :=
  if (trim raw).isEmpty then some []
  else (splitTopLevel raw ',').mapM fun param =>
    if (trim param).isEmpty then none else splitTopLevelOnce (trim param) ':'

/-- The parameters and the text of the return type. -/
def functionTypeParts (ty : Text) : Option (List (Text × Text) × Text) := do
  let tail ← stripPrefix "fn(".toList (trim ty)
  let (before, after) ← findTopLevel ')' .start [] tail
  let returnType := trim (← stripPrefix "->".toList (trimStart after))
  if returnType.isEmpty then none
  else return (← functionTypeParams (trim before), returnType)

variable [SerdeJson]

/-- `parse` of a text that is shorter than the fuel. -/
def parseWith : Nat → Text → TypeExpr
  | 0, raw => .named (trim raw) []
  | fuel + 1, raw =>
    let ty := trim raw
    if ty.isEmpty then .named ty []
    else if ty = "{}".toList then .emptyRecord
    else
      match Syntax.stringLiteral ty with
      | some value => .stringLiteral value
      | none =>
        match functionTypeParts ty with
        | some (params, returnType) =>
          .function (params.map fun param => (param.1, parseWith fuel param.2))
            (parseWith fuel returnType)
        | none =>
          if 1 < (splitTopLevel ty '|').length then
            .union ((splitTopLevel ty '|').map (parseWith fuel))
          else
            match stripSuffix "?".toList ty with
            | some inner => .nullable (parseWith fuel inner)
            | none =>
              match stripPrefix "any ".toList ty with
              | some interface => .anyInterface (parseWith fuel (trim interface))
              | none =>
                match recordTypeFields ty with
                | some [] => .emptyRecord
                | some fields => .record (fields.map fun field => (field.1, parseWith fuel field.2))
                | none =>
                  match genericParts ty with
                  | some parts => .named parts.root (parts.args.map (parseWith fuel))
                  | none => .named ty []

def parse (raw : Text) : TypeExpr := parseWith (raw.length + 1) raw

/-! ## Printing -/

def joinWith (separator : Text) : List Text → Text
  | [] => []
  | [part] => part
  | part :: rest => part ++ separator ++ joinWith separator rest

mutual

def toTypeString : TypeExpr → Text
  | .emptyRecord => "{}".toList
  | .stringLiteral value => SerdeJson.toString value
  | .anyInterface interface => "any ".toList ++ interface.toTypeString
  | .named name [] => name
  | .named name args => name ++ '<' :: joinWith ", ".toList (toTypeStrings args) ++ ['>']
  | .nullable inner => inner.toTypeString ++ ['?']
  | .union parts => joinWith " | ".toList (toTypeStrings parts)
  | .record fields => "\x7b ".toList ++ joinWith ", ".toList (fieldStrings fields) ++ " \x7d".toList
  | .function params returnType =>
    "fn(".toList ++ joinWith ", ".toList (fieldStrings params) ++ ") -> ".toList ++
      returnType.toTypeString

def toTypeStrings : List TypeExpr → List Text
  | [] => []
  | part :: rest => part.toTypeString :: toTypeStrings rest

def fieldStrings : List (Text × TypeExpr) → List Text
  | [] => []
  | (name, ty) :: rest => (name ++ ": ".toList ++ ty.toTypeString) :: fieldStrings rest

end

end TypeExpr

end Skiff.Syntax
