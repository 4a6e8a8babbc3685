import Skiff.Syntax.Cursor
import Skiff.Syntax.TypeScans

/-!
# Parsing types

`syntax/src/parser/type.rs`, with `parse_params` of `decl.rs`. The parser keeps the text of a type
only. Beside each function stands one that reads the same tokens and keeps the tree of them.
-/

namespace Skiff.Syntax

open TypeExpr (joinWith)

structure TypeRef where
  name : Text

inductive ParamMode where
  | value
  | inOut

structure Param where
  name : Ident
  mode : ParamMode
  ty : TypeRef

def outOfFuel {α : Type} : ParseM α := fun _ => .error .outOfFuel

/-! ## The text of a type -/

/-- The segments after the dots, appended to the name. -/
def parseQualifiers : Nat → Text → ParseM Text
  | 0, _ => outOfFuel
  | fuel + 1, name => do
    if ← matchSymbol "." then
      let segment ← expectIdent "expected qualified type segment"
      parseQualifiers fuel (name ++ '.' :: segment.text)
    else return name

/-- The name of a type with its dependency and qualifiers. -/
def parseTypeName (fuel : Nat) : ParseM Text := do
  let token ← advance
  let name ← match token.kind with
    | .ident value => pure value.text
    | .string value => pure (quoteStringType value)
    | _ => throwSyntax "expected type name" token.start
  let name ← (do
    if ← matchSymbol "/" then
      let segment ← expectIdent "expected source module after dependency /"
      return name ++ '/' :: segment.text
    else return name)
  parseQualifiers fuel name

def parseNullableMarks : Nat → Text → ParseM Text
  | 0, _ => outOfFuel
  | fuel + 1, name => do
    if ← matchSymbol "?" then parseNullableMarks fuel (name ++ ['?'])
    else return name

mutual

def parseType : Nat → ParseM TypeRef
  | 0 => outOfFuel
  | fuel + 1 => do
    let name ← parseNullableType fuel
    parseBranches fuel name

def parseBranches : Nat → Text → ParseM TypeRef
  | 0, _ => outOfFuel
  | fuel + 1, name => do
    if ← matchSymbol "|" then
      let rhs ← parseNullableType fuel
      parseBranches fuel (name ++ " | ".toList ++ rhs)
    else return ⟨name⟩

def parseNullableType : Nat → ParseM Text
  | 0 => outOfFuel
  | fuel + 1 => do
    let name ← parsePrimaryType fuel
    parseNullableMarks fuel name

def parsePrimaryType : Nat → ParseM Text
  | 0 => outOfFuel
  | fuel + 1 => do
    if ← matchIdent "any" then
      let interface ← parsePrimaryType fuel
      return "any ".toList ++ interface
    else if ← checkIdent "fn" then parseFunctionTypeName fuel
    else if ← matchSymbol "\x7b" then parseRecordTypeName fuel
    else
      let name ← parseTypeName fuel
      if ← matchSymbol "<" then
        let name ← (do
          if ← checkSymbol ">" then return name ++ ['<']
          else parseTypeArgs fuel (name ++ ['<']))
        expectSymbol ">"
        return name ++ ['>']
      else return name

def parseTypeArgs : Nat → Text → ParseM Text
  | 0, _ => outOfFuel
  | fuel + 1, name => do
    let ty ← parseType fuel
    let name := name ++ ty.name
    if ← matchSymbol "," then parseTypeArgs fuel (name ++ ", ".toList)
    else return name

def parseFunctionTypeName : Nat → ParseM Text
  | 0 => outOfFuel
  | fuel + 1 => do
    let _ ← expectIdentValue "fn"
    expectSymbol "("
    let params ← parseParams fuel
    expectSymbol ")"
    expectSymbol "->"
    let returnType ← parseType fuel
    let params := params.map fun param => param.name.text ++ ": ".toList ++ param.ty.name
    return "fn(".toList ++ joinWith ", ".toList params ++ ") -> ".toList ++ returnType.name

def parseParams : Nat → ParseM (List Param)
  | 0 => outOfFuel
  | fuel + 1 => do
    if ← checkSymbol ")" then return []
    else parseParamList fuel []

def parseParamList : Nat → List Param → ParseM (List Param)
  | 0, _ => outOfFuel
  | fuel + 1, params => do
    let mode := if ← matchIdent "inout" then .inOut else .value
    let name ← expectIdent "expected parameter name"
    expectSymbol ":"
    let ty ← parseType fuel
    let params := params ++ [⟨name, mode, ty⟩]
    if ← matchSymbol "," then parseParamList fuel params
    else return params

def parseRecordTypeName : Nat → ParseM Text
  | 0 => outOfFuel
  | fuel + 1 => do
    let fields ← (do
      if ← checkSymbol "\x7d" then return []
      else parseRecordFields fuel [])
    expectSymbol "\x7d"
    if fields.isEmpty then return "{}".toList
    else return "\x7b ".toList ++ joinWith ", ".toList fields ++ " \x7d".toList

def parseRecordFields : Nat → List Text → ParseM (List Text)
  | 0, _ => outOfFuel
  | fuel + 1, fields => do
    let field ← expectIdent "expected record field name"
    expectSymbol ":"
    let ty ← parseType fuel
    let fields := fields ++ [field.text ++ ": ".toList ++ ty.name]
    if ← matchSymbol "," then
      if ← checkSymbol "\x7d" then return fields
      else parseRecordFields fuel fields
    else return fields

end

end Skiff.Syntax
