import Mathlib.Algebra.Order.Ring.Int

/-!
# Documents with conditional updates

The fragment of a document database that conditional single-document writes need:
BSON documents, filters made of string equalities and `$expr` comparisons with the
server time, the update operators `$set`, `$inc`, `$max` and `$unset`, and update
pipelines with `$set` and `$unset` stages.

Two points of the update languages matter and are kept apart. A classic update
takes its values literally. In a pipeline every value is an expression, so a text
that starts with `$` is a field path or a variable and is evaluated against the
document; a missing field removes its target and a malformed path or an unknown
variable makes the server reject the whole write. The server itself is a parameter, and
`Documented` says that it evaluates filters and updates so.

Arrays, and the types that sort after dates, are left out. Within this fragment
every value that is not a date sorts before every date, as does a missing field.
-/

namespace Skiff

inductive Bson where
  | null
  | bool (value : Bool)
  | int32 (value : BitVec 32)
  | int64 (value : BitVec 64)
  | string (value : String)
  | binary (bytes : List UInt8)
  | datetime (millis : Int)
  | document (fields : List (String × Bson))

/-- Fields by name. Their order is kept but never observed. -/
abbrev Document := List (String × Bson)

variable {d : Document}

namespace Bson

def asStr : Bson → Option String
  | string value => some value
  | _ => none

def asI64 : Bson → Option (BitVec 64)
  | int64 value => some value
  | _ => none

def asDatetime : Bson → Option Int
  | datetime millis => some millis
  | _ => none

def asBinary : Bson → Option (List UInt8)
  | binary bytes => some bytes
  | _ => none

def asDocument : Bson → Option Document
  | document fields => some fields
  | _ => none

variable {b : Bson}

theorem asStr_eq_some {s : String} : b.asStr = some s ↔ b = string s := by
  cases b <;> simp [asStr]

theorem asI64_eq_some {v : BitVec 64} : b.asI64 = some v ↔ b = int64 v := by
  cases b <;> simp [asI64]

theorem asDatetime_eq_some {t : Int} : b.asDatetime = some t ↔ b = datetime t := by
  cases b <;> simp [asDatetime]

theorem asBinary_eq_some {v : List UInt8} : b.asBinary = some v ↔ b = binary v := by
  cases b <;> simp [asBinary]

theorem asDocument_eq_some : b.asDocument = some d ↔ b = document d := by
  cases b <;> simp [asDocument]

/-- The date of a field. A missing field, and a value that is not a date, has none. -/
def temporal (b : Option Bson) : Option Int := b.bind asDatetime

/-- The order of dates, with everything else before them. -/
def before : Option Int → Option Int → Bool
  | _, none => false
  | none, some _ => true
  | some a, some b => a < b

@[simp] theorem temporal_datetime (millis : Int) :
    temporal (some (datetime millis)) = some millis := rfl

@[simp] theorem before_none_some (b : Int) : before none (some b) = true := rfl

@[simp] theorem before_some_some (a b : Int) : before (some a) (some b) = decide (a < b) := rfl

end Bson

namespace Document

def get? : Document → String → Option Bson
  | [], _ => none
  | (name, value) :: rest, key => if name = key then some value else get? rest key

/-- Replace the field, or add it at the end. -/
def set : Document → String → Bson → Document
  | [], key, value => [(key, value)]
  | (name, old) :: rest, key, value =>
    if name = key then (key, value) :: rest else (name, old) :: set rest key value

def erase (d : Document) (key : String) : Document := d.filter fun field => field.1 ≠ key

@[simp] theorem get?_set_self (d : Document) (key : String) (value : Bson) :
    (d.set key value).get? key = some value := by
  induction d with
  | nil => simp [set, get?]
  | cons field rest ih =>
    simp only [set]
    split
    · simp [get?]
    case isFalse hne => simp [get?, hne, ih]

@[simp] theorem get?_set_of_ne (d : Document) {key other : String} (value : Bson)
    (h : other ≠ key) :
    (d.set key value).get? other = d.get? other := by
  induction d with
  | nil => simp [set, get?, Ne.symm h]
  | cons field rest ih =>
    obtain ⟨name, old⟩ := field
    simp only [set]
    split
    case isTrue heq =>
      subst heq
      simp [get?, Ne.symm h]
    case isFalse hne => simp only [get?, ih]

@[simp] theorem set_set (d : Document) (key : String) (value value' : Bson) :
    (d.set key value).set key value' = d.set key value' := by
  induction d with
  | nil => simp [set]
  | cons field rest ih =>
    obtain ⟨name, old⟩ := field
    by_cases hname : name = key
    · simp [set, hname]
    · simp [set, hname, ih]

@[simp] theorem get?_erase_self (d : Document) (key : String) : (d.erase key).get? key = none := by
  induction d with
  | nil => rfl
  | cons field rest ih =>
    obtain ⟨name, old⟩ := field
    simp only [erase] at ih ⊢
    by_cases hname : name = key
    · simpa [hname] using ih
    · simpa [hname, get?] using ih

@[simp] theorem get?_erase_of_ne (d : Document) {key other : String} (h : other ≠ key) :
    (d.erase key).get? other = d.get? other := by
  induction d with
  | nil => rfl
  | cons field rest ih =>
    obtain ⟨name, old⟩ := field
    simp only [erase] at ih ⊢
    by_cases hname : name = key
    · subst hname
      simpa [get?, Ne.symm h] using ih
    simp only [ne_eq, decide_not] at ih ⊢
    simp [hname, get?, ih]

/-- The value at a dotted path; every inner step must be a document. -/
def atPath (d : Document) : List String → Option Bson
  | [] => none
  | [key] => d.get? key
  | key :: rest =>
    match d.get? key with
    | some (.document sub) => atPath sub rest
    | _ => none

/-- `$set` of a classic update. `none` when a step of the path holds a value that
is not a document. -/
def setPath (d : Document) (value : Bson) : List String → Option Document
  | [] => none
  | [key] => some (d.set key value)
  | key :: rest =>
    match d.get? key with
    | some (.document sub) => (setPath sub value rest).map fun sub => d.set key (.document sub)
    | some _ => none
    | none => (setPath [] value rest).map fun sub => d.set key (.document sub)

/-- One computed field of a pipeline `$set`. Inner values that are not documents are
replaced; a missing result removes the field. -/
def putPath (d : Document) (value : Option Bson) : List String → Document
  | [] => d
  | [key] =>
    match value with
    | some value => d.set key value
    | none => d.erase key
  | key :: rest =>
    match d.get? key with
    | some (.document sub) => d.set key (.document (putPath sub value rest))
    | _ => d.set key (.document (putPath [] value rest))

theorem putPath_of_document {d sub : Document} {key inner : String} {rest : List String}
    (value : Option Bson) (h : d.get? key = some (.document sub)) :
    d.putPath value (key :: inner :: rest) =
      d.set key (.document (putPath sub value (inner :: rest))) := by
  simp [putPath, h]

theorem putPath_of_not_document {key inner : String} {rest : List String}
    (value : Option Bson) (h : (d.get? key).bind Bson.asDocument = none) :
    d.putPath value (key :: inner :: rest) =
      d.set key (.document (putPath [] value (inner :: rest))) := by
  simp only [putPath]
  split
  case h_1 sub hsub =>
    rw [hsub] at h
    cases h
  · rfl

end Document

/-! ## Filters -/

inductive Comparison where
  | lte
  | gt

/-- An operand of `$expr`: a field, a constant date, or `$$NOW`. -/
inductive Operand where
  | field (path : List String)
  | date (millis : Int)
  | now

inductive Clause where
  | equals (path : List String) (text : String)
  | isIn (path : List String) (texts : List String)
  | expr (comparison : Comparison) (left right : Operand)

def Operand.value (now : Int) (d : Document) : Operand → Option Int
  | .field path => Bson.temporal (d.atPath path)
  | .date millis => some millis
  | .now => some now

def Comparison.holds (left right : Option Int) : Comparison → Bool
  | .lte => !Bson.before right left
  | .gt => Bson.before right left

def Clause.holds (now : Int) (d : Document) : Clause → Bool
  | .equals path text => (d.atPath path).bind Bson.asStr = some text
  | .isIn path texts => ((d.atPath path).bind Bson.asStr).any fun text => text ∈ texts
  | .expr comparison left right => comparison.holds (left.value now d) (right.value now d)

/-! ## Updates -/

/-- Operators of a classic update. -/
inductive Modifier where
  | set (path : List String) (value : Bson)
  | inc (field : String)
  | max (field : String) (millis : Int)
  | unset (field : String)

/-- `$inc` by the 32-bit integer 1 stays in 64 bits and is rejected when it would
leave them. -/
def Modifier.apply (d : Document) : Modifier → Option Document
  | .set path value => d.setPath value path
  | .inc field =>
    match d.get? field with
    | some (.int64 value) =>
      if value = BitVec.intMax 64 then none else some (d.set field (.int64 (value + 1)))
    | none => some (d.set field (.int32 1))
    | _ => none
  | .max field millis =>
    if Bson.before (Bson.temporal (d.get? field)) (some millis) then
      some (d.set field (.datetime millis))
    else some d
  | .unset field => some (d.erase field)

theorem Modifier.apply_inc {field : String} {value : BitVec 64}
    (h : d.get? field = some (.int64 value)) :
    Modifier.apply d (.inc field) =
      if value = BitVec.intMax 64 then none else some (d.set field (.int64 (value + 1))) := by
  simp only [Modifier.apply, h]

/-- Split a path at its dots. -/
def splitDots : List Char → List (List Char)
  | [] => [[]]
  | c :: rest =>
    if c = '.' then [] :: splitDots rest
    else
      match splitDots rest with
      | [] => [[c]]
      | head :: tail => (c :: head) :: tail

/-- A field name in a path is not empty and does not start with `$`. -/
def validName : List Char → Bool
  | [] => false
  | c :: _ => c ≠ '$'

/-- The value of a text in an aggregation expression: `none` when the server rejects
it, `some none` when it is a missing field. -/
def evalText (root : Document) (now : Int) (text : String) : Option (Option Bson) :=
  match text.toList with
  | '$' :: '$' :: rest =>
    match splitDots rest with
    | [] => none
    | name :: path =>
      if !path.all validName then none
      else
        match String.ofList name with
        | "NOW" => if path = [] then some (some (.datetime now)) else some none
        | "ROOT" | "CURRENT" =>
          if path = [] then some (some (.document root))
          else some (root.atPath (path.map String.ofList))
        | "REMOVE" => some none
        | _ => none
  | '$' :: rest =>
    let path := splitDots rest
    if path.all validName then some (root.atPath (path.map String.ofList)) else none
  | _ => some (some (.string text))

theorem evalText_plain (root : Document) (now : Int) {text : String}
    (h : text.toList.head? ≠ some '$') : evalText root now text = some (some (.string text)) := by
  unfold evalText
  split
  case h_1 rest htext | h_2 rest _ htext => simp [htext] at h
  · rfl

theorem evalText_now (root : Document) (now : Int) :
    evalText root now "$$NOW" = some (some (.datetime now)) := rfl

/-- The stages of an update pipeline. A nested object in `$set` is the same as its
dotted paths, so a stage lists the paths it computes. -/
inductive Stage where
  | set (computed : List (List String × String))
  | unset (field : String)

/-- Every expression of a stage sees the document the stage started from. -/
def Stage.compute (root : Document) (now : Int) (d : Document) :
    List (List String × String) → Option Document
  | [] => some d
  | (path, text) :: rest =>
    match evalText root now text with
    | none => none
    | some value => Stage.compute root now (d.putPath value path) rest

def Stage.apply (now : Int) (d : Document) : Stage → Option Document
  | .set computed => Stage.compute d now d computed
  | .unset field => some (d.erase field)

inductive Update where
  | modifiers (list : List Modifier)
  | pipeline (stages : List Stage)

def Update.apply (now : Int) (d : Document) : Update → Option Document
  | .modifiers list => list.foldlM Modifier.apply d
  | .pipeline stages => stages.foldlM (Stage.apply now) d

theorem Update.apply_pipeline_nil (now : Int) (d : Document) :
    (pipeline []).apply now d = some d := rfl

theorem Update.apply_pipeline_cons (now : Int) (d : Document) (stage : Stage) (rest : List Stage) :
    (pipeline (stage :: rest)).apply now d =
      (stage.apply now d).bind fun d => (pipeline rest).apply now d := by
  simp [Update.apply]

/-- What a conditional write does to the document it is aimed at. -/
inductive WriteResult where
  | unmatched
  | rejected
  | updated (document : Document)

/-- The server of the database: which clauses hold of a document, and what an update makes of
it. -/
class DocumentServer where
  holds : Int → Document → Clause → Bool
  update : Int → Document → Update → Option Document

variable [DocumentServer]

def findOneAndUpdate (now : Int) (filter : List Clause) (update : Update) (d : Document) :
    WriteResult :=
  if filter.all (DocumentServer.holds now d) then
    match DocumentServer.update now d update with
    | none => .rejected
    | some updated => .updated updated
  else .unmatched

/-- The server evaluates clauses and updates as its manual says. -/
class DocumentServer.Documented : Prop where
  holds_eq : DocumentServer.holds = Clause.holds
  update_eq : DocumentServer.update = Update.apply

theorem findOneAndUpdate_eq [DocumentServer.Documented] (now : Int) (filter : List Clause)
    (update : Update) (d : Document) :
    findOneAndUpdate now filter update d =
      if filter.all (Clause.holds now d) then
        match update.apply now d with
        | none => .rejected
        | some updated => .updated updated
      else .unmatched := by
  rw [findOneAndUpdate, DocumentServer.Documented.holds_eq, DocumentServer.Documented.update_eq]

end Skiff
