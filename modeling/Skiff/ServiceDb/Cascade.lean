import Skiff.ServiceDb.Writes

/-!
# The file cascade

When a record goes away, or a change or a replacement takes a file out of it, the
database deletes the file with it. The cascade looks the file ids up in the stored
document, along the paths where the collection's types put immutable files
(`runtime/service-db/src/cascade.rs`).

Whether it finds them depends on how the mapping stored the field. A type with a file
in it is never schema projectable, so its whole top-level field is an opaque envelope
and there is nothing below it to look up. The one exception is a field whose name has
a dot in it: the mapping takes the name for a path, does not find the field's plan and
stores the value as it is.
-/

namespace Skiff.ServiceDb

open Skiff.Runtime DbBoundaryValuePlanRef DbCollectionMetadata Json List Option Except

/-! ## The cascade as the source has it -/

/-- The elements of a `BTreeSet`. -/
def orderedSet (ids : List String) : List String := (ids.mergeSort (· ≤ ·)).dedup

structure CascadeFileDeletePlan where
  fileIds : List String

def fileIdFromBson (value : BsonValue) : Option String := do
  let document ← value.asDocument
  (← document.lookup "id").asStr

def fileIdFromBsonAtPath (value : BsonValue) : List String → Option String
  | [] => fileIdFromBson value
  | first :: rest => do
    let document ← value.asDocument
    fileIdFromBsonAtPath (← document.lookup first) rest

def fileIdAtPath (document : MongoDocument) : List String → Option String
  | [] => none
  | first :: rest => do fileIdFromBsonAtPath (← document.get? first) rest

def jsonAsStr : Tree → Option String
  | .string value => some value
  | _ => none

def fileIdFromJson (value : Tree) : Option String := do
  let object ← asObject value
  jsonAsStr (← object.lookup "id")

def fileIdFromJsonAtPath (value : Tree) : List String → Option String
  | [] => fileIdFromJson value
  | first :: rest => do
    let object ← asObject value
    fileIdFromJsonAtPath (← object.lookup first) rest

def cascadePlanForDeletedDocuments (documents : List MongoDocument) (paths : List (List String)) :
    CascadeFileDeletePlan :=
  ⟨orderedSet (documents.flatMap fun document => paths.filterMap (fileIdAtPath document))⟩

def cascadePlanForReplacement (old replacement : MongoDocument) (paths : List (List String)) :
    CascadeFileDeletePlan :=
  ⟨orderedSet (paths.filterMap fun path =>
    (fileIdAtPath old path).filter fun oldId => fileIdAtPath replacement path ≠ some oldId)⟩

/-- The segments agree with the path as far as both go. -/
def agrees (segments path : List String) : Bool :=
  (segments.zip path).all fun pair => pair.1 = pair.2

def isAncestorPath (field : String) (path : List String) : Bool :=
  (splitPath field).length < path.length && agrees (splitPath field) path

def pathTouchesFilePath (touched filePath : List String) : Bool :=
  touched.length ≤ filePath.length && agrees touched filePath

namespace ServiceDbChange

variable (change : ServiceDbChange)

def unsetFields : List String :=
  change.ops.filterMap fun
    | .unset field => some field
    | _ => none

/-- The value the change sets a field to, the last one if there are several. -/
def setValue (field : String) : Option Value :=
  change.ops.reverse.findSome? fun
    | .set other value => if other = field then some value else none
    | _ => none

/-- The fields the change sets, each with its last value, in the order of their first. -/
def setEntries : List (String × Value) :=
  change.ops.foldl (fun entries op =>
    match op with
    | .set field value => put field value entries
    | _ => entries) []
where
  put (field : String) (value : Value) : List (String × Value) → List (String × Value)
    | [] => [(field, value)]
    | (other, old) :: rest =>
      if other = field then (other, value) :: rest else (other, old) :: put field value rest

/-- The file id a change leaves at a path: `none` when it does not touch the path. -/
def replacementFileIdForChangePath (path : List String) : Option (Option String) :=
  let pathText := String.intercalate "." path
  if change.unsetFields.any fun field => field = pathText || isAncestorPath field path then
    some none
  else
    match change.setValue pathText with
    | some value => some (fileIdFromJson value.tree)
    | none =>
      (change.setEntries.find? fun entry => isAncestorPath entry.1 path).map fun entry =>
        fileIdFromJsonAtPath entry.2.tree (path.drop (splitPath entry.1).length)

end ServiceDbChange

def cascadePlanForChange (old : MongoDocument) (change : ServiceDbChange)
    (paths : List (List String)) : CascadeFileDeletePlan :=
  ⟨orderedSet (paths.filterMap fun path =>
    match fileIdAtPath old path, change.replacementFileIdForChangePath path with
    | some oldId, some newId => if newId ≠ some oldId then some oldId else none
    | _, _ => none)⟩

def cascadePlanForChangedDocuments (documents : List MongoDocument) (change : ServiceDbChange)
    (paths : List (List String)) : CascadeFileDeletePlan :=
  ⟨orderedSet (documents.flatMap fun document =>
    (cascadePlanForChange document change paths).fileIds)⟩

def DbCollectionMetadata.immutableFilePathsForChange (binding : DbCollectionMetadata)
    (change : ServiceDbChange) : List (List String) :=
  change.touchedFields.flatMap fun field =>
    binding.immutableFilePaths.filter (pathTouchesFilePath (splitPath field))

theorem mem_orderedSet {ids : List String} {id : String} : id ∈ orderedSet ids ↔ id ∈ ids := by
  rw [orderedSet, mem_dedup, mem_mergeSort]

/-! ## The text at a path -/

/-- The string at the end of a path. -/
def textAt : BsonValue → List String → Option String
  | value, [] => value.asStr
  | value, first :: rest => do textAt (← (← value.asDocument).lookup first) rest

def jsonTextAt : Tree → List String → Option String
  | value, [] => jsonAsStr value
  | value, first :: rest => do
    jsonTextAt (← (← asObject value).lookup first) rest

theorem fileIdFromBsonAtPath_eq (value : BsonValue) (path : List String) :
    fileIdFromBsonAtPath value path = textAt value (path ++ ["id"]) := by
  induction path generalizing value with
  | nil => rfl
  | cons first rest ih => simp only [fileIdFromBsonAtPath, cons_append, textAt, ih]

theorem fileIdFromJsonAtPath_eq (value : Tree) (path : List String) :
    fileIdFromJsonAtPath value path = jsonTextAt value (path ++ ["id"]) := by
  induction path generalizing value with
  | nil => rfl
  | cons first rest ih => simp only [fileIdFromJsonAtPath, cons_append, jsonTextAt, ih]

variable {text : String}

variable {rest : List String}

theorem textAt_cons {value : BsonValue} {first : String} :
    textAt value (first :: rest) = some text ↔
      ∃ fields inner, value = .document fields ∧ fields.lookup first = some inner ∧
        textAt inner rest = some text := by
  cases value <;> simp [textAt, BsonValue.asDocument, bind_eq_some_iff]

variable {value : Tree}

theorem jsonTextAt_cons {first : String} :
    jsonTextAt value (first :: rest) = some text ↔
      ∃ fields inner, value = .object fields ∧ fields.lookup first = some inner ∧
        jsonTextAt inner rest = some text := by
  cases value <;> simp [jsonTextAt, asObject, bind_eq_some_iff]

theorem textAt_nil {value : BsonValue} : textAt value [] = some text ↔ value = .string text := by
  cases value <;> simp [textAt, BsonValue.asStr]

theorem jsonTextAt_nil : jsonTextAt value [] = some text ↔ value = .string text := by
  cases value <;> simp [jsonTextAt, jsonAsStr]

theorem lookup_toBsonFields {fields : List (String × Tree)} {stored : List (String × BsonValue)}
    (h : toBsonFields fields = .ok stored) {name : String}
    (hvalue : fields.lookup name = some value) :
    ∃ bson, stored.lookup name = some bson ∧ toBson value = .ok bson := by
  induction fields generalizing stored with
  | nil => cases hvalue
  | cons field fields ih =>
    obtain ⟨other, first⟩ := field
    rw [toBsonFields] at h
    obtain ⟨bson, hbson, h⟩ := bind_eq_ok.mp h
    obtain ⟨rest, hrest, h⟩ := bind_eq_ok.mp h
    cases h
    rw [lookup_cons] at hvalue ⊢
    split at hvalue
    · cases hvalue
      exact ⟨bson, rfl, hbson⟩
    · exact ih hrest hvalue

theorem textAt_toBson {bson : BsonValue} (h : toBson value = .ok bson)
    {path : List String} (htext : jsonTextAt value path = some text) :
    textAt bson path = some text := by
  induction path generalizing value bson with
  | nil =>
    obtain rfl := jsonTextAt_nil.mp htext
    rw [toBson] at h
    cases h
    rfl
  | cons first rest ih =>
    obtain ⟨fields, inner, rfl, hinner, htext⟩ := jsonTextAt_cons.mp htext
    rw [toBson] at h
    obtain ⟨stored, hstored, h⟩ := bind_eq_ok.mp h
    cases h
    obtain ⟨bson, hlookup, hbson⟩ := lookup_toBsonFields hstored hinner
    exact textAt_cons.mpr ⟨stored, bson, rfl, hlookup, ih hbson htext⟩

/-! ## Coercion -/

/-- Some plan along the path describes a date there. -/
def hasDateAt (plan : Option DbBoundaryValuePlanRef) (path : List String) : Bool :=
  match plan.bind fun ref => ref.descendPath path with
  | some ref =>
    match ref.projection with
    | .date => true
    | _ => false
  | none => false

namespace DbBoundaryValuePlanRef

variable {ref : DbBoundaryValuePlanRef}

/-- One step down a plan goes through a record. -/
theorem descendPath_record (hlane : ref.storageLane ≠ .recoverableEnvelope)
    {projection : DbRecordProjection} (h : ref.projection = .record projection) (first : String)
    (rest : List String) :
    ref.descendPath (first :: rest) =
      (projection.field first).bind fun inner => inner.descendPath rest := by
  have hschema : ref.storageLane = .schemaProjectable := by
    cases hcase : ref.storageLane with
    | schemaProjectable => rfl
    | recoverableEnvelope => exact absurd hcase hlane
  rw [DbBoundaryValuePlanRef.projection, if_neg hlane] at h
  rw [descendPath, if_neg hlane, DbRecordProjection.field]
  split at h
  case h_2 fields hnode =>
    cases h
    simp only [hnode, hschema]
    cases fields.find? fun field => field.name = first with
    | none => rfl
    | some field => rfl
  all_goals cases h

theorem descendPath_of_not_record (h : ∀ projection, ref.projection ≠ .record projection)
    (first : String) (rest : List String) : ref.descendPath (first :: rest) = none := by
  rw [descendPath]
  split
  · rfl
  case isFalse hlane =>
    split
    case h_1 fields hnode =>
      refine absurd ?_ (h ⟨fields, ref.recoverableExpected⟩)
      rw [projection, if_neg hlane, hnode]
    · rfl

variable {inner : DbBoundaryValuePlanRef}

theorem descendPath_lane {segments : List String}
    (h : ref.descendPath segments = some inner) : inner.storageLane = ref.storageLane := by
  induction segments generalizing ref with
  | nil =>
    cases h
    rfl
  | cons segment segments ih =>
    rw [descendPath] at h
    split at h
    · cases h
    split at h
    · split at h
      · have hinner := ih h
        exact hinner
      · cases h
    · cases h

/-- There is no plan inside an envelope. -/
theorem lane_of_descendPath {segments : List String}
    (h : ref.descendPath segments = some inner) (hsegments : segments ≠ []) :
    inner.storageLane ≠ .recoverableEnvelope := by
  rw [descendPath_lane h]
  intro hlane
  obtain ⟨segment, rest, rfl⟩ := exists_cons_of_ne_nil hsegments
  rw [descendPath, if_pos hlane] at h
  cases h

end DbBoundaryValuePlanRef

section Coercion

variable {ρ : Type} {codecs : DbCodecs ρ}

theorem lookup_coerceBsonFields {fields stored : List (String × BsonValue)}
    {projection : DbRecordProjection} (h : coerceBsonFields codecs fields projection = .ok stored)
    {name : String} {value : BsonValue} (hvalue : fields.lookup name = some value) :
    ∃ bson, stored.lookup name = some bson ∧
      coerceBsonValueForType codecs value (projection.field name) = .ok bson := by
  induction fields generalizing stored with
  | nil => cases hvalue
  | cons field fields ih =>
    obtain ⟨other, first⟩ := field
    rw [coerceBsonFields] at h
    obtain ⟨bson, hbson, h⟩ := bind_eq_ok.mp h
    obtain ⟨rest, hrest, h⟩ := bind_eq_ok.mp h
    cases h
    rw [lookup_cons] at hvalue ⊢
    split at hvalue
    case h_1 heq =>
      cases hvalue
      rw [beq_iff_eq] at heq
      exact ⟨bson, rfl, heq ▸ hbson⟩
    · exact ih hrest hvalue

variable {plan : Option DbBoundaryValuePlanRef}

theorem coerce_string {text : String} {out : BsonValue}
    (h : coerceBsonValueForType codecs (.string text) plan = .ok out)
    (hlane : ∀ ref, plan = some ref → ref.storageLane ≠ .recoverableEnvelope) :
    hasDateAt plan [] = false ∧ out = .string text ∨
      hasDateAt plan [] = true ∧ ∃ millis, out = .dateTime millis := by
  unfold coerceBsonValueForType at h
  obtain ⟨u, -, h⟩ := bind_eq_ok.mp h
  cases plan with
  | none => exact .inl ⟨rfl, (ok.inj h).symm⟩
  | some ref =>
    have hdate : hasDateAt (some ref) [] = match ref.projection with
        | .date => true
        | _ => false := rfl
    rw [hdate]
    dsimp only at h
    cases hcase : ref.projection with
    | recoverableEnvelope =>
      exact absurd (projection_eq_recoverableEnvelope_iff.mp hcase) (hlane ref rfl)
    | date =>
      right
      simp only [hcase] at h
      obtain ⟨millis, -, h⟩ := bind_eq_ok.mp h
      exact ⟨rfl, millis, (ok.inj h).symm⟩
    | record projection | array item | scalar =>
      simp only [hcase] at h
      exact .inl ⟨rfl, (ok.inj h).symm⟩

/-- Outside the envelope lane only a record plan changes a document, and that field
by field. -/
theorem coerce_document {fields : List (String × BsonValue)} {out : BsonValue}
    (h : coerceBsonValueForType codecs (.document fields) plan = .ok out)
    (hlane : ∀ ref, plan = some ref → ref.storageLane ≠ .recoverableEnvelope) :
    (∃ ref projection stored, plan = some ref ∧ ref.projection = .record projection ∧
      coerceBsonFields codecs fields projection = .ok stored ∧ out = .document stored) ∨
    (out = .document fields ∧
      ∀ ref projection, plan = some ref → ref.projection ≠ .record projection) := by
  unfold coerceBsonValueForType at h
  obtain ⟨u, -, h⟩ := bind_eq_ok.mp h
  cases plan with
  | none =>
    refine .inr ⟨(ok.inj h).symm, ?_⟩
    rintro ref projection ⟨⟩
  | some ref =>
    dsimp only at h
    cases hcase : ref.projection with
    | recoverableEnvelope =>
      exact absurd (projection_eq_recoverableEnvelope_iff.mp hcase) (hlane ref rfl)
    | date =>
      simp only [hcase] at h
      cases h
    | record projection =>
      simp only [hcase] at h
      obtain ⟨stored, hstored, h⟩ := bind_eq_ok.mp h
      exact .inl ⟨ref, projection, stored, rfl, hcase, hstored, (ok.inj h).symm⟩
    | array item | scalar =>
      simp only [hcase] at h
      refine .inr ⟨(ok.inj h).symm, ?_⟩
      rintro ref' projection ⟨⟩
      rw [hcase]
      exact DbValueProjection.noConfusion

/-- A coerced value has its texts where they were, except under a date. -/
theorem textAt_coerce {value out : BsonValue}
    (h : coerceBsonValueForType codecs value plan = .ok out)
    (hlane : ∀ ref, plan = some ref → ref.storageLane ≠ .recoverableEnvelope)
    {path : List String} {text : String} (htext : textAt value path = some text) :
    textAt out path = some text ↔ hasDateAt plan path = false := by
  induction path generalizing value out plan with
  | nil =>
    obtain rfl := textAt_nil.mp htext
    obtain ⟨hdate, rfl⟩ | ⟨hdate, millis, rfl⟩ := coerce_string h hlane
    · exact iff_of_true rfl hdate
    refine iff_of_false ?_ (by simp [hdate])
    rw [textAt_nil]
    exact BsonValue.noConfusion
  | cons first rest ih =>
    obtain ⟨fields, inner, rfl, hinner, hrest⟩ := textAt_cons.mp htext
    obtain ⟨ref, projection, stored, rfl, hprojection, hstored, rfl⟩ | ⟨rfl, hrecord⟩ :=
      coerce_document h hlane
    · obtain ⟨bson, hlookup, hbson⟩ := lookup_coerceBsonFields hstored hinner
      have hdown : hasDateAt (some ref) (first :: rest) =
        hasDateAt (projection.field first) rest := by
        rw [hasDateAt, hasDateAt, bind_some, descendPath_record (hlane ref rfl) hprojection]
      have hfield : ∀ inner, projection.field first = some inner →
          inner.storageLane ≠ .recoverableEnvelope := by
        intro inner hinner
        obtain ⟨field, -, rfl⟩ := map_eq_some_iff.mp hinner
        exact RuntimeRecoverableStorageLane.noConfusion
      rw [hdown, ← ih hbson hfield hrest]
      simp [textAt, BsonValue.asDocument, hlookup]
    refine iff_of_true htext ?_
    cases plan with
    | none => rfl
    | some ref => rw [hasDateAt, bind_some, descendPath_of_not_record (hrecord ref · rfl)]

end Coercion

/-! ## Where files are stored as they are -/

namespace DbCollectionMetadata

variable {binding : DbCollectionMetadata}

/-- A file path starts at a declared field, whose type is not schema projectable. -/
theorem mem_immutableFilePaths {p : List String} (h : p ∈ binding.immutableFilePaths) :
    ∃ top rest field, p = top :: rest ∧ binding.fields.get? top = some field ∧
      schemaProjectableDbTypeRef field.typeRef = false := by
  rw [immutableFilePaths, mem_dedup, mem_mergeSort, mem_flatMap] at h
  obtain ⟨⟨top, field⟩, hentry, hp⟩ := h
  obtain ⟨hty, rest, rfl⟩ := schemaProjectable_of_mem_collect hp
  exact ⟨top, rest, field, rfl, OrdMap.get?_eq_some_iff.mpr hentry, hty⟩

/-- The path starts at a field with a dot in its name that is not the key, and the
plan found under that name, if there is one, has no date where the id is. -/
def storesAsIs (binding : DbCollectionMetadata) : List String → Bool
  | [] => false
  | top :: rest =>
    '.' ∈ top.toList && top ≠ binding.keyField &&
      !hasDateAt (binding.fieldWriteProjectionPlanForPath top) (rest ++ ["id"])

/-- A plain name finds its own plan, the key's being the same as its field's. -/
theorem fieldWriteProjectionPlanForPath_plain {top : String} {field : DbFieldMetadata}
    (hdot : '.' ∉ top.toList) (hfield : binding.fields.get? top = some field) :
    binding.fieldWriteProjectionPlanForPath top = some field.ty.writeProjectionRef := by
  have htop : topLevel top = top := topLevel_eq_self_iff.mpr hdot
  have htail : (splitPath top).tail = [] := splitPath_tail_eq_nil_iff.mpr hdot
  have hid : top ≠ mongoIdField := by
    rintro rfl
    rw [binding.id_undeclared] at hfield
    cases hfield
  simp only [fieldWriteProjectionPlanForPath, fieldPlanForPathWith, htop, htail, hid, false_or,
    hfield, map_some]
  split
  case isTrue hkey =>
    rw [hkey] at hfield
    have hty : binding.keyTy = field.ty := by
      rw [keyTy, DbFieldMetadata.ty, binding.key_typed field hfield]
    rw [hty]
    rfl
  · rfl

theorem fieldWriteProjectionPlanForPath_dotted {top : String} (hdot : '.' ∈ top.toList)
    {ref : DbBoundaryValuePlanRef} (h : binding.fieldWriteProjectionPlanForPath top = some ref) :
    ref.storageLane ≠ .recoverableEnvelope := by
  rw [fieldWriteProjectionPlanForPath, fieldPlanForPathWith] at h
  obtain ⟨plan, -, hdescend⟩ := bind_eq_some_iff.mp h
  refine lane_of_descendPath hdescend ?_
  rw [Ne, splitPath_tail_eq_nil_iff, not_not]
  exact hdot

/-- How the text at a file path is stored, once and for all ways of writing. -/
theorem textAt_stored_iff {ρ : Type} {codecs : DbCodecs ρ} {top first : String}
    {field : DbFieldMetadata} {json : Tree} {plain stored : BsonValue}
    {context : Option EncryptedRecordContext} {text : String}
    (hfield : binding.fields.get? top = some field)
    (hty : schemaProjectableDbTypeRef field.typeRef = false)
    (hplain : Projected codecs (binding.fieldWriteProjectionPlanForPath top) json plain)
    (hstored : binding.encodeFieldStorage codecs top context plain = .ok stored)
    (htext : jsonTextAt json (first :: rest) = some text) :
    textAt stored (first :: rest) = some text ↔
      '.' ∈ top.toList ∧
        hasDateAt (binding.fieldWriteProjectionPlanForPath top) (first :: rest) = false := by
  have hlane : field.ty.storageLane = .recoverableEnvelope := if_neg (by simp [hty])
  by_cases hdot : '.' ∈ top.toList
  · -- the plan, if there is one, is a part of some other field's
    have hinner : ∀ ref, binding.fieldWriteProjectionPlanForPath top = some ref →
        ref.storageLane ≠ .recoverableEnvelope :=
      fun ref => fieldWriteProjectionPlanForPath_dotted hdot
    obtain ⟨ref, bytes, href, hbytes, -⟩ | ⟨-, raw, hraw, hcoerce⟩ := hplain
    · exact absurd hbytes (hinner ref href)
    have hrawText := textAt_toBson hraw htext
    have hsame : stored = plain := by
      refine encodeFieldStorage_of_not_string (fun text => ?_) hstored
      obtain ⟨fields, inner, rfl, -, -⟩ := textAt_cons.mp hrawText
      obtain ⟨-, -, -, -, -, -, rfl⟩ | ⟨rfl, -⟩ := coerce_document hcoerce hinner
      · exact BsonValue.noConfusion
      · exact BsonValue.noConfusion
    rw [hsame, textAt_coerce hcoerce hinner hrawText]
    exact (and_iff_right hdot).symm
  -- the plan is the field's own, and the field is an envelope
  refine iff_of_false ?_ fun h => hdot h.1
  rw [fieldWriteProjectionPlanForPath_plain hdot hfield] at hplain
  obtain ⟨ref, bytes, -, -, rfl⟩ | ⟨hschema, -⟩ := hplain
  · rw [encodeFieldStorage_of_not_string (fun text => BsonValue.noConfusion) hstored]
    intro htext
    cases htext
  · exact absurd hlane (hschema _ rfl)

end DbCollectionMetadata

end Skiff.ServiceDb
