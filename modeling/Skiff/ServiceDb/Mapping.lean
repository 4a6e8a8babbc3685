import Skiff.ServiceDb.TypeRef

/-!
# Business values and stored documents

How the service database turns business values into Mongo documents and updates, and
reads them back (`runtime/service-db/src/mapping.rs`). A stored document is a finite
map of top-level fields; a nested document is a list of fields.

What the mapping calls and does not look into is a parameter: the recoverable codec,
the BSON crate's way back to JSON, dates, the field cipher, and the request heap that
runtime values live in. Nothing is assumed about any of them.
-/

namespace Skiff.ServiceDb

open Skiff.Runtime Json
open Compiler (TypeRefIr)

inductive BsonValue where
  | null
  | boolean (value : Bool)
  | int32 (value : Int)
  | int64 (value : I64)
  | double (value : Double)
  | string (value : String)
  | array (items : List BsonValue)
  | document (fields : List (String × BsonValue))
  | binary (bytes : List UInt8)
  | dateTime (millis : Int)
deriving BEq

abbrev MongoDocument := OrdMap String BsonValue

/-- The errors of the mapping. A refused path keeps the policy's error, whose text is
the message of the decode error the source makes of it. -/
inductive ServiceDbError where
  | path (error : DbFieldPathPolicyError)
  | decode (message : String)
  | bson (message : String)

def BsonValue.isNull : BsonValue → Bool
  | .null => true
  | _ => false

def bsonKind : BsonValue → String
  | .null => "null"
  | .boolean _ => "bool"
  | .int32 _ => "int32"
  | .int64 _ => "int64"
  | .double _ => "double"
  | .string _ => "string"
  | .array _ => "array"
  | .document _ => "document"
  | .binary _ => "binary"
  | .dateTime _ => "date"

def BsonValue.asDocument : BsonValue → Option (List (String × BsonValue))
  | .document fields => some fields
  | _ => none

def BsonValue.asStr : BsonValue → Option String
  | .string value => some value
  | _ => none

/-! ## JSON to BSON -/

/-- `bson::to_bson` of a number. -/
def numberToBson : Number → Except ServiceDbError BsonValue
  | .float d => .ok (.double d)
  | n =>
    match n.asI64 with
    | some value => .ok (.int64 value)
    | none => .error (.bson "unsigned integer exceeded range")

mutual

/-- `bson::to_bson` of a JSON value. -/
def toBson : Tree → Except ServiceDbError BsonValue
  | .null => .ok .null
  | .bool value => .ok (.boolean value)
  | .number n => numberToBson n
  | .string value => .ok (.string value)
  | .array items => do .ok (.array (← toBsonItems items))
  | .object fields => do .ok (.document (← toBsonFields fields))

def toBsonItems : List Tree → Except ServiceDbError (List BsonValue)
  | [] => .ok []
  | item :: rest => do
    let value ← toBson item
    .ok (value :: (← toBsonItems rest))

def toBsonFields : List (String × Tree) → Except ServiceDbError (List (String × BsonValue))
  | [] => .ok []
  | (name, value) :: rest => do
    let value ← toBson value
    .ok ((name, value) :: (← toBsonFields rest))

end

mutual

def validateDbBusinessJsonValue : Tree → Except ServiceDbError Unit
  | .array items => validateDbBusinessJsonItems items
  | .object fields => validateDbBusinessJsonObject fields
  | _ => .ok ()

def validateDbBusinessJsonItems : List Tree → Except ServiceDbError Unit
  | [] => .ok ()
  | item :: rest => do
    validateDbBusinessJsonValue item
    validateDbBusinessJsonItems rest

def validateDbBusinessJsonObject : List (String × Tree) → Except ServiceDbError Unit
  | [] => .ok ()
  | (name, value) :: rest => do
    (validateDbBusinessFieldName name).mapError .path
    validateDbBusinessJsonValue value
    validateDbBusinessJsonObject rest

end

mutual

def validateDbBusinessBsonValue : BsonValue → Except ServiceDbError Unit
  | .array items => validateDbBusinessBsonItems items
  | .document fields => validateDbBusinessBsonDocument fields
  | _ => .ok ()

def validateDbBusinessBsonItems : List BsonValue → Except ServiceDbError Unit
  | [] => .ok ()
  | item :: rest => do
    validateDbBusinessBsonValue item
    validateDbBusinessBsonItems rest

def validateDbBusinessBsonDocument : List (String × BsonValue) → Except ServiceDbError Unit
  | [] => .ok ()
  | (name, value) :: rest => do
    (validateDbBusinessFieldName name).mapError .path
    validateDbBusinessBsonValue value
    validateDbBusinessBsonDocument rest

end

/-! ## Collections -/

inductive DbFieldStorageIr where
  | identity
  | encrypted
deriving DecidableEq

/-- A declared field. Its name is its key in the collection's fields. -/
structure DbFieldMetadata where
  typeRef : TypeRefIr
  storage : DbFieldStorageIr

def DbFieldMetadata.ty (field : DbFieldMetadata) : DbBoundaryValuePlan :=
  .fromArtifactTypeRef field.typeRef

structure DbLeaseMetadata where
  ttlMs : Nat
  maxMs : Option Nat

/-- A collection. The artifact check rejects `_id` as a business field, and the
compiler takes the key from the record's fields, type included. -/
structure DbCollectionMetadata where
  targetKey : String
  typeName : String
  keyField : String
  keyTypeRef : TypeRefIr
  fields : OrdMap String DbFieldMetadata
  leases : OrdMap String DbLeaseMetadata
  id_undeclared : fields.get? mongoIdField = none
  key_typed : ∀ field, fields.get? keyField = some field → field.typeRef = keyTypeRef

/-- The record an encrypted field is bound to. -/
structure EncryptedRecordContext where
  recordId : String

/-- What the mapping calls. `ρ` is the type of runtime values with their heap. -/
structure DbCodecs (ρ : Type) where
  fromBson : BsonValue → Except String Tree
  encodeEnvelope : RuntimeTypePlan → Tree → Except String (List UInt8)
  decodeEnvelope : RuntimeTypePlan → List UInt8 → Except String Tree
  parseRfc3339Millis : String → Except String Int
  formatEpochMillis : Int → Except String String
  encryptString : String → EncryptedRecordContext → String → Except String BsonValue
  decryptString : String → EncryptedRecordContext → BsonValue → Except String String
  runtimeObjectFields : ρ → Except String (List (String × ρ))
  rejectCallbackCapabilityGraph : ρ → Option RuntimeTypePlan → Except String Unit
  encodeUntypedWireJson : ρ → Except String Tree
  encodeRuntimeEnvelope : ρ → RuntimeTypePlan → String → Except String (List UInt8)

namespace DbCollectionMetadata

variable (binding : DbCollectionMetadata)

/-- The paths of the immutable files below a collection's fields, sorted and without
duplicates. -/
def immutableFilePaths : List (List String) :=
  ((binding.fields.entries.flatMap fun entry =>
    collectImmutableFilePaths [entry.1] entry.2.typeRef).mergeSort (· ≤ ·)).dedup

def hasImmutableFileCascade : Bool := !binding.immutableFilePaths.isEmpty

def hasEncryptedFields : Bool := binding.fields.values.any fun field => field.storage = .encrypted

def fieldPathPolicy : DbFieldPathPolicy := ⟨binding.keyField⟩

def isDeclared (top : String) : Bool := (binding.fields.get? top).isSome

def keyTy : DbBoundaryValuePlan := .fromArtifactTypeRef binding.keyTypeRef

def fieldWriteProjectionPlanForPath (field : String) : Option DbBoundaryValuePlanRef :=
  fieldPlanForPathWith field binding.keyField (some binding.keyTy)
    (fun top => (binding.fields.get? top).map DbFieldMetadata.ty)
    DbBoundaryValuePlan.writeProjectionRef

def fieldResultDecodePlanForPath (field : String) : Option DbBoundaryValuePlanRef :=
  fieldPlanForPathWith field binding.keyField (some binding.keyTy)
    (fun top => (binding.fields.get? top).map DbFieldMetadata.ty)
    DbBoundaryValuePlan.resultDecodeRef

def collectionItemPlanForPath (field : String) : Option DbBoundaryValuePlanRef :=
  (binding.fieldWriteProjectionPlanForPath field).map fun plan =>
    match plan.projection with
    | .array item => item
    | _ => plan

def resolveBusinessFieldPath (field : String) : Except ServiceDbError DbResolvedFieldPath :=
  (binding.fieldPathPolicy.resolveBusinessFieldPath field binding.typeName
    binding.isDeclared).mapError .path

def validateMutableField (field : String) : Except ServiceDbError Unit := do
  let _ ← (binding.fieldPathPolicy.resolveMutableBusinessFieldPath field binding.typeName
    binding.isDeclared).mapError .path
  .ok ()

end DbCollectionMetadata

/-! ## Values -/

def dbDecodeError (message : String) : ServiceDbError := .decode message

section Values

variable {ρ : Type} (codecs : DbCodecs ρ)

def bsonDateValue : BsonValue → Except ServiceDbError BsonValue
  | .dateTime millis => .ok (.dateTime millis)
  | .string value => do
    let millis ← (codecs.parseRfc3339Millis value).mapError dbDecodeError
    .ok (.dateTime millis)
  | other =>
    .error (dbDecodeError ("Date db field requires RFC3339 string, got " ++ bsonKind other))

def recoverableEnvelopeBsonFromBusinessValue (value : BsonValue) (plan : DbBoundaryValuePlanRef) :
    Except ServiceDbError BsonValue := do
  let json ← (codecs.fromBson value).mapError .bson
  let bytes ← (codecs.encodeEnvelope plan.recoverableExpected json).mapError fun error =>
    dbDecodeError ("recoverable-envelope DB value encode failed: " ++ error)
  .ok (.binary bytes)

mutual

def coerceBsonValueForType (value : BsonValue) (plan : Option DbBoundaryValuePlanRef) :
    Except ServiceDbError BsonValue := do
  validateDbBusinessBsonValue value
  match plan with
  | none => .ok value
  | some plan =>
    match plan.projection with
    | .recoverableEnvelope => recoverableEnvelopeBsonFromBusinessValue codecs value plan
    | .date => if value.isNull then .ok value else bsonDateValue codecs value
    | .record projection =>
      match value with
      | .document fields => do .ok (.document (← coerceBsonFields fields projection))
      | value => .ok value
    | .array item =>
      match value with
      | .array items => do .ok (.array (← coerceBsonItems items item))
      | value => .ok value
    | .scalar => .ok value

def coerceBsonFields (fields : List (String × BsonValue)) (projection : DbRecordProjection) :
    Except ServiceDbError (List (String × BsonValue)) :=
  match fields with
  | [] => .ok []
  | (name, value) :: rest => do
    let value ← coerceBsonValueForType value (projection.field name)
    .ok ((name, value) :: (← coerceBsonFields rest projection))

def coerceBsonItems (items : List BsonValue) (plan : DbBoundaryValuePlanRef) :
    Except ServiceDbError (List BsonValue) :=
  match items with
  | [] => .ok []
  | item :: rest => do
    let item ← coerceBsonValueForType item (some plan)
    .ok (item :: (← coerceBsonItems rest plan))

end

def bsonFromBusinessValue (value : Tree) (plan : Option DbBoundaryValuePlanRef) :
    Except ServiceDbError BsonValue := do
  coerceBsonValueForType codecs (← toBson value) plan

/-- Runtime values take the same way once they are JSON; only the envelope is made
from the runtime value itself. -/
def bsonFromRuntimeBusinessValue (value : ρ) (plan : Option DbBoundaryValuePlanRef)
    (fieldPath : String) : Except ServiceDbError BsonValue := do
  (codecs.rejectCallbackCapabilityGraph value
    (plan.map DbBoundaryValuePlanRef.recoverableExpected)).mapError fun error =>
      dbDecodeError ("DB value rejects request-scoped callback capability: " ++ error)
  match plan.map DbBoundaryValuePlanRef.projection, plan with
  | some .recoverableEnvelope, some plan => do
    let bytes ← (codecs.encodeRuntimeEnvelope value plan.recoverableExpected fieldPath).mapError
      fun error => dbDecodeError ("recoverable-envelope DB value encode failed: " ++ error)
    .ok (.binary bytes)
  | _, _ => do
    let json ← (codecs.encodeUntypedWireJson value).mapError fun error =>
      dbDecodeError ("schema-projectable DB value encode failed: " ++ error)
    bsonFromBusinessValue codecs json plan

mutual

def recoverableExpectedTypeAcceptsNull : RuntimeTypePlan → Bool
  | .mk _ _ node => recoverableExpectedNodeAcceptsNull node

def recoverableExpectedNodeAcceptsNull : RuntimeTypeNode → Bool
  | .null => true
  | .nullable _ => true
  | .union types => anyAcceptsNull types
  | .alias target => recoverableExpectedTypeAcceptsNull target
  | _ => false

def anyAcceptsNull : List RuntimeTypePlan → Bool
  | [] => false
  | plan :: rest => recoverableExpectedTypeAcceptsNull plan || anyAcceptsNull rest

end

def businessValueFromRecoverableEnvelopeBson (value : BsonValue) (plan : DbBoundaryValuePlanRef) :
    Except ServiceDbError Tree :=
  match value with
  | .binary bytes =>
    (codecs.decodeEnvelope plan.recoverableExpected bytes).mapError fun error =>
      dbDecodeError ("recoverable-envelope DB field decode failed: " ++ error)
  | value =>
    if value.isNull && recoverableExpectedTypeAcceptsNull plan.recoverableExpected then .ok .null
    else
      .error (dbDecodeError ("recoverable-envelope DB field stored non-binary " ++ bsonKind value))

def businessDateValue : BsonValue → Except ServiceDbError Tree
  | .dateTime millis => do
    .ok (.string (← (codecs.formatEpochMillis millis).mapError dbDecodeError))
  | .string value => do
    let millis ← (codecs.parseRfc3339Millis value).mapError dbDecodeError
    .ok (.string (← (codecs.formatEpochMillis millis).mapError dbDecodeError))
  | other => .error (dbDecodeError ("Mongo Date field stored non-date " ++ bsonKind other))

mutual

def businessValueFromBson (value : BsonValue) (plan : Option DbBoundaryValuePlanRef) :
    Except ServiceDbError Tree := do
  validateDbBusinessBsonValue value
  match plan with
  | none => (codecs.fromBson value).mapError .bson
  | some plan =>
    match plan.projection with
    | .recoverableEnvelope => businessValueFromRecoverableEnvelopeBson codecs value plan
    | .date => if value.isNull then .ok .null else businessDateValue codecs value
    | .record projection =>
      match value with
      | .document fields => do .ok (.object (← businessFieldsFromBson fields projection))
      | value => (codecs.fromBson value).mapError .bson
    | .array item =>
      match value with
      | .array items => do .ok (.array (← businessItemsFromBson items item))
      | value => (codecs.fromBson value).mapError .bson
    | .scalar => (codecs.fromBson value).mapError .bson

def businessFieldsFromBson (fields : List (String × BsonValue)) (projection : DbRecordProjection) :
    Except ServiceDbError (List (String × Tree)) :=
  match fields with
  | [] => .ok []
  | (name, value) :: rest => do
    let value ← businessValueFromBson value (projection.field name)
    .ok ((name, value) :: (← businessFieldsFromBson rest projection))

def businessItemsFromBson (items : List BsonValue) (plan : DbBoundaryValuePlanRef) :
    Except ServiceDbError (List Tree) :=
  match items with
  | [] => .ok []
  | item :: rest => do
    let item ← businessValueFromBson item (some plan)
    .ok (item :: (← businessItemsFromBson rest plan))

end

end Values

/-! ## Documents -/

namespace DbCollectionMetadata

variable {ρ : Type} (codecs : DbCodecs ρ) (binding : DbCollectionMetadata)

def encryptedContextFromKeyBson (key : BsonValue) :
    Except ServiceDbError (Option EncryptedRecordContext) :=
  if binding.hasEncryptedFields then
    match key with
    | .string recordId => .ok (some ⟨recordId⟩)
    | _ => .error (dbDecodeError "encrypted DB object key must be a string")
  else .ok none

def encodeFieldStorage (fieldName : String) (context : Option EncryptedRecordContext)
    (plaintext : BsonValue) : Except ServiceDbError BsonValue :=
  match binding.fields.get? fieldName with
  | none => .ok plaintext
  | some field =>
    match field.storage, plaintext, context with
    | .identity, _, _ => .ok plaintext
    | .encrypted, .string plaintext, some context =>
      (codecs.encryptString fieldName context plaintext).mapError fun _ =>
        dbDecodeError "encrypted DB field encode failed"
    | _, _, _ => .error (dbDecodeError "encrypted DB field encode failed")

def decodeFieldStorage (fieldName : String) (context : Option EncryptedRecordContext)
    (stored : BsonValue) : Except ServiceDbError BsonValue :=
  match binding.fields.get? fieldName with
  | none => .ok stored
  | some field =>
    match field.storage, context with
    | .identity, _ => .ok stored
    | .encrypted, some context => do
      .ok (.string (← (codecs.decryptString fieldName context stored).mapError fun _ =>
        dbDecodeError "encrypted DB field decode failed"))
    | .encrypted, none => .error (dbDecodeError "encrypted DB field decode failed")

/-- One field of a document, stored under its name. -/
def storeField (context : Option EncryptedRecordContext) (document : MongoDocument)
    (field : String) (plaintext : Except ServiceDbError BsonValue) :
    Except ServiceDbError MongoDocument := do
  (validateDbBusinessFieldName field).mapError .path
  let stored ← binding.encodeFieldStorage codecs field context (← plaintext)
  .ok (document.insert field stored)

def documentFromBusinessObjectWithKey (object : List (String × Tree)) (keyBson : BsonValue)
    (context : Option EncryptedRecordContext) : Except ServiceDbError MongoDocument :=
  object.foldlM (fun document field =>
    if field.1 = mongoIdField then .ok document
    else binding.storeField codecs context document field.1
      (bsonFromBusinessValue codecs field.2 (binding.fieldWriteProjectionPlanForPath field.1)))
    ((∅ : MongoDocument).insert mongoIdField keyBson)

def keyWriteProjectionPlan : Option DbBoundaryValuePlanRef := some binding.keyTy.writeProjectionRef

def keyResultDecodePlan : Option DbBoundaryValuePlanRef := some binding.keyTy.resultDecodeRef

/-- The business object of a stored document, the runtime's own fields left out. -/
def businessObjectFromStoredDocument (document : List (String × BsonValue))
    (context : Option EncryptedRecordContext) : Except ServiceDbError (List (String × Tree)) :=
  match document with
  | [] => .ok []
  | (field, value) :: rest =>
    if isReservedDbBusinessMetadataName field then
      businessObjectFromStoredDocument rest context
    else do
      let plaintext ← binding.decodeFieldStorage codecs field context value
      let value ← businessValueFromBson codecs plaintext
        (binding.fieldResultDecodePlanForPath field)
      .ok ((field, value) :: (← businessObjectFromStoredDocument rest context))

def businessValueFromDocument (document : MongoDocument) : Except ServiceDbError Tree :=
  match document.get? mongoIdField with
  | none => .error (dbDecodeError "db document missing _id")
  | some key => do
    let context ← binding.encryptedContextFromKeyBson key
    let object ← binding.businessObjectFromStoredDocument codecs
      (document.erase mongoIdField).entries context
    let key ← businessValueFromBson codecs key binding.keyResultDecodePlan
    .ok (.object (object.filter (fun field => field.1 ≠ binding.keyField) ++
      [(binding.keyField, key)]))

def asObject : Tree → Option (List (String × Tree))
  | .object fields => some fields
  | _ => none

/-- The document of a created object, with the value it reads back as. -/
def documentFromBusinessValue (value : Value) : Except ServiceDbError (MongoDocument × Tree) :=
  match asObject value.tree with
  | none => .error (dbDecodeError "db.create value must be an object")
  | some object => do
    validateDbBusinessJsonObject object
    match object.lookup binding.keyField with
    | none => .error (dbDecodeError ("db value missing key field " ++ binding.keyField))
    | some key => do
      let stored := object.filter fun field => field.1 ≠ binding.keyField
      let keyBson ← bsonFromBusinessValue codecs key binding.keyWriteProjectionPlan
      let context ← binding.encryptedContextFromKeyBson keyBson
      let document ← binding.documentFromBusinessObjectWithKey codecs stored keyBson context
      .ok (document, ← binding.businessValueFromDocument codecs document)

/-- The key of a document that may replace another: the one in the value, which must be
the selected one if a key was selected, or else the selected one. -/
def replacementKey (bodyKey : Option (Except ServiceDbError BsonValue))
    (expectedKey : Option BsonValue) : Except ServiceDbError BsonValue :=
  match bodyKey, expectedKey with
  | some bodyKey, expectedKey => do
    let key ← bodyKey
    if expectedKey.any fun expected => expected != key then
      .error (dbDecodeError
        ("db replace value key field " ++ binding.keyField ++ " must match selected object"))
    else .ok key
  | none, some expected => .ok expected
  | none, none => .error (dbDecodeError ("db value missing key field " ++ binding.keyField))

def replacementContext (encryptedContext : Option EncryptedRecordContext) (keyBson : BsonValue) :
    Except ServiceDbError (Option EncryptedRecordContext) :=
  match encryptedContext with
  | some context => .ok (some context)
  | none => binding.encryptedContextFromKeyBson keyBson

def replacementDocumentFromBusinessValue (value : Value) (expectedKey : Option BsonValue)
    (encryptedContext : Option EncryptedRecordContext) : Except ServiceDbError MongoDocument :=
  match asObject value.tree with
  | none => .error (dbDecodeError "db replace value must be an object")
  | some object => do
    validateDbBusinessJsonObject object
    let object := object.filter fun field => field.1 ≠ mongoIdField
    let bodyKey := (object.lookup binding.keyField).map fun key =>
      bsonFromBusinessValue codecs key binding.keyWriteProjectionPlan
    let keyBson ← binding.replacementKey bodyKey expectedKey
    let context ← binding.replacementContext encryptedContext keyBson
    binding.documentFromBusinessObjectWithKey codecs
      (object.filter fun field => field.1 ≠ binding.keyField) keyBson context

/-- The document of a runtime object, created or replacing. -/
def runtimeDocumentFromBusinessValue (value : ρ) (expectedKey : Option BsonValue)
    (encryptedContext : Option EncryptedRecordContext) : Except ServiceDbError MongoDocument := do
  let fields ← (codecs.runtimeObjectFields value).mapError dbDecodeError
  let bodyKey := (fields.lookup binding.keyField).map fun key =>
    bsonFromRuntimeBusinessValue codecs key binding.keyWriteProjectionPlan binding.keyField
  let keyBson ← binding.replacementKey bodyKey expectedKey
  let context ← binding.replacementContext encryptedContext keyBson
  fields.foldlM (fun document field =>
    if field.1 = binding.keyField then .ok document
    else binding.storeField codecs context document field.1
      (bsonFromRuntimeBusinessValue codecs field.2
        (binding.fieldWriteProjectionPlanForPath field.1) field.1))
    ((∅ : MongoDocument).insert mongoIdField keyBson)

end DbCollectionMetadata

/-! ## Changes -/

inductive ServiceDbChangeOp where
  | set (field : String) (value : Value)
  | inc (field : String) (value : Value)
  | unset (field : String)
  | addToSet (field : String) (value : Value)
  | pull (field : String) (value : Value)

def ServiceDbChangeOp.field : ServiceDbChangeOp → String
  | set field _ | inc field _ | unset field | addToSet field _ | pull field _ => field

structure ServiceDbChange where
  ops : List ServiceDbChangeOp

def ServiceDbChange.touchedFields (change : ServiceDbChange) : List String :=
  change.ops.map ServiceDbChangeOp.field

/-- A change with runtime values among what it sets. -/
structure DbRuntimeChange (ρ : Type) where
  wireChange : ServiceDbChange
  setOps : List (String × ρ)

/-- `Document::insert`. -/
def documentInsert (path : String) (value : BsonValue) :
    List (String × BsonValue) → List (String × BsonValue)
  | [] => [(path, value)]
  | (other, old) :: rest =>
    if other = path then (path, value) :: rest else (other, old) :: documentInsert path value rest

/-- A Mongo update, operator by operator. -/
structure UpdateDocument where
  set : List (String × BsonValue) := []
  inc : List (String × BsonValue) := []
  unset : List (String × BsonValue) := []
  addToSet : List (String × BsonValue) := []
  pull : List (String × BsonValue) := []

namespace UpdateDocument

def isEmpty (update : UpdateDocument) : Bool :=
  update.set.isEmpty && update.inc.isEmpty && update.unset.isEmpty && update.addToSet.isEmpty &&
    update.pull.isEmpty

/-- What the server is asked to do. -/
def assignments (update : UpdateDocument) : List (Assignment BsonValue) :=
  update.set.map (fun entry => ⟨.set, entry.1, entry.2⟩) ++
    update.inc.map (fun entry => ⟨.inc, entry.1, entry.2⟩) ++
    update.unset.map (fun entry => ⟨.unset, entry.1, entry.2⟩) ++
    update.addToSet.map (fun entry => ⟨.addToSet, entry.1, entry.2⟩) ++
    update.pull.map (fun entry => ⟨.pull, entry.1, entry.2⟩)

end UpdateDocument

inductive DbFieldUse where
  | projection
  | predicate
  | order
  | wholeSet
  | partialChange
  | index
deriving DecidableEq

def DbFieldUse.label : DbFieldUse → String
  | projection => "nested projection"
  | predicate => "predicate"
  | order => "order"
  | wholeSet => "whole-field set"
  | partialChange => "partial change"
  | index => "index"

namespace DbCollectionMetadata

variable {ρ : Type} (codecs : DbCodecs ρ) (binding : DbCollectionMetadata)

def validateStorageFieldUse (resolved : DbResolvedFieldPath) (use : DbFieldUse)
    (context : Option EncryptedRecordContext) : Except ServiceDbError Unit :=
  match binding.fields.get? resolved.topLevel with
  | none => .ok ()
  | some field =>
    let isTopLevel := resolved.businessPath = resolved.topLevel ||
      resolved.mongoPath = resolved.topLevel
    let operation := if use = .wholeSet && !isTopLevel then "partial set" else use.label
    if field.storage = .encrypted then
      if (use = .projection && isTopLevel) || (use = .wholeSet && isTopLevel && context.isSome) then
        .ok ()
      else
        .error (dbDecodeError
          ("encrypted DB field " ++ resolved.topLevel ++ " cannot be used for " ++ operation))
    else if !field.ty.isRecoverableEnvelopeLane then .ok ()
    else if use = .projection && isTopLevel then .ok ()
    else if use = .wholeSet && isTopLevel then .ok ()
    else
      .error (dbDecodeError ("recoverable-envelope DB field " ++ resolved.topLevel ++
        " is opaque; " ++ operation ++ " on " ++ resolved.businessPath ++
        " is not supported in P5; only full field read/write is supported"))

def validatedChange (change : ServiceDbChange) : Except ServiceDbError ServiceDbChange := do
  change.touchedFields.forM binding.validateMutableField
  .ok change

/-- One operation of a change, added to the update. -/
def changeOp (context : Option EncryptedRecordContext) (update : UpdateDocument) :
    ServiceDbChangeOp → Except ServiceDbError UpdateDocument
  | .set field value => do
    let resolved ← binding.resolveBusinessFieldPath field
    binding.validateStorageFieldUse resolved .wholeSet context
    let plaintext ← bsonFromBusinessValue codecs value.tree
      (binding.fieldWriteProjectionPlanForPath field)
    let stored ← binding.encodeFieldStorage codecs resolved.topLevel context plaintext
    .ok { update with set := documentInsert field stored update.set }
  | .inc field value => do
    let resolved ← binding.resolveBusinessFieldPath field
    binding.validateStorageFieldUse resolved .partialChange none
    let value ← toBson value.tree
    .ok { update with inc := documentInsert field value update.inc }
  | .unset field => do
    let resolved ← binding.resolveBusinessFieldPath field
    binding.validateStorageFieldUse resolved .partialChange none
    .ok { update with unset := documentInsert field (.int32 1) update.unset }
  | .addToSet field value => do
    let resolved ← binding.resolveBusinessFieldPath field
    binding.validateStorageFieldUse resolved .partialChange none
    let value ← bsonFromBusinessValue codecs value.tree (binding.collectionItemPlanForPath field)
    .ok { update with addToSet := documentInsert field value update.addToSet }
  | .pull field value => do
    let resolved ← binding.resolveBusinessFieldPath field
    binding.validateStorageFieldUse resolved .partialChange none
    let value ← bsonFromBusinessValue codecs value.tree (binding.collectionItemPlanForPath field)
    .ok { update with pull := documentInsert field value update.pull }

def changeUpdateDocument (change : ServiceDbChange) (context : Option EncryptedRecordContext) :
    Except ServiceDbError UpdateDocument :=
  change.ops.foldlM (binding.changeOp codecs context) {}

def validatedChangeUpdateWithContext (change : ServiceDbChange)
    (context : Option EncryptedRecordContext) : Except ServiceDbError UpdateDocument := do
  let change ← binding.validatedChange change
  binding.changeUpdateDocument codecs change context

/-- One runtime value to set. Its path is resolved, but not held to be mutable. -/
def runtimeSetOp (context : Option EncryptedRecordContext) (update : UpdateDocument)
    (op : String × ρ) : Except ServiceDbError UpdateDocument := do
  let resolved ← binding.resolveBusinessFieldPath op.1
  binding.validateStorageFieldUse resolved .wholeSet context
  let plaintext ← bsonFromRuntimeBusinessValue codecs op.2
    (binding.fieldWriteProjectionPlanForPath op.1) op.1
  let stored ← binding.encodeFieldStorage codecs resolved.topLevel context plaintext
  .ok { update with set := documentInsert op.1 stored update.set }

def runtimeChangeUpdateDocument (change : DbRuntimeChange ρ)
    (context : Option EncryptedRecordContext) : Except ServiceDbError UpdateDocument := do
  let update ← binding.validatedChangeUpdateWithContext codecs change.wireChange context
  change.setOps.foldlM (binding.runtimeSetOp codecs context) update

end DbCollectionMetadata

end Skiff.ServiceDb
