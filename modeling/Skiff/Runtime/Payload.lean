import Skiff.Runtime.RequestHeap
import Skiff.Runtime.TypePlan

/-!
# Runtime payloads

The binary payload codec of `runtime/boundary/src/binary.rs`: the encoder walks a value
and the heap under it, the decoder rebuilds the value in another heap. Both follow the
plan until it says `Json`; from there on the bytes carry their own tags.

The encoder writes into a buffer that keeps its contents when an attempt fails; a union
cuts the buffer back before it tries the next branch. Recursion is bounded by fuel.
Running out is kept apart from an error, so that a union does not take it for a branch
that failed.
-/

namespace Skiff.Runtime

open Wire Decode Mut

/-- Why a run ended without a result. -/
inductive Stop where
  | outOfFuel
  | failed (error : RuntimeError)
deriving DecidableEq

def magic : List UInt8 := [0x53, 0x4B, 0x50, 0x56]
def version : UInt8 := 2

def tagNull : UInt8 := 0
def tagBoolFalse : UInt8 := 1
def tagBoolTrue : UInt8 := 2
def tagNumber : UInt8 := 3
def tagString : UInt8 := 4
def tagBytes : UInt8 := 5
def tagArray : UInt8 := 6
def tagObject : UInt8 := 7
def tagMap : UInt8 := 8
def tagInterface : UInt8 := 9
def tagDate : UInt8 := 10

/-! ## Checks that both sides make -/

def reservedKey : String := "__skiffType"

def rejectReservedLegacyMetadataKey (key : String) : Except Stop Unit :=
  if key = reservedKey then
    .error (.failed (.decode s!"reserved Skiff metadata field {key} is not allowed at boundary"))
  else .ok ()

def minEpochMillis : Int := -62167219200000
def maxEpochMillis : Int := 253402300799999

def isValidEpochMillis (millis : BitVec 64) : Bool :=
  minEpochMillis ≤ millis.toInt && millis.toInt ≤ maxEpochMillis

def validateEpochMillis (millis : BitVec 64) (target : String) : Except Stop Unit :=
  if isValidEpochMillis millis then .ok ()
  else .error (.failed (.decodeTarget target
    s!"{target} Date is outside RFC3339 year range 0000..9999"))

/-- `f64::is_finite`: the exponent bits are not all ones. -/
def isFinite (bits : BitVec 64) : Bool := bits.toNat / 2 ^ 52 % 2 ^ 11 ≠ 2047

def mapKeyCheck (keyType : RuntimeTypePlan) : Except Stop Unit :=
  (runtimeMapKeyShape keyType).mapError fun message => .failed (.decode message)

def interfaceError (operation : String) (expected : RuntimeTypePlan) (value : String) : Stop :=
  .failed (.recoverable operation expected.label value)

def decodeError (message : String) : Stop := .failed (.decode message)

/-! ## The encoder -/

abbrev Writer := Encode Stop Unit

def writeTag (tag : UInt8) : Writer := .write [tag]

def writeLen (length : Nat) : Writer :=
  if length < 2 ^ 32 then .write (leBytes 4 length)
  else .fail (decodeError "runtime payload length exceeds u32")

def writeBytesRaw (bytes : List UInt8) : Writer := do
  writeLen bytes.length
  Encode.write bytes

def writeStringRaw (text : String) : Writer := writeBytesRaw (utf8 text)

def writeString (text : String) : Writer := do
  writeTag tagString
  writeStringRaw text

/-- The eight bytes of a number or a date. -/
def write64 (bits : BitVec 64) : Writer := .write (leBytes 8 bits.toNat)

def writeNumber (bits : BitVec 64) : Writer := do
  writeTag tagNumber
  write64 bits

def writeDate (millis : BitVec 64) : Writer := do
  ofExcept (validateEpochMillis millis "runtime payload Date")
  writeTag tagDate
  write64 millis

def writeBool : Bool → Writer
  | false => writeTag tagBoolFalse
  | true => writeTag tagBoolTrue

/-! The leaves of a typed value. -/

def encodeLiteral (literal : String) : RuntimeValue → Writer
  | .string actual =>
    if actual = literal then writeString actual
    else .fail (decodeError s!"expected runtime literal string {literal.quote}")
  | _ => .fail (decodeError s!"expected runtime literal string {literal.quote}")

def encodeDate : RuntimeValue → Writer
  | .date millis => writeDate millis
  | _ => .fail (decodeError "expected runtime Date")

def encodeString : RuntimeValue → Writer
  | .string text => writeString text
  | _ => .fail (decodeError "expected runtime string")

def encodeBool : RuntimeValue → Writer
  | .bool value => writeBool value
  | _ => .fail (decodeError "expected runtime bool")

def encodeNumber : RuntimeValue → Writer
  | .number bits =>
    if isFinite bits then writeNumber bits else .fail (decodeError "expected runtime number")
  | _ => .fail (decodeError "expected runtime number")

def encodeNull : RuntimeValue → Writer
  | .null => writeTag tagNull
  | _ => .fail (decodeError "expected runtime null")

/-- A key in a typed map is a plain string. -/
def writeRuntimeKey (keyType : RuntimeTypePlan) (key : String) : Writer := do
  ofExcept (mapKeyCheck keyType)
  ofExcept (rejectReservedLegacyMetadataKey key)
  writeStringRaw key

/-- A key in an untyped map is preceded by the tag of its form. -/
def writeRuntimeKeyAny (key : String) : Writer := do
  ofExcept (rejectReservedLegacyMetadataKey key)
  Encode.write [0]
  writeStringRaw key

section Encoder

variable (heap : RequestHeap)

def getNode (handle : HeapHandle) : Except Stop HeapNode := (heap.get handle).mapError .failed

/-- The node behind a value that has to be a handle. -/
def nodeOf (value : RuntimeValue) (expected : String) : Except Stop HeapNode :=
  match value with
  | .heap handle => getNode heap handle
  | _ => .error (decodeError expected)

/-- An accessor of `RuntimeValueGraph`: the node of one shape, or an error that names
the shape. -/
def shapeOf {α : Type} (project : HeapNode → Option α) (expected shape : String)
    (value : RuntimeValue) : Except Stop α := do
  match ← nodeOf heap value expected with
  | .interface carrier =>
    .error (decodeError s!"{expected}: {carrier.diagnosticLabel} is not a runtime {shape}")
  | node => (project node).elim (.error (decodeError expected)) .ok

def HeapNode.asBytes : HeapNode → Option (List UInt8)
  | .bytes content => some content
  | _ => none

def HeapNode.asArray : HeapNode → Option (List RuntimeValue)
  | .array items => some items
  | _ => none

def HeapNode.asMap : HeapNode → Option (OrdMap String RuntimeValue)
  | .map entries => some entries
  | _ => none

/-- `RuntimeRecordFieldSource`: objects and maps both have fields. -/
def HeapNode.asFields : HeapNode → Option (OrdMap String RuntimeValue)
  | .object fields => some fields
  | .map entries => some entries
  | _ => none

def bytesOf := shapeOf heap HeapNode.asBytes "expected runtime bytes" "bytes"
def arrayOf := shapeOf heap HeapNode.asArray "expected runtime array" "array"
def mapOf := shapeOf heap HeapNode.asMap "expected runtime map" "map"

def fieldsOf (value : RuntimeValue) (expected : RuntimeTypePlan) :
    Except Stop (OrdMap String RuntimeValue) := do
  match ← nodeOf heap value "expected runtime object" with
  | .interface carrier => .error (interfaceError "encode" expected carrier.diagnosticLabel)
  | node => (node.asFields).elim (.error (decodeError "expected runtime object")) .ok

/-- `interface_value`, where finding one is an error. -/
def rejectInterface (value : RuntimeValue) (expected : RuntimeTypePlan) : Except Stop Unit :=
  match value with
  | .heap handle => do
    match ← getNode heap handle with
    | .interface carrier => .error (interfaceError "encode" expected carrier.diagnosticLabel)
    | _ => .ok ()
  | _ => .ok ()

/-- Keys that the record does not declare. -/
def rejectExtraFields (fields : List RuntimeRecordFieldPlan) : List String → Except Stop Unit
  | [] => .ok ()
  | key :: rest => do
    rejectReservedLegacyMetadataKey key
    if key ∈ fields.map RuntimeRecordFieldPlan.name then rejectExtraFields fields rest
    else .error (decodeError s!"record field {key} is not declared by descriptor")

def requireFields (present : String → Bool) : List RuntimeRecordFieldPlan → Except Stop Unit
  | [] => .ok ()
  | field :: rest =>
    if field.required && !present field.name then
      .error (decodeError s!"record field {field.name} is required")
    else requireFields present rest

/-- The branches in order. A failed branch is cut off the buffer; the index of the one
that succeeded is inserted before its bytes. -/
def encodeBranches (encode : RuntimeTypePlan → Writer) :
    List RuntimeTypePlan → Nat → List String → Writer
  | [], _, errors => .fail (decodeError
      ("runtime payload union value did not match any branch: " ++ "; ".intercalate errors))
  | ty :: rest, index, errors => fun output =>
    match encode ty output with
    | (.ok (), written) => (.ok (), written.insertIdx output.length (UInt8.ofNat index))
    | (.error .outOfFuel, written) => (.error .outOfFuel, written)
    | (.error (.failed error), written) =>
      encodeBranches encode rest (index + 1) (errors ++ [error.toString])
        (written.take output.length)

def encodeEntries (writeKey : String → Writer) (encode : RuntimeValue → Writer)
    (entries : OrdMap String RuntimeValue) : Writer := do
  writeLen entries.size
  each (fun entry => do
    writeKey entry.1
    encode entry.2) entries.entries

/-- `encode_any`. -/
def encodeAny (expected : RuntimeTypePlan) : Nat → RuntimeValue → Writer
  | 0, _ => .fail .outOfFuel
  | _ + 1, .null => writeTag tagNull
  | _ + 1, .bool value => writeBool value
  | _ + 1, .number bits =>
    if isFinite bits then writeNumber bits
    else .fail (decodeError "cannot encode non-finite number")
  | _ + 1, .string text => writeString text
  | _ + 1, .date millis => writeDate millis
  | _ + 1, .actorRef actor => .fail (decodeError
      s!"actor ref {actor.actorTypeIdentity} cannot be encoded in runtime payload")
  | fuel + 1, .heap handle => do
    match ← ofExcept (getNode heap handle) with
    | .bytes bytes =>
      writeTag tagBytes
      writeBytesRaw bytes
    | .array items =>
      writeTag tagArray
      writeLen items.length
      each (encodeAny expected fuel) items
    | .object fields =>
      writeTag tagObject
      encodeEntries (fun key => do
        ofExcept (rejectReservedLegacyMetadataKey key)
        writeStringRaw key) (encodeAny expected fuel) fields
    | .map entries =>
      writeTag tagMap
      encodeEntries writeRuntimeKeyAny (encodeAny expected fuel) entries
    | .interface carrier => fail (interfaceError "encode" expected carrier.diagnosticLabel)
    | .exception _ => fail (decodeError
        "request-local exception cannot be encoded in a runtime payload")

/-- One field of a record, behind its name. -/
def encodeField (encode : RuntimeTypePlan → RuntimeValue → Writer)
    (source : OrdMap String RuntimeValue) (field : RuntimeRecordFieldPlan) : Writer := do
  writeStringRaw field.name
  match source.get? field.name with
  | some value => encode field.ty value
  | none => pure ()

def presentFields (source : OrdMap String RuntimeValue) (fields : List RuntimeRecordFieldPlan) :
    List RuntimeRecordFieldPlan :=
  fields.filter fun field => (source.get? field.name).isSome

/-- The fields of a record that are present, in the order of the plan. -/
def encodeFields (encode : RuntimeTypePlan → RuntimeValue → Writer)
    (source : OrdMap String RuntimeValue) (fields : List RuntimeRecordFieldPlan) : Writer := do
  writeLen (presentFields source fields).length
  each (encodeField encode source) (presentFields source fields)

/-- `encode_typed`. -/
def encodeTyped : Nat → RuntimeTypePlan → RuntimeValue → Writer
  | 0, _, _ => .fail .outOfFuel
  | fuel + 1, expected, value => do
    ofExcept (rejectInterface heap value expected)
    match boundaryTypeNode expected with
    | .nullable inner =>
      if value = .null then Encode.write [0]
      else do
        Encode.write [1]
        encodeTyped fuel inner value
    | .union types =>
      if 256 < types.length then
        fail (decodeError s!"runtime payload union has {types.length} branches; maximum is 256")
      else encodeBranches (fun ty => encodeTyped fuel ty value) types 0 []
    | .literalString literal => encodeLiteral literal value
    | .json => encodeAny heap expected fuel value
    | .jsonObject => encodeAny heap expected fuel value
    | .bytes => do
      let bytes ← ofExcept (bytesOf heap value)
      writeTag tagBytes
      writeBytesRaw bytes
    | .date => encodeDate value
    | .string => encodeString value
    | .bool => encodeBool value
    | .integer => encodeNumber value
    | .number => encodeNumber value
    | .null => encodeNull value
    | .stream _ => fail (.failed (.unsupported
        "runtime payload codec does not encode Stream handles"))
    | .array item => do
      let items ← ofExcept (arrayOf heap value)
      writeTag tagArray
      writeLen items.length
      each (encodeTyped fuel item) items
    | .map key item => do
      let entries ← ofExcept (mapOf heap value)
      writeTag tagMap
      encodeEntries (writeRuntimeKey key) (encodeTyped fuel item) entries
    | .record fields => do
      let source ← ofExcept (fieldsOf heap value expected)
      ofExcept (rejectExtraFields fields source.keys)
      writeTag tagObject
      encodeFields (encodeTyped fuel) source fields
      ofExcept (requireFields (fun name => (source.get? name).isSome) fields)
    | .unknown => fail (.failed (.invalidArtifact
        s!"unsupported runtime payload type descriptor {expected.label}"))

end Encoder

def encodePayloadPlanInner (heap : RequestHeap) (fuel : Nat) (value : RuntimeValue)
    (plan : RuntimeTypePlan) : Except Stop (List UInt8) :=
  let start := magic ++ [version]
  match encodeTyped heap fuel plan value start with
  | (.ok (), output) => .ok output
  | (.error stop, _) => .error stop

/-! ## The decoder -/

abbrev Reader := Decode Stop RequestHeap

def ended : Stop := decodeError "runtime payload ended early"

def readU8 : Reader UInt8 := .readByte ended

def readExact (length : Nat) : Reader (List UInt8) := .readExact ended length

def expectTag (expected : UInt8) : Reader Unit := do
  let actual ← readU8
  if actual = expected then pure ()
  else fail (decodeError s!"runtime payload expected tag {expected}, got {actual}")

def readLen : Reader Nat := do
  let bytes ← readExact 4
  return leNat bytes

def readBytesRaw : Reader (List UInt8) := do
  let length ← readLen
  readExact length

def readStringRaw : Reader String := do
  let bytes ← readBytesRaw
  match fromUtf8 bytes with
  | some text => pure text
  | none => fail (decodeError "runtime payload string is not UTF-8")

def read64 : Reader (BitVec 64) := do
  let bytes ← readExact 8
  return BitVec.ofNat 64 (leNat bytes)

def decodeStringValue : Reader RuntimeValue := do
  expectTag tagString
  let text ← readStringRaw
  return .string text

def decodeNumberValue : Reader RuntimeValue := do
  expectTag tagNumber
  let bits ← read64
  if isFinite bits then pure (.number bits)
  else fail (decodeError "runtime payload number must be finite")

def decodeDatePayload : Reader RuntimeValue := do
  let millis ← read64
  ofExcept (validateEpochMillis millis "runtime payload Date")
  return .date millis

def decodeDateValue : Reader RuntimeValue := do
  expectTag tagDate
  decodeDatePayload

def readRuntimeKey (keyType : RuntimeTypePlan) : Reader String := do
  let key ← readStringRaw
  ofExcept (rejectReservedLegacyMetadataKey key)
  ofExcept (mapKeyCheck keyType)
  return key

def readRuntimeKeyAny : Reader String := do
  let tag ← readU8
  if tag = 0 then do
    let key ← readStringRaw
    ofExcept (rejectReservedLegacyMetadataKey key)
    return key
  else fail (decodeError s!"unknown runtime payload map key tag {tag}")

/-- Allocation of a node, as a reading step. -/
def alloc (node : HeapNode) : Reader RuntimeValue := fun input heap =>
  match heap.allocNode node with
  | .ok (handle, next) => .ok (.heap handle, input, next)
  | .error error => .error (.failed error)

/-- The loop of maps and objects. -/
def decodeEntries (readKey : Reader String) (decode : Reader RuntimeValue) :
    Reader (OrdMap String RuntimeValue) := do
  let length ← readLen
  fold (fun entries => do
    let key ← readKey
    let value ← decode
    return entries.insert key value) length ∅

/-- `decode_any`. -/
def decodeAny (expected : RuntimeTypePlan) : Nat → Reader RuntimeValue
  | 0 => .fail .outOfFuel
  | fuel + 1 => do
    let tag ← readU8
    if tag = tagNull then pure .null
    else if tag = tagBoolFalse then pure (.bool false)
    else if tag = tagBoolTrue then pure (.bool true)
    else if tag = tagNumber then do
      let bits ← read64
      return .number bits
    else if tag = tagString then do
      let text ← readStringRaw
      return .string text
    else if tag = tagDate then decodeDatePayload
    else if tag = tagBytes then do
      let bytes ← readBytesRaw
      alloc (.bytes bytes)
    else if tag = tagArray then do
      let length ← readLen
      let items ← times (decodeAny expected fuel) length
      alloc (.array items)
    else if tag = tagObject then do
      let fields ← decodeEntries (do
        let key ← readStringRaw
        ofExcept (rejectReservedLegacyMetadataKey key)
        return key) (decodeAny expected fuel)
      alloc (.object fields)
    else if tag = tagMap then do
      let entries ← decodeEntries readRuntimeKeyAny (decodeAny expected fuel)
      alloc (.map entries)
    else if tag = tagInterface then fail (interfaceError "decode" expected "any I value")
    else fail (decodeError s!"unknown runtime payload tag {tag}")

/-- The fields of a plan by name; of two with one name the later one stands. -/
def fieldsByName (fields : List RuntimeRecordFieldPlan) : OrdMap String RuntimeRecordFieldPlan :=
  .ofList (fields.map fun field => (field.name, field))

def decodeField (decode : RuntimeTypePlan → Reader RuntimeValue)
    (fields : List RuntimeRecordFieldPlan) (object : OrdMap String RuntimeValue) :
    Reader (OrdMap String RuntimeValue) := do
  let name ← readStringRaw
  ofExcept (rejectReservedLegacyMetadataKey name)
  match (fieldsByName fields).get? name with
  | none => fail (decodeError
      s!"runtime payload record field {name} is not in descriptor")
  | some field => do
    let value ← decode field.ty
    return object.insert field.name value

def decodeFields (decode : RuntimeTypePlan → Reader RuntimeValue)
    (fields : List RuntimeRecordFieldPlan) : Reader (OrdMap String RuntimeValue) := do
  let length ← readLen
  fold (decodeField decode fields) length ∅

/-- `decode_typed`. -/
def decodeTyped : Nat → RuntimeTypePlan → Reader RuntimeValue
  | 0, _ => .fail .outOfFuel
  | fuel + 1, expected =>
    match boundaryTypeNode expected with
    | .nullable inner => do
      let tag ← readU8
      if tag = 0 then pure .null
      else if tag = 1 then decodeTyped fuel inner
      else fail (decodeError s!"runtime payload nullable discriminant must be 0 or 1, got {tag}")
    | .union types => do
      let branch ← readU8
      match types[branch.toNat]? with
      | none => fail (decodeError
          s!"runtime payload union branch {branch.toNat} is out of range")
      | some ty => decodeTyped fuel ty
    | .literalString literal => do
      let value ← decodeStringValue
      if value = .string literal then pure value
      else fail (decodeError s!"expected runtime literal string {literal.quote}")
    | .json => decodeAny expected fuel
    | .jsonObject => decodeAny expected fuel
    | .bytes => do
      expectTag tagBytes
      let bytes ← readBytesRaw
      alloc (.bytes bytes)
    | .date => decodeDateValue
    | .string => decodeStringValue
    | .bool => do
      let tag ← readU8
      if tag = tagBoolFalse then pure (.bool false)
      else if tag = tagBoolTrue then pure (.bool true)
      else fail (decodeError s!"expected runtime bool tag, got {tag}")
    | .integer => decodeNumberValue
    | .number => decodeNumberValue
    | .null => do
      expectTag tagNull
      return .null
    | .stream _ => fail (.failed (.unsupported
        "runtime payload codec does not decode Stream handles"))
    | .array item => do
      expectTag tagArray
      let length ← readLen
      let items ← times (decodeTyped fuel item) length
      alloc (.array items)
    | .map key item => do
      expectTag tagMap
      let entries ← decodeEntries (readRuntimeKey key) (decodeTyped fuel item)
      alloc (.map entries)
    | .record fields => do
      expectTag tagObject
      let object ← decodeFields (decodeTyped fuel) fields
      ofExcept (requireFields object.contains fields)
      alloc (.object object)
    | .unknown => fail (.failed (.invalidArtifact
        s!"unsupported runtime payload type descriptor {expected.label}"))

def decodePayloadPlanInner (fuel : Nat) (bytes : List UInt8) (plan : RuntimeTypePlan)
    (heap : RequestHeap) : Except Stop (RuntimeValue × RequestHeap) :=
  if bytes.length < 5 ∨ bytes.take 4 ≠ magic then
    .error (decodeError "runtime payload bytes missing SKPV magic")
  else if bytes[4]? ≠ some version then
    .error (decodeError s!"unsupported runtime payload version {bytes[4]?.getD 0}")
  else
    match decodeTyped fuel plan (bytes.drop 5) heap with
    | .error stop => .error stop
    | .ok (value, rest, next) =>
      if rest.length ≠ 0 then
        .error (decodeError s!"runtime payload has {rest.length} trailing byte(s)")
      else .ok (value, next)

/-! ## The entry points -/

/-- Errors of the codec say at which boundary they happened. -/
def attachPayloadBoundaryContext (boundary operation : String) : Stop → Stop
  | .outOfFuel => .outOfFuel
  | .failed error =>
    let message := s!"runtime payload {operation} failed at {boundary}: {error.toString}"
    match error with
    | .decode _ => .failed (.decode message)
    | .decodeTarget _ _ => .failed (.decode message)
    | .unsupported _ => .failed (.unsupported message)
    | other => .failed other

/-- `encode_payload_plan`; the boundary is its diagnostic label. -/
def encodePayloadPlan (fuel : Nat) (value : RuntimeValue) (plan : RuntimeTypePlan)
    (boundary : String) (heap : RequestHeap) : Except Stop (List UInt8) :=
  (encodePayloadPlanInner heap fuel value plan).mapError
    (attachPayloadBoundaryContext boundary "encode")

/-- `decode_payload_plan`, with the heap it leaves. -/
def decodePayloadPlan (fuel : Nat) (bytes : List UInt8) (plan : RuntimeTypePlan)
    (boundary : String) (heap : RequestHeap) : Except Stop (RuntimeValue × RequestHeap) :=
  (decodePayloadPlanInner fuel bytes plan heap).mapError
    (attachPayloadBoundaryContext boundary "decode")

end Skiff.Runtime
