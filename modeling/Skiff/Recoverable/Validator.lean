import Skiff.Recoverable.Encoder
import Skiff.Runtime.Payload

/-!
# The validator

`RecoverableValidator` counts the nodes, bounds the depth and looks at each node: its kind, its
code identity, its numbers and dates, and that no map has two keys with one form and no record two
fields with one name. An envelope is written only after it has passed, and returned by the decoder
only after it has passed.
-/

namespace Skiff.Recoverable

open Skiff.Runtime (isFinite)

def minDateEpochMillis : Int := -62167219200000
def maxDateEpochMillis : Int := 253402300799999

def recoverableNumberFromBits (path : String) (bits : BitVec 64) : Checked Unit :=
  if isFinite bits then .ok () else invalid path "recoverable number must be finite"

def validateRecoverableDate (path : String) (epochMillis : BitVec 64) : Checked Unit :=
  if minDateEpochMillis ≤ epochMillis.toInt ∧ epochMillis.toInt ≤ maxDateEpochMillis then .ok ()
  else invalid path "recoverable Date is outside RFC3339 year range 0000..9999"

def RecoverableState.kind {N : Type} : RecoverableState N → RecoverableValueKind
  | .null => .null
  | .bool _ => .bool
  | .number _ => .number
  | .string _ => .string
  | .bytes _ => .bytes
  | .date _ => .date
  | .array _ => .array
  | .map _ => .map
  | .record _ => .record
  | .nominalObject _ => .nominalObject
  | .interfaceValue _ => .interfaceValue
  | .nativeHandle _ => .nativeHandle

/-- The name that the source prints for a kind. -/
def RecoverableValueKind.name : RecoverableValueKind → String
  | .null => "Null"
  | .bool => "Bool"
  | .number => "Number"
  | .string => "String"
  | .bytes => "Bytes"
  | .date => "Date"
  | .array => "Array"
  | .map => "Map"
  | .record => "Record"
  | .nominalObject => "NominalObject"
  | .interfaceValue => "InterfaceValue"
  | .nativeHandle => "NativeHandle"

def RecoverableCodeIdentity.isNativeAdapter : RecoverableCodeIdentity → Bool
  | .nativeAdapter .. => true
  | _ => false

def validateStateMatchesKind {N : Type} (path : String) (kind : RecoverableValueKind)
    (code : RecoverableCodeIdentity) (state : RecoverableState N) : Checked Unit := do
  if kind ≠ state.kind then
    invalid path s!"recoverable value kind {kind.name} does not match state {state.kind.name}"
  else
    code.validate path
    if state.kind = .interfaceValue ∧ code ≠ .none then
      invalid path "InterfaceValue wrapper must not carry code identity"
    else if state.kind = .nativeHandle ∧ code.isNativeAdapter = false then
      invalid path "NativeHandleState requires NativeAdapter code identity"
    else .ok ()

/-! ## Nodes -/

/-- The validator of a node, given its path and depth; its state is the number of nodes so far. -/
abbrev NodeValidator := String → Nat → Mut Nat RecoverableStateInvalid Unit

/-- Count one more node. -/
def countNode (limits : RecoverableValidationLimits) (path : String) :
    Mut Nat RecoverableStateInvalid Unit := fun count =>
  if limits.maxNodes < count + 1 then
    (invalid path s!"recoverable node count exceeds {limits.maxNodes}", count + 1)
  else (.ok (), count + 1)

def validateItems (path : String) (depth : Nat) : Nat → List NodeValidator →
    Mut Nat RecoverableStateInvalid Unit
  | _, [] => pure ()
  | index, item :: rest => do
    item s!"{path}[{index}]" (depth + 1)
    validateItems path depth (index + 1) rest

/-- The entries of a map; `keys` are those of the entries before. -/
def validateEntries (limits : RecoverableValidationLimits) (path : String) (depth : Nat) :
    Nat → List Bytes → List (RecoverableMapKey × NodeValidator) →
      Mut Nat RecoverableStateInvalid Unit
  | _, _, [] => pure ()
  | index, keys, (key, value) :: rest => do
    let keyBytes ← Mut.ofExcept
      (canonicalMapKeyBytes limits s!"{path}.mapKey[{index}]" (depth + 1) key)
    if keys.contains keyBytes then
      Mut.fail ⟨path, "duplicate recoverable map key"⟩
    else
      value s!"{path}.map[{index}]" (depth + 1)
      validateEntries limits path depth (index + 1) (keyBytes :: keys) rest

/-- The fields of a record; `identities` are those of the fields before. -/
def validateFields (path : String) (depth : Nat) : List String →
    List (RecoverableField NodeValidator) → Mut Nat RecoverableStateInvalid Unit
  | _, [] => pure ()
  | identities, ⟨identity, value⟩ :: rest =>
    if identity ∈ identities then
      Mut.fail ⟨path, s!"duplicate recoverable field identity {identity}"⟩
    else do
      value s!"{path}.field({identity})" (depth + 1)
      validateFields path depth (identity :: identities) rest

def validateState (limits : RecoverableValidationLimits) (path : String) (depth : Nat) :
    RecoverableState NodeValidator → Mut Nat RecoverableStateInvalid Unit
  | .number bits => Mut.ofExcept (recoverableNumberFromBits path bits)
  | .date millis => Mut.ofExcept (validateRecoverableDate path millis)
  | .array items => validateItems path depth 0 items
  | .map entries => validateEntries limits path depth 0 [] entries
  | .record fields => validateFields path depth [] fields
  | .nominalObject (.defaultFields fields) => validateFields path depth [] fields
  | .nominalObject (.custom durableState) => durableState s!"{path}.durableState" (depth + 1)
  | .interfaceValue state => state.selfNode s!"{path}.selfNode" (depth + 1)
  | .nativeHandle state => state.durableState s!"{path}.durableState" (depth + 1)
  | .null | .bool _ | .string _ | .bytes _ => pure ()

def validateChildAt (limits : RecoverableValidationLimits) (kind : RecoverableValueKind)
    (_ : RecoverableVariantIdentity) (code : RecoverableCodeIdentity)
    (state : RecoverableState NodeValidator) : NodeValidator := fun path depth => do
  Mut.ofExcept (validateRecoverableDepth limits path depth)
  countNode limits path
  Mut.ofExcept (validateStateMatchesKind path kind code state)
  validateState limits path depth state

def validateChild (limits : RecoverableValidationLimits) (node : RecoverableNode) : NodeValidator :=
  node.fold (validateChildAt limits)

def validateNode (limits : RecoverableValidationLimits) (node : RecoverableNode) (path : String) :
    Mut Nat RecoverableStateInvalid Unit := do
  countNode limits path
  Mut.ofExcept (validateStateMatchesKind path node.valueKind node.codeIdentity node.state)
  validateState limits path 0 (node.state.mapNodes (validateChild limits))

def RecoverableEnvelope.validate (limits : RecoverableValidationLimits)
    (envelope : RecoverableEnvelope) : Checked Unit :=
  if envelope.schemaVersion ≠ envelopeSchemaVersion then
    invalid "$" s!"unsupported recoverable schema version {envelope.schemaVersion}"
  else (validateNode limits envelope.root "$" 0).1

/-! ## Writing an envelope -/

def magic : Bytes := [0x53, 0x4b, 0x52, 0x45]
def binaryVersion : UInt8 := 1

def encoderFinish (limits : RecoverableValidationLimits) (output : Bytes) : Checked Bytes :=
  if limits.maxEncodedBytes < output.length then
    invalid "$" s!"recoverable envelope exceeds max encoded bytes {limits.maxEncodedBytes}"
  else .ok output

def RecoverableEnvelope.toCanonicalBytes (limits : RecoverableValidationLimits)
    (envelope : RecoverableEnvelope) : Checked Bytes := do
  envelope.validate limits
  let schemaVersion ← writeString "$.schemaVersion" envelope.schemaVersion
  let root ← writeNode limits envelope.root "$.root" 0
  encoderFinish limits (magic ++ binaryVersion :: (schemaVersion ++ root))

end Skiff.Recoverable
