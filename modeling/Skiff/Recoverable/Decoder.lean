import Skiff.Recoverable.Validator

/-!
# The canonical decoder

`RecoverableCanonicalDecoder` reads a node from its input and counts the nodes that it enters. The
depth is bounded before a node or a map key is read, so the recursion is over the levels that are
left; at none left the depth is over the limit.

A slice of bytes is shorter than `2 ^ 63` and a length field below `2 ^ 32`, so the end of a read
does not overflow.
-/

namespace Skiff.Recoverable

open Skiff.Runtime (fromUtf8)
open Wire (leNat)
open Mut

structure DecoderState where
  offset : Nat
  nodeCount : Nat
deriving DecidableEq

abbrev DecodeM (α : Type) := Mut DecoderState RecoverableStateInvalid α

def refuse {α : Type} (path message : String) : DecodeM α := fail ⟨path, message⟩

section

variable (input : Bytes) (limits : RecoverableValidationLimits)

/-! ## Bytes -/

def readExact (path : String) (length : Nat) : DecodeM Bytes := fun state =>
  if input.length < state.offset + length then
    (invalid path "recoverable envelope ended unexpectedly", state)
  else
    (.ok ((input.drop state.offset).take length), { state with offset := state.offset + length })

def readU8 (path : String) : DecodeM UInt8 := do
  let bytes ← readExact input path 1
  return bytes.headD 0

def readLen (path : String) : DecodeM Nat := do
  let bytes ← readExact input path 4
  return leNat bytes

/-- `read_u64` and `read_i64`. -/
def readU64 (path : String) : DecodeM (BitVec 64) := do
  let bytes ← readExact input path 8
  return .ofNat 64 (leNat bytes)

def readBytes (path : String) : DecodeM Bytes := do
  let length ← readLen input path
  readExact input path length

/-- The source appends the text of the standard library's error to the message. -/
def readString (path : String) : DecodeM String := do
  let bytes ← readBytes input path
  match fromUtf8 bytes with
  | some text => return text
  | none => refuse path "recoverable string is not UTF-8"

def expectMagic : DecodeM Unit := do
  let bytes ← readExact input "$" 4
  if bytes ≠ magic then
    refuse "$" "recoverable envelope bytes missing SKRE magic"
  else
    let version ← readU8 input "$"
    if version ≠ binaryVersion then
      refuse "$" s!"unsupported recoverable binary version {version}"
    else return ()

/-! ## Identities -/

def recoverableValueKindFromTag (path : String) (tag : UInt8) : Checked RecoverableValueKind :=
  match tag with
  | 0 => .ok .null
  | 1 => .ok .bool
  | 2 => .ok .number
  | 3 => .ok .string
  | 4 => .ok .bytes
  | 5 => .ok .date
  | 6 => .ok .array
  | 7 => .ok .map
  | 8 => .ok .record
  | 9 => .ok .nominalObject
  | 10 => .ok .interfaceValue
  | 11 => .ok .nativeHandle
  | _ => invalid path s!"unknown recoverable value kind tag {tag}"

def readVariantIdentity (path : String) : DecodeM RecoverableVariantIdentity := do
  let tag ← readU8 input path
  match tag with
  | 0 => return .none
  | 1 =>
    let unionIdentity ← readString input path
    let branchIdentity ← readString input path
    return .unionBranch unionIdentity branchIdentity
  | _ => refuse path s!"unknown recoverable variant identity tag {tag}"

def readPackage (path : String) : DecodeM (Option PackageCoordinate) := do
  let tag ← readU8 input path
  match tag with
  | 0 => return none
  | 1 =>
    let name ← readString input path
    let version ← readString input path
    return some ⟨name, version⟩
  | _ => refuse path s!"unknown package coordinate tag {tag}"

def readNativeOwner (path : String) : DecodeM NativeAdapterOwner := do
  let tag ← readU8 input path
  match tag with
  | 0 => return .builtin
  | 1 =>
    let artifactIdentity ← readString input path
    let buildId ← readString input path
    let package ← readPackage input path
    return .artifact artifactIdentity buildId package
  | _ => refuse path s!"unknown native adapter owner tag {tag}"

def readLocalConcreteOwner (path : String) : DecodeM LocalConcreteOwner := do
  let tag ← readU8 input path
  match tag with
  | 0 => return .service
  | 1 =>
    let packageId ← readString input path
    return .package packageId
  | _ => refuse path s!"unknown local concrete owner tag {tag}"

def readCodeIdentity (path : String) : DecodeM RecoverableCodeIdentity := do
  let tag ← readU8 input path
  match tag with
  | 0 => return .none
  | 1 =>
    let owner ← readLocalConcreteOwner input path
    let concreteTypeIdentity ← readString input path
    return .localConcrete owner concreteTypeIdentity
  | 2 =>
    let adapterIdentity ← readString input path
    let adapterSchemaVersion ← readString input path
    let owner ← readNativeOwner input path
    let nativeTypeIdentity ← readString input path
    return .nativeAdapter adapterIdentity adapterSchemaVersion owner nativeTypeIdentity
  | _ => refuse path s!"unknown recoverable code identity tag {tag}"

/-- `levels` is one more than the depths left, none when the depth is over the limit. -/
def readMapKey (path : String) : Nat → Nat → DecodeM RecoverableMapKey
  | 0, _ => refuse path s!"recoverable depth exceeds {limits.maxDepth}"
  | levels + 1, depth => do
    ofExcept (validateRecoverableDepth limits path depth)
    let tag ← readU8 input path
    match tag with
    | 0 =>
      let value ← readString input path
      return .string value
    | 1 =>
      let representationIdentity ← readString input path
      let value ← readMapKey path levels (depth + 1)
      return .nominalRepresentation representationIdentity value
    | _ => refuse path s!"unknown recoverable map key tag {tag}"

/-! ## Nodes -/

def enterNode (path : String) (depth : Nat) : DecodeM Unit := fun state =>
  if limits.maxDepth < depth then
    (invalid path s!"recoverable depth exceeds {limits.maxDepth}", state)
  else if limits.maxNodes < state.nodeCount + 1 then
    (invalid path s!"recoverable node count exceeds {limits.maxNodes}",
      { state with nodeCount := state.nodeCount + 1 })
  else (.ok (), { state with nodeCount := state.nodeCount + 1 })

def ensureChildNodeBudget (path : String) (length : Nat) : DecodeM Unit := read fun state =>
  let remaining := limits.maxNodes - state.nodeCount
  let remainingBytes := input.length - state.offset
  if remaining < length then
    invalid path
      s!"recoverable container declares {length} child node(s), exceeding remaining node budget {remaining}"
  else if remainingBytes < length then
    invalid path
      s!"recoverable container declares {length} child node(s), exceeding remaining encoded bytes {remainingBytes}"
  else .ok ()

section

variable (child : String → DecodeM RecoverableNode)

def readItems (path : String) : Nat → Nat → DecodeM (List RecoverableNode)
  | 0, _ => return []
  | count + 1, index => do
    let item ← child s!"{path}[{index}]"
    let others ← readItems path count (index + 1)
    return item :: others

/-- The entries of a map; `previous` is the key before them. -/
def readEntries (path : String) (levels depth : Nat) : Nat → Nat → Option Bytes →
    DecodeM (List (RecoverableMapKey × RecoverableNode))
  | 0, _, _ => return []
  | count + 1, index, previous => do
    let key ← readMapKey input limits s!"{path}.mapKey[{index}]" levels (depth + 1)
    let keyBytes ← ofExcept (canonicalMapKeyBytes limits s!"{path}.mapKey[{index}]" (depth + 1) key)
    if previous.any fun before => byteOrder keyBytes ≤ byteOrder before then
      refuse path "recoverable map entries are not in canonical key order"
    else
      let value ← child s!"{path}.map[{index}]"
      let others ← readEntries path levels depth count (index + 1) (some keyBytes)
      return (key, value) :: others

/-- The fields of a record; `previous` is the name before them. -/
def readFieldsAfter (path : String) : Nat → Option String →
    DecodeM (List (RecoverableField RecoverableNode))
  | 0, _ => return []
  | count + 1, previous => do
    let fieldIdentity ← readString input path
    if previous.any fun before =>
        byteOrder (Skiff.Runtime.utf8 fieldIdentity) ≤ byteOrder (Skiff.Runtime.utf8 before) then
      refuse path "recoverable record fields are not in canonical identity order"
    else
      let value ← child s!"{path}.field({fieldIdentity})"
      let others ← readFieldsAfter path count (some fieldIdentity)
      return ⟨fieldIdentity, value⟩ :: others

def readFields (path : String) : DecodeM (List (RecoverableField RecoverableNode)) := do
  let length ← readLen input path
  ensureChildNodeBudget input limits path length
  readFieldsAfter input child path length none

/-- The state of a node; `child` reads a node one level further down. -/
def readState (path : String) (levels depth : Nat) : RecoverableValueKind →
    DecodeM (RecoverableState RecoverableNode)
  | .null => return .null
  | .bool => do
    let value ← readU8 input path
    match value with
    | 0 => return .bool false
    | 1 => return .bool true
    | _ => refuse path s!"recoverable bool payload must be 0 or 1, got {value}"
  | .number => do
    let bits ← readU64 input path
    ofExcept (recoverableNumberFromBits path bits)
    return .number bits
  | .string => do
    let value ← readString input path
    return .string value
  | .bytes => do
    let value ← readBytes input path
    return .bytes value
  | .date => do
    let epochMillis ← readU64 input path
    ofExcept (validateRecoverableDate path epochMillis)
    return .date epochMillis
  | .array => do
    let length ← readLen input path
    ensureChildNodeBudget input limits path length
    let items ← readItems child path length 0
    return .array items
  | .map => do
    let length ← readLen input path
    ensureChildNodeBudget input limits path length
    let entries ← readEntries input limits child path levels depth length 0 none
    return .map entries
  | .record => do
    let fields ← readFields input limits child path
    return .record fields
  | .nominalObject => do
    let tag ← readU8 input path
    match tag with
    | 0 =>
      let fields ← readFields input limits child path
      return .nominalObject (.defaultFields fields)
    | 1 =>
      let durableState ← child s!"{path}.durableState"
      return .nominalObject (.custom durableState)
    | _ => refuse path s!"unknown nominal object state tag {tag}"
  | .interfaceValue => do
    let tag ← readU8 input path
    match tag with
    | 0 =>
      let selfNode ← child s!"{path}.selfNode"
      return .interfaceValue ⟨selfNode⟩
    | _ => refuse path s!"unknown interface value state tag {tag}"
  | .nativeHandle => do
    let durableState ← child s!"{path}.durableState"
    return .nativeHandle ⟨durableState⟩

end

/-- `levels` is one more than the depths left, none when the depth is over the limit. -/
def readNode : Nat → Nat → String → DecodeM RecoverableNode
  | 0, _, path => refuse path s!"recoverable depth exceeds {limits.maxDepth}"
  | levels + 1, depth, path => do
    enterNode limits path depth
    let tag ← readU8 input path
    let kind ← ofExcept (recoverableValueKindFromTag path tag)
    let variant ← readVariantIdentity input path
    let code ← readCodeIdentity input path
    let state ← readState input limits (readNode levels (depth + 1)) path levels depth kind
    return ⟨kind, variant, code, state⟩

/-! ## Envelopes -/

def readEnvelope (levels : Nat) : DecodeM RecoverableEnvelope := do
  expectMagic input
  let schemaVersion ← readString input "$.schemaVersion"
  if schemaVersion ≠ envelopeSchemaVersion then
    refuse "$" s!"unsupported recoverable schema version {schemaVersion}"
  else
    let root ← readNode input limits levels 0 "$.root"
    read fun state =>
      if state.offset ≠ input.length then
        invalid "$" s!"recoverable envelope has {input.length - state.offset} trailing byte(s)"
      else .ok ()
    ofExcept (RecoverableEnvelope.validate limits ⟨schemaVersion, root⟩)
    return ⟨schemaVersion, root⟩

/-- The depths from `0` to the limit are the levels of the recursion. -/
def fromCanonicalBytes : Checked RecoverableEnvelope :=
  if limits.maxEncodedBytes < input.length then
    invalid "$" s!"recoverable envelope exceeds max encoded bytes {limits.maxEncodedBytes}"
  else (readEnvelope input limits (limits.maxDepth + 1) ⟨0, 0⟩).1

end

end Skiff.Recoverable
