import Skiff.Data.SortOn
import Skiff.Recoverable.Envelope
import Skiff.Runtime.RequestHeap

/-!
# The canonical encoder

The bytes that `RecoverableCanonicalEncoder` appends. The entries of a map are written in the order
of the bytes of their keys, the fields of a record in the order of the bytes of their names. The
children of a node come as writers, which wait for their path and depth.
-/

namespace Skiff.Recoverable

open Skiff.Runtime (utf8)
open Wire (leBytes)

/-! ## Bytes -/

abbrev Bytes := List UInt8

def writeLen (path : String) (length : Nat) : Checked Bytes :=
  if length < 2 ^ 32 then .ok (leBytes 4 length)
  else invalid path "recoverable length exceeds u32::MAX"

def writeBytes (path : String) (bytes : Bytes) : Checked Bytes := do
  let length ← writeLen path bytes.length
  return length ++ bytes

def writeString (path : String) (value : String) : Checked Bytes := writeBytes path (utf8 value)

/-! ## Identities -/

def valueKindTag : RecoverableValueKind → UInt8
  | .null => 0
  | .bool => 1
  | .number => 2
  | .string => 3
  | .bytes => 4
  | .date => 5
  | .array => 6
  | .map => 7
  | .record => 8
  | .nominalObject => 9
  | .interfaceValue => 10
  | .nativeHandle => 11

def writeVariantIdentity (path : String) : RecoverableVariantIdentity → Checked Bytes
  | .none => return [0]
  | .unionBranch unionIdentity branchIdentity => do
    let union ← writeString path unionIdentity
    let branch ← writeString path branchIdentity
    return 1 :: (union ++ branch)

def writePackage (path : String) : Option PackageCoordinate → Checked Bytes
  | none => return [0]
  | some package => do
    let name ← writeString path package.name
    let version ← writeString path package.version
    return 1 :: (name ++ version)

def writeNativeOwner (path : String) : NativeAdapterOwner → Checked Bytes
  | .builtin => return [0]
  | .artifact artifactIdentity buildId package => do
    let artifact ← writeString path artifactIdentity
    let build ← writeString path buildId
    let coordinate ← writePackage path package
    return 1 :: (artifact ++ build ++ coordinate)

def writeLocalConcreteOwner (path : String) : LocalConcreteOwner → Checked Bytes
  | .service => return [0]
  | .package packageId => do
    let package ← writeString path packageId
    return 1 :: package

def writeCodeIdentity (path : String) : RecoverableCodeIdentity → Checked Bytes
  | .none => return [0]
  | .localConcrete owner concreteTypeIdentity => do
    let ownerBytes ← writeLocalConcreteOwner path owner
    let identity ← writeString path concreteTypeIdentity
    return 1 :: (ownerBytes ++ identity)
  | .nativeAdapter adapterIdentity adapterSchemaVersion owner nativeTypeIdentity => do
    let adapter ← writeString path adapterIdentity
    let version ← writeString path adapterSchemaVersion
    let ownerBytes ← writeNativeOwner path owner
    let identity ← writeString path nativeTypeIdentity
    return 2 :: (adapter ++ version ++ ownerBytes ++ identity)

/-! ## Map keys -/

def validateRecoverableDepth (limits : RecoverableValidationLimits) (path : String) (depth : Nat) :
    Checked Unit :=
  if limits.maxDepth < depth then invalid path s!"recoverable depth exceeds {limits.maxDepth}"
  else .ok ()

def writeMapKey (limits : RecoverableValidationLimits) (path : String) (depth : Nat) :
    RecoverableMapKey → Checked Bytes
  | .string value => do
    validateRecoverableDepth limits path depth
    let bytes ← writeString path value
    return 0 :: bytes
  | .nominalRepresentation representationIdentity value => do
    validateRecoverableDepth limits path depth
    let identity ← writeString path representationIdentity
    let bytes ← writeMapKey limits path (depth + 1) value
    return 1 :: (identity ++ bytes)

def canonicalMapKeyBytes (limits : RecoverableValidationLimits) (path : String) (depth : Nat)
    (key : RecoverableMapKey) : Checked Bytes :=
  writeMapKey limits path depth key

/-! ## Nodes -/

/-- The order of `Vec<u8>` and of the bytes of `String`. -/
def byteOrder (bytes : Bytes) : List Nat := bytes.map UInt8.toNat

def fieldOrder {N : Type} (field : RecoverableField N) : List Nat :=
  byteOrder (utf8 field.fieldIdentity)

abbrev NodeWriter := String → Nat → Checked Bytes

/-- Write the items one after the other, each with its index. -/
def writeEach {α : Type} (write : Nat → α → Checked Bytes) : Nat → List α → Checked Bytes
  | _, [] => return []
  | index, item :: rest => do
    let first ← write index item
    let others ← writeEach write (index + 1) rest
    return first ++ others

def writeItems (path : String) (depth : Nat) (items : List NodeWriter) : Checked Bytes := do
  let length ← writeLen path items.length
  let bytes ← writeEach (fun index item => item s!"{path}[{index}]" (depth + 1)) 0 items
  return length ++ bytes

/-- The entries of a map with the bytes of their keys. -/
def canonicalEntries {N : Type} (limits : RecoverableValidationLimits) (path : String)
    (depth : Nat) : Nat → List (RecoverableMapKey × N) →
      Checked (List (Bytes × RecoverableMapKey × N))
  | _, [] => return []
  | sourceIndex, (key, value) :: rest => do
    let keyBytes ← canonicalMapKeyBytes limits s!"{path}.mapKey[{sourceIndex}]" (depth + 1) key
    let others ← canonicalEntries limits path depth (sourceIndex + 1) rest
    return (keyBytes, key, value) :: others

def writeEntries (limits : RecoverableValidationLimits) (path : String) (depth : Nat)
    (entries : List (RecoverableMapKey × NodeWriter)) : Checked Bytes := do
  let canonical ← canonicalEntries limits path depth 0 entries
  let sorted := sortOn (fun entry => byteOrder entry.1) canonical
  let length ← writeLen path sorted.length
  let bytes ← writeEach (fun index (_, key, value) => do
    let keyBytes ← writeMapKey limits s!"{path}.mapKey[{index}]" (depth + 1) key
    let valueBytes ← value s!"{path}.map[{index}]" (depth + 1)
    return keyBytes ++ valueBytes) 0 sorted
  return length ++ bytes

def writeFields (path : String) (depth : Nat) (fields : List (RecoverableField NodeWriter)) :
    Checked Bytes := do
  let sorted := sortOn fieldOrder fields
  let length ← writeLen path sorted.length
  let bytes ← writeEach (fun _ field => do
    let identity ← writeString path field.fieldIdentity
    let value ← field.value s!"{path}.field({field.fieldIdentity})" (depth + 1)
    return identity ++ value) 0 sorted
  return length ++ bytes

def writeState (limits : RecoverableValidationLimits) (path : String) (depth : Nat) :
    RecoverableState NodeWriter → Checked Bytes
  | .null => return []
  | .bool value => return [if value then 1 else 0]
  | .number bits => return leBytes 8 bits.toNat
  | .string value => writeString path value
  | .bytes value => writeBytes path value
  | .date millis => return leBytes 8 millis.toNat
  | .array items => writeItems path depth items
  | .map entries => writeEntries limits path depth entries
  | .record fields => writeFields path depth fields
  | .nominalObject (.defaultFields fields) => do
    let bytes ← writeFields path depth fields
    return 0 :: bytes
  | .nominalObject (.custom durableState) => do
    let bytes ← durableState s!"{path}.durableState" (depth + 1)
    return 1 :: bytes
  | .interfaceValue state => do
    let bytes ← state.selfNode s!"{path}.selfNode" (depth + 1)
    return 0 :: bytes
  | .nativeHandle state => state.durableState s!"{path}.durableState" (depth + 1)

def writeNodeAt (limits : RecoverableValidationLimits) (kind : RecoverableValueKind)
    (variant : RecoverableVariantIdentity) (code : RecoverableCodeIdentity)
    (state : RecoverableState NodeWriter) : NodeWriter := fun path depth => do
  let variantBytes ← writeVariantIdentity path variant
  let codeBytes ← writeCodeIdentity path code
  let stateBytes ← writeState limits path depth state
  return valueKindTag kind :: (variantBytes ++ codeBytes ++ stateBytes)

def writeNode (limits : RecoverableValidationLimits) (node : RecoverableNode) : NodeWriter :=
  node.fold (writeNodeAt limits)

end Skiff.Recoverable
