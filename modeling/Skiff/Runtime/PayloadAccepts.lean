import Skiff.Runtime.PayloadRestores
import Mathlib.Data.List.Nodup

/-!
# What the payload decoder accepts

A value that `decode_payload_plan` returns passes the checks that the encoder makes on
its way down, except one: the decoder of untyped values takes the bits of a number as they
come. `finitePayload` reads the bytes for this check only.
-/

namespace Skiff.Runtime

open Wire RuntimeRecordFieldPlan OrdMap RequestHeap List

/-! ## The numbers in the bytes -/

/-- The keys of an object in an untyped value. -/
def readObjectKey : Reader String := do
  let key ← readStringRaw
  Decode.ofExcept (rejectReservedLegacyMetadataKey key)
  return key

/-- An entry whose key comes again does not count. -/
def finiteEntries (readKey : Reader String) (scan : Reader Bool) : Reader Bool := do
  let length ← readLen
  let flags ← Decode.fold (fun flags : OrdMap String Bool => do
    let key ← readKey
    let flag ← scan
    return flags.insert key flag) length ∅
  return flags.values.all id

/-- Every number of the untyped value at the front is finite. -/
def finiteAny : Nat → Reader Bool
  | 0 => .fail .outOfFuel
  | fuel + 1 => do
    let tag ← readU8
    if tag = tagNumber then do
      let bits ← read64
      return isFinite bits
    else if tag = tagString then do
      let _ ← readStringRaw
      return true
    else if tag = tagDate then do
      let _ ← decodeDatePayload
      return true
    else if tag = tagBytes then do
      let _ ← readBytesRaw
      return true
    else if tag = tagArray then do
      let length ← readLen
      let flags ← Decode.times (finiteAny fuel) length
      return flags.all id
    else if tag = tagObject then finiteEntries readObjectKey (finiteAny fuel)
    else if tag = tagMap then finiteEntries readRuntimeKeyAny (finiteAny fuel)
    else return true

def finiteField (scan : RuntimeTypePlan → Reader Bool) (fields : List RuntimeRecordFieldPlan)
    (flags : OrdMap String Bool) : Reader (OrdMap String Bool) := do
  let name ← readStringRaw
  match (fieldsByName fields).get? name with
  | none => Decode.fail ended
  | some field => do
    let flag ← scan field.ty
    return flags.insert field.name flag

/-- Every number that stands in an untyped part of the bytes is finite. Where the plan
says number, the decoder has checked already. -/
def finiteTyped : Nat → RuntimeTypePlan → Reader Bool
  | 0, _ => .fail .outOfFuel
  | fuel + 1, expected =>
    match boundaryTypeNode expected with
    | .nullable inner => do
      let tag ← readU8
      if tag = 1 then finiteTyped fuel inner else pure true
    | .union types => do
      let branch ← readU8
      match types[branch.toNat]? with
      | none => Decode.fail ended
      | some ty => finiteTyped fuel ty
    | .json => finiteAny fuel
    | .jsonObject => finiteAny fuel
    | .literalString _ => do
      let _ ← decodeStringValue
      return true
    | .bytes => do
      expectTag tagBytes
      let _ ← readBytesRaw
      return true
    | .date => do
      let _ ← decodeDateValue
      return true
    | .string => do
      let _ ← decodeStringValue
      return true
    | .bool => do
      let _ ← readU8
      return true
    | .integer => do
      let _ ← decodeNumberValue
      return true
    | .number => do
      let _ ← decodeNumberValue
      return true
    | .null => do
      expectTag tagNull
      return true
    | .stream _ => Decode.fail ended
    | .array item => do
      expectTag tagArray
      let length ← readLen
      let flags ← Decode.times (finiteTyped fuel item) length
      return flags.all id
    | .map key item => do
      expectTag tagMap
      finiteEntries (readRuntimeKey key) (finiteTyped fuel item)
    | .record fields => do
      expectTag tagObject
      let length ← readLen
      let flags ← Decode.fold (finiteField (finiteTyped fuel) fields) length ∅
      return flags.values.all id
    | .unknown => Decode.fail ended

/-- The check over a whole payload, behind magic and version. -/
def finitePayload (fuel : Nat) (bytes : List UInt8) (plan : RuntimeTypePlan) : Bool :=
  match finiteTyped fuel plan (bytes.drop 5) (new ⟨0, 0⟩) with
  | .ok (flag, _, _) => flag
  | .error _ => false

/-! ## Values below a value -/

/-- Nothing that was allocated is lost or changed. -/
def RequestHeap.Keeps (heap next : RequestHeap) : Prop :=
  ∀ handle node, heap.get handle = .ok node → next.get handle = .ok node

theorem RequestHeap.Keeps.refl (heap : RequestHeap) : heap.Keeps heap := fun _ _ h => h

variable {handle : HeapHandle}

theorem RequestHeap.keeps_allocNode {heap next : RequestHeap} {node : HeapNode}
    (h : heap.allocNode node = .ok (handle, next)) :
    heap.Keeps next ∧ next.get handle = .ok node := by
  unfold allocNode allocNodeWithCarriers at h
  dsimp only at h
  split at h
  · cases h
  split at h
  · cases h
  split at h
  · cases h
  cases h
  refine ⟨fun other node' hget => get_append hget, ?_⟩
  simp [get, slot, Except.map]

theorem RequestHeap.Keeps.trans {heap middle next : RequestHeap} (h : heap.Keeps middle)
    (h' : middle.Keeps next) : heap.Keeps next :=
  fun handle node hget => h' handle node (h handle node hget)

/-- A number that is not finite is in the value or below it. -/
inductive NonFinite (heap : RequestHeap) : RuntimeValue → Prop where
  | number {bits} : isFinite bits = false → NonFinite heap (.number bits)
  | child {handle node value} : heap.get handle = .ok node →
      value ∈ childValues node → NonFinite heap value → NonFinite heap (.heap handle)

/-- Every node below the value is in the heap, fewer than `depth` of them deep. -/
def Rooted (heap : RequestHeap) : Nat → RuntimeValue → Prop
  | 0, _ => False
  | depth + 1, .heap handle => ∃ node, heap.get handle = .ok node ∧
      ∀ value ∈ childValues node, Rooted heap depth value
  | _ + 1, _ => True

section Rooted

variable {heap next : RequestHeap} {depth : Nat} {value : RuntimeValue}

theorem Rooted.mono (h : Rooted heap depth value) : Rooted heap (depth + 1) value := by
  induction depth generalizing value with
  | zero => exact h.elim
  | succ depth ih =>
    cases value with
    | heap handle =>
      obtain ⟨node, hget, hall⟩ := h
      exact ⟨node, hget, fun child hchild => ih (hall child hchild)⟩
    | _ => trivial

theorem Rooted.keeps (hkeeps : heap.Keeps next) (h : Rooted heap depth value) :
    Rooted next depth value := by
  induction depth generalizing value with
  | zero => exact h.elim
  | succ depth ih =>
    cases value with
    | heap handle =>
      obtain ⟨node, hget, hall⟩ := h
      exact ⟨node, hkeeps handle node hget, fun child hchild => ih (hall child hchild)⟩
    | _ => trivial

/-- What is below a rooted value stays as it is. -/
theorem Rooted.nonFinite_iff (hkeeps : heap.Keeps next) (h : Rooted heap depth value) :
    NonFinite next value ↔ NonFinite heap value := by
  constructor
  · intro hnext
    induction hnext generalizing depth with
    | number hbits => exact .number hbits
    | @child handle node' child hget' hchild _ ih =>
      cases depth with
      | zero => exact h.elim
      | succ depth =>
        obtain ⟨node, hget, hall⟩ := h
        have hsame : node' = node := by
          rw [hkeeps handle node hget] at hget'
          exact (Except.ok.inj hget').symm
        subst hsame
        exact .child hget hchild (ih (hall child hchild))
  intro hheap
  clear h
  induction hheap with
  | number hbits => exact .number hbits
  | child hget hchild _ ih => exact .child (hkeeps _ _ hget) hchild ih

theorem Rooted.pos (h : Rooted heap depth value) : ∃ below, depth = below + 1 := by
  cases depth with
  | zero => exact h.elim
  | succ below => exact ⟨below, rfl⟩

theorem Rooted.child {node : HeapNode}
    (h : Rooted heap (depth + 1) (.heap handle)) (hget : heap.get handle = .ok node)
    (hvalue : value ∈ childValues node) : Rooted heap depth value := by
  obtain ⟨node', hget', hall⟩ := h
  rw [hget] at hget'
  cases hget'
  exact hall value hvalue

theorem nonFinite_heap_iff {node : HeapNode} (hget : heap.get handle = .ok node) :
    NonFinite heap (.heap handle) ↔ ∃ child ∈ childValues node, NonFinite heap child := by
  constructor
  · intro h
    cases h with
    | child hget' hchild hnon =>
      rw [hget] at hget'
      cases hget'
      exact ⟨_, hchild, hnon⟩
  rintro ⟨child, hchild, hnon⟩
  exact .child hget hchild hnon

end Rooted

/-! ## The checks of the encoder -/

/-- Keys that pass on both sides. -/
def KeyFits (key : String) : Prop := key ≠ reservedKey ∧ (utf8 key).length < 2 ^ 32

/-- What `encode_any` asks for, except that numbers are finite. -/
inductive FitsAny (heap : RequestHeap) : RuntimeValue → Prop where
  | null : FitsAny heap .null
  | bool {value} : FitsAny heap (.bool value)
  | number {bits} : FitsAny heap (.number bits)
  | string {text} : (utf8 text).length < 2 ^ 32 → FitsAny heap (.string text)
  | date {millis} : isValidEpochMillis millis = true → FitsAny heap (.date millis)
  | bytes {handle content} : heap.get handle = .ok (.bytes content) → content.length < 2 ^ 32 →
      FitsAny heap (.heap handle)
  | array {handle items} : heap.get handle = .ok (.array items) → items.length < 2 ^ 32 →
      (∀ item ∈ items, FitsAny heap item) → FitsAny heap (.heap handle)
  | object {handle fields} : heap.get handle = .ok (.object fields) →
      size fields < 2 ^ 32 → (∀ key ∈ keys fields, KeyFits key) →
      (∀ value ∈ values fields, FitsAny heap value) → FitsAny heap (.heap handle)
  | map {handle entries} : heap.get handle = .ok (.map entries) →
      size entries < 2 ^ 32 → (∀ key ∈ keys entries, KeyFits key) →
      (∀ value ∈ values entries, FitsAny heap value) → FitsAny heap (.heap handle)

/-- The values without a node that a plan takes. -/
inductive LeafFits : BoundaryTypeNode → RuntimeValue → Prop where
  | nullable {inner} : LeafFits (.nullable inner) .null
  | null : LeafFits .null .null
  | literalString {text} : (utf8 text).length < 2 ^ 32 →
      LeafFits (.literalString text) (.string text)
  | string {text} : (utf8 text).length < 2 ^ 32 → LeafFits .string (.string text)
  | date {millis} : isValidEpochMillis millis = true → LeafFits .date (.date millis)
  | bool {value} : LeafFits .bool (.bool value)
  | integer {bits} : isFinite bits = true → LeafFits .integer (.number bits)
  | number {bits} : isFinite bits = true → LeafFits .number (.number bits)

/-- What `encode_typed` asks for, except that the numbers of untyped values are finite. -/
inductive FitsTyped (heap : RequestHeap) : RuntimeTypePlan → RuntimeValue → Prop where
  | leaf {plan value} : LeafFits (boundaryTypeNode plan) value → FitsTyped heap plan value
  | any {plan value} : (boundaryTypeNode plan = .json ∨ boundaryTypeNode plan = .jsonObject) →
      FitsAny heap value → FitsTyped heap plan value
  | nullable {plan inner value} : boundaryTypeNode plan = .nullable inner →
      FitsTyped heap inner value → FitsTyped heap plan value
  | union {plan types ty value} : boundaryTypeNode plan = .union types → ty ∈ types →
      FitsTyped heap ty value → FitsTyped heap plan value
  | bytes {plan handle content} : boundaryTypeNode plan = .bytes →
      heap.get handle = .ok (.bytes content) → content.length < 2 ^ 32 →
      FitsTyped heap plan (.heap handle)
  | array {plan item handle items} : boundaryTypeNode plan = .array item →
      heap.get handle = .ok (.array items) → items.length < 2 ^ 32 →
      (∀ value ∈ items, FitsTyped heap item value) → FitsTyped heap plan (.heap handle)
  | map {plan keyType item handle entries} : boundaryTypeNode plan = .map keyType item →
      heap.get handle = .ok (.map entries) → size entries < 2 ^ 32 →
      (∀ key ∈ keys entries, KeyFits key ∧ mapKeyCheck keyType = .ok ()) →
      (∀ value ∈ values entries, FitsTyped heap item value) →
      FitsTyped heap plan (.heap handle)
  | record {plan fields handle object} : boundaryTypeNode plan = .record fields →
      heap.get handle = .ok (.object object) → size object < 2 ^ 32 →
      (∀ key ∈ keys object, KeyFits key ∧ key ∈ fields.map RuntimeRecordFieldPlan.name) →
      (∀ field ∈ fields, ∀ value, object.get? (RuntimeRecordFieldPlan.name field) = some value →
        FitsTyped heap (ty field) value) →
      requireFields object.contains fields = .ok () → FitsTyped heap plan (.heap handle)

section Keeps

variable {heap next : RequestHeap} {value : RuntimeValue}

theorem FitsAny.keeps (hkeeps : heap.Keeps next) (h : FitsAny heap value) : FitsAny next value := by
  induction h with
  | null => exact .null
  | bool => exact .bool
  | number => exact .number
  | string hlength => exact .string hlength
  | date hvalid => exact .date hvalid
  | bytes hget hlength => exact .bytes (hkeeps _ _ hget) hlength
  | array hget hlength _ ih => exact .array (hkeeps _ _ hget) hlength ih
  | object hget hsize hkeys _ ih => exact .object (hkeeps _ _ hget) hsize hkeys ih
  | map hget hsize hkeys _ ih => exact .map (hkeeps _ _ hget) hsize hkeys ih

theorem FitsTyped.keeps (hkeeps : heap.Keeps next) {plan : RuntimeTypePlan}
    (h : FitsTyped heap plan value) : FitsTyped next plan value := by
  induction h with
  | leaf hleaf => exact .leaf hleaf
  | any hnode hany => exact .any hnode (hany.keeps hkeeps)
  | nullable hnode _ ih => exact .nullable hnode ih
  | union hnode hmem _ ih => exact .union hnode hmem ih
  | bytes hnode hget hlength => exact .bytes hnode (hkeeps _ _ hget) hlength
  | array hnode hget hlength _ ih => exact .array hnode (hkeeps _ _ hget) hlength ih
  | map hnode hget hsize hkeys _ ih => exact .map hnode (hkeeps _ _ hget) hsize hkeys ih
  | record hnode hget hsize hkeys _ hrequired ih =>
    exact .record hnode (hkeeps _ _ hget) hsize hkeys ih hrequired

end Keeps

/-! ## Two readers of the same bytes -/

section Follows

variable {α β γ δ : Type}

/-- What the reader returns has the property, it leaves the heap alone, and does the same
on every heap. -/
def Reads (read : Reader α) (P : α → Prop) : Prop :=
  ∀ input heap a rest next, read input heap = .ok (a, rest, next) →
    next = heap ∧ P a ∧ ∀ other, read input other = .ok (a, rest, other)

/-- Whatever the first reader takes from this heap on, the second one takes too, without
a heap, and what they return is related. -/
def Follows (read : Reader α) (scan : Reader β) (heap : RequestHeap)
    (R : RequestHeap → α → β → Prop) : Prop :=
  ∀ input a rest next, read input heap = .ok (a, rest, next) → heap.Keeps next ∧
    ∃ b, (∀ other, scan input other = .ok (b, rest, other)) ∧ R next a b

variable {read : Reader α}

variable {b : β} {scan : Reader β}

theorem decode_bind_eq_ok {f : α → Reader β} {input rest : List UInt8} {heap next : RequestHeap} :
    (read >>= f) input heap = .ok (b, rest, next) ↔ ∃ a middle between,
      read input heap = .ok (a, middle, between) ∧ f a middle between = .ok (b, rest, next) := by
  change Decode.bind read f input heap = _ ↔ _
  rw [Decode.bind]
  cases read input heap with
  | error stop => simp
  | ok result =>
    obtain ⟨a, middle, between⟩ := result
    constructor
    · intro h
      exact ⟨a, middle, between, rfl, h⟩
    rintro ⟨_, _, _, heq, h⟩
    cases heq
    exact h

variable {P : α → Prop} {Q : β → Prop}

theorem reads_pure {a : α} (h : P a) : Reads (pure a) P := by
  intro input heap a' rest next hread
  cases hread
  exact ⟨rfl, h, fun _ => rfl⟩

theorem reads_fail (stop : Stop) : Reads (Decode.fail stop) P := by
  intro input heap a rest next hread
  cases hread

theorem reads_ofExcept {x : Except Stop α} (h : ∀ a, x = .ok a → P a) :
    Reads (Decode.ofExcept x) P := by
  cases x with
  | ok a => exact reads_pure (h a rfl)
  | error stop => exact reads_fail stop

theorem Reads.bind {f : α → Reader β} (h : Reads read P)
    (hf : ∀ a, P a → Reads (f a) Q) : Reads (read >>= f) Q := by
  intro input heap b rest next hread
  obtain ⟨a, middle, between, hfirst, hsecond⟩ := decode_bind_eq_ok.mp hread
  obtain ⟨rfl, ha, hother⟩ := h _ _ _ _ _ hfirst
  obtain ⟨rfl, hb, hother'⟩ := hf a ha _ _ _ _ _ hsecond
  refine ⟨rfl, hb, fun other => ?_⟩
  exact decode_bind_eq_ok.mpr ⟨a, middle, other, hother other, hother' other⟩

theorem reads_readU8 : Reads readU8 fun _ => True := by
  intro input heap byte rest next hread
  cases input with
  | nil => cases hread
  | cons first tail =>
    cases hread
    exact ⟨rfl, trivial, fun _ => rfl⟩

theorem reads_readExact (length : Nat) :
    Reads (readExact length) fun bytes => bytes.length = length := by
  intro input heap bytes rest next hread
  by_cases hlength : length ≤ input.length
  · have hresult : ∀ other, readExact length input other =
        .ok (input.take length, input.drop length, other) := fun other => if_pos hlength
    rw [hresult] at hread
    cases hread
    exact ⟨rfl, by simp [hlength], hresult⟩
  have hresult : readExact length input heap = .error ended := if_neg hlength
  rw [hresult] at hread
  cases hread

theorem reads_readLen : Reads readLen (· < 2 ^ 32) := by
  refine (reads_readExact 4).bind fun bytes hlength => reads_pure ?_
  have hlt := leNat_lt bytes
  rw [hlength] at hlt
  exact hlt

theorem reads_readBytesRaw : Reads readBytesRaw fun bytes => bytes.length < 2 ^ 32 := by
  refine reads_readLen.bind fun length hlength => ?_
  intro input heap bytes rest next hread
  obtain ⟨hnext, hbytes, hother⟩ := reads_readExact length _ _ _ _ _ hread
  exact ⟨hnext, lt_of_eq_of_lt hbytes hlength, hother⟩

theorem reads_readStringRaw : Reads readStringRaw fun text => (utf8 text).length < 2 ^ 32 := by
  refine reads_readBytesRaw.bind fun bytes hlength => ?_
  cases htext : fromUtf8 bytes with
  | none => exact reads_fail _
  | some text =>
    refine reads_pure ?_
    rw [← fromUtf8_eq_some.mp htext]
    exact hlength

theorem reads_read64 : Reads read64 fun _ => True :=
  (reads_readExact 8).bind fun _ _ => reads_pure trivial

theorem reads_expectTag (tag : UInt8) : Reads (expectTag tag) fun _ => True := by
  refine reads_readU8.bind fun actual _ => ?_
  split
  · exact reads_pure trivial
  · exact reads_fail _

variable {R : RequestHeap → α → β → Prop} {S : RequestHeap → γ → δ → Prop}
variable {heap : RequestHeap}

theorem follows_fail (stop : Stop) (scan : Reader β) : Follows (Decode.fail stop) scan heap R := by
  intro input a rest next hread
  cases hread

theorem follows_pure {a : α} (h : R heap a b) : Follows (pure a) (pure b) heap R := by
  intro input a' rest next hread
  cases hread
  exact ⟨.refl _, b, fun _ => rfl, h⟩

variable {f : α → Reader γ}

theorem Follows.bind {g : β → Reader δ} (h : Follows read scan heap R)
    (hf : ∀ next a b, heap.Keeps next → R next a b → Follows (f a) (g b) next S) :
    Follows (read >>= f) (scan >>= g) heap S := by
  intro input c rest next hread
  obtain ⟨a, middle, between, hfirst, hsecond⟩ := decode_bind_eq_ok.mp hread
  obtain ⟨hkeeps, b, hscan, hR⟩ := h _ _ _ _ hfirst
  obtain ⟨hkeeps', d, hscan', hS⟩ := hf between a b hkeeps hR _ _ _ _ hsecond
  exact ⟨hkeeps.trans hkeeps', d,
    fun other => decode_bind_eq_ok.mpr ⟨b, middle, other, hscan other, hscan' other⟩, hS⟩

theorem Follows.mono {R' : RequestHeap → α → β → Prop}
    (h : Follows read scan heap R) (himp : ∀ next a b, R next a b → R' next a b) :
    Follows read scan heap R' := by
  intro input a rest next hread
  obtain ⟨hkeeps, b, hscan, hR⟩ := h _ _ _ _ hread
  exact ⟨hkeeps, b, hscan, himp next a b hR⟩

/-- A step that both make. -/
theorem Reads.follows_bind {g : α → Reader δ}
    (h : Reads read P) (hf : ∀ a, P a → Follows (f a) (g a) heap S) :
    Follows (read >>= f) (read >>= g) heap S := by
  intro input c rest next hread
  obtain ⟨a, middle, between, hfirst, hsecond⟩ := decode_bind_eq_ok.mp hread
  obtain ⟨rfl, ha, hother⟩ := h _ _ _ _ _ hfirst
  obtain ⟨hkeeps, d, hscan, hS⟩ := hf a ha _ _ _ _ hsecond
  exact ⟨hkeeps, d,
    fun other => decode_bind_eq_ok.mpr ⟨a, middle, other, hother other, hscan other⟩, hS⟩

/-- A value that both read, of which the second one keeps nothing. -/
theorem Reads.follows (h : Reads read P)
    (hR : ∀ a, P a → R heap a b) : Follows read (do let _ ← read; return b) heap R := by
  intro input a rest next hread
  obtain ⟨rfl, ha, hother⟩ := h _ _ _ _ _ hread
  refine ⟨.refl _, b, fun other => ?_, hR a ha⟩
  exact decode_bind_eq_ok.mpr ⟨a, rest, other, hother other, rfl⟩

/-- A check that only the first one makes. -/
theorem follows_ofExcept_bind {x : Except Stop α} {scan : Reader δ}
    (h : ∀ a, x = .ok a → Follows (f a) scan heap S) :
    Follows (Decode.ofExcept x >>= f) scan heap S := by
  cases x with
  | ok a => exact h a rfl
  | error stop => exact follows_fail stop scan

/-- The allocation at the end. -/
theorem follows_alloc {node : HeapNode} {R : RequestHeap → RuntimeValue → β → Prop}
    (h : ∀ next handle, heap.Keeps next → next.get handle = .ok node → R next (.heap handle) b) :
    Follows (alloc node) (pure b) heap R := by
  intro input value rest next hread
  rw [alloc] at hread
  cases halloc : heap.allocNode node with
  | error error =>
    rw [halloc] at hread
    cases hread
  | ok result =>
    obtain ⟨handle, next'⟩ := result
    rw [halloc] at hread
    cases hread
    obtain ⟨hkeeps, hget⟩ := keeps_allocNode halloc
    exact ⟨hkeeps, b, fun _ => rfl, h _ _ hkeeps hget⟩

theorem follows_fold {step : α → Reader α} {stepScan : β → Reader β}
    {I : Nat → RequestHeap → α → β → Prop}
    (hstep : ∀ done heap a b, I done heap a b → Follows (step a) (stepScan b) heap (I (done + 1)))
    (count : Nat) {done : Nat} {a : α} (h : I done heap a b) :
    Follows (Decode.fold step count a) (Decode.fold stepScan count b) heap (I (done + count)) := by
  induction count generalizing done a b heap with
  | zero => exact follows_pure h
  | succ count ih =>
    refine (hstep done heap a b h).bind fun next a' b' _ hnext => ?_
    have hrest := ih hnext
    rwa [Nat.add_right_comm, Nat.add_assoc] at hrest

theorem follows_times (hstable : ∀ heap next a b, heap.Keeps next → R heap a b → R next a b)
    (hread : ∀ heap, Follows read scan heap R) (count : Nat) :
    Follows (Decode.times read count) (Decode.times scan count) heap fun next values flags =>
      values.length = count ∧ Forall₂ (R next) values flags := by
  induction count generalizing heap with
  | zero => exact follows_pure ⟨rfl, .nil⟩
  | succ count ih =>
    refine (hread heap).bind fun middle a b _ hR => ?_
    refine ih.bind fun next values flags hkeeps hvalues => follows_pure ?_
    exact ⟨by simp [hvalues.1], .cons (hstable _ _ _ _ hkeeps hR) hvalues.2⟩

end Follows

/-! ## What is read -/

/-- A value that fits, and the answer about its numbers. -/
structure Received (fits : RequestHeap → RuntimeValue → Prop) (depth : Nat) (heap : RequestHeap)
    (value : RuntimeValue) (flag : Bool) : Prop where
  rooted : Rooted heap depth value
  fits : fits heap value
  finite : flag = true ↔ ¬ NonFinite heap value

/-- What fits keeps fitting while more is read. -/
def Lasting (fits : RequestHeap → RuntimeValue → Prop) : Prop :=
  ∀ heap next value, heap.Keeps next → fits heap value → fits next value

variable {read : Reader RuntimeValue}

section Received

variable {fits fits' : RequestHeap → RuntimeValue → Prop} {depth : Nat}
variable {heap next : RequestHeap} {value : RuntimeValue} {flag : Bool}

theorem Received.keeps (hfits : Lasting fits) (hkeeps : heap.Keeps next)
    (h : Received fits depth heap value flag) : Received fits depth next value flag := by
  refine ⟨h.rooted.keeps hkeeps, hfits heap next value hkeeps h.fits, ?_⟩
  rw [h.rooted.nonFinite_iff hkeeps]
  exact h.finite

theorem Received.imp (h : Received fits depth heap value flag)
    (himp : fits heap value → fits' heap value) : Received fits' (depth + 1) heap value flag :=
  ⟨h.rooted.mono, himp h.fits, h.finite⟩

/-- A value without a node and without a number. -/
theorem received_leaf (h : fits heap value) (hrooted : Rooted heap (depth + 1) value)
    (hfinite : ¬ NonFinite heap value) : Received fits (depth + 1) heap value true :=
  ⟨hrooted, h, iff_of_true rfl hfinite⟩

theorem received_number {bits : BitVec 64} (h : fits heap (.number bits)) :
    Received fits (depth + 1) heap (.number bits) (isFinite bits) := by
  refine ⟨trivial, h, fun hfinite hnon => ?_, fun hnon => ?_⟩
  · cases hnon with
    | number hbits => exact absurd hfinite (by simp [hbits])
  cases hbits : isFinite bits with
  | true => rfl
  | false => exact absurd (.number hbits) hnon

theorem received_node {node : HeapNode} (hget : heap.get handle = .ok node)
    (hchildren : ∀ child ∈ childValues node, Rooted heap depth child)
    (hflag : flag = true ↔ ∀ child ∈ childValues node, ¬ NonFinite heap child)
    (hfits : fits heap (.heap handle)) : Received fits (depth + 1) heap (.heap handle) flag := by
  refine ⟨⟨node, hget, hchildren⟩, hfits, ?_⟩
  rw [nonFinite_heap_iff hget, hflag]
  simp

theorem received_list {values : List RuntimeValue} {flags : List Bool}
    (h : Forall₂ (Received fits depth heap) values flags) :
    (∀ value ∈ values, Rooted heap depth value ∧ fits heap value) ∧
      (flags.all id = true ↔ ∀ value ∈ values, ¬ NonFinite heap value) := by
  induction h with
  | nil => simp
  | cons hfirst _ ih =>
    obtain ⟨hall, hflags⟩ := ih
    refine ⟨?_, ?_⟩
    · rintro value hvalue
      obtain rfl | hvalue := mem_cons.mp hvalue
      · exact ⟨hfirst.rooted, hfirst.fits⟩
      · exact hall value hvalue
    rw [all_cons, Bool.and_eq_true, id, hfirst.finite, hflags]
    simp

theorem follows_array {scan : Reader Bool} (hlasting : Lasting fits)
    (hread : ∀ heap, Follows read scan heap (Received fits depth))
    (hfits : ∀ next handle values, next.get handle = .ok (.array values) →
      values.length < 2 ^ 32 → (∀ value ∈ values, fits next value) → fits' next (.heap handle)) :
    Follows (do
        let length ← readLen
        let items ← Decode.times read length
        alloc (.array items))
      (do
        let length ← readLen
        let flags ← Decode.times scan length
        return flags.all id) heap (Received fits' (depth + 1)) := by
  refine reads_readLen.follows_bind fun length hlength => ?_
  refine (follows_times (fun _ _ _ _ hkeeps h => h.keeps hlasting hkeeps) hread length).bind ?_
  rintro middle values flags - ⟨hcount, hvalues⟩
  refine follows_alloc fun next handle hkeeps hget => ?_
  have hvalues' : Forall₂ (Received fits depth next) values flags :=
    List.Forall₂.imp (fun _ _ h => h.keeps hlasting hkeeps) hvalues
  obtain ⟨hall, hflags⟩ := received_list hvalues'
  refine received_node hget (fun value hvalue => (hall value hvalue).1) hflags ?_
  exact hfits next handle values hget (by omega) fun value hvalue => (hall value hvalue).2

end Received

/-- The entries that were read so far, at most `count` of them, with the answers. -/
structure EntriesReceived (K : String → Prop) (fits : String → RequestHeap → RuntimeValue → Prop)
    (depth count : Nat) (heap : RequestHeap) (entries : OrdMap String RuntimeValue)
    (flags : OrdMap String Bool) : Prop where
  size : entries.size ≤ count
  keys : ∀ key ∈ entries.keys, K key
  values : ∀ key value, entries.get? key = some value → ∃ flag, flags.get? key = some flag ∧
    Received (fits key) depth heap value flag
  flags : ∀ key flag, flags.get? key = some flag → ∃ value, entries.get? key = some value ∧
    Received (fits key) depth heap value flag

section Entries

variable {K : String → Prop} {fits : String → RequestHeap → RuntimeValue → Prop}
variable {depth count : Nat} {heap next : RequestHeap}
variable {entries : OrdMap String RuntimeValue} {flags : OrdMap String Bool}

theorem entriesReceived_empty : EntriesReceived K fits depth 0 heap ∅ ∅ where
  size := Nat.le_refl 0
  keys := fun _ hkey => nomatch hkey
  values := fun _ _ hvalue => nomatch hvalue
  flags := fun _ _ hflag => nomatch hflag

theorem size_insert_le (entries : OrdMap String RuntimeValue) (key : String)
    (value : RuntimeValue) : (entries.insert key value).size ≤ entries.size + 1 := by
  have hsize : ∀ m : OrdMap String RuntimeValue, m.weight (fun _ _ => 1) = m.size := by
    intro m
    simp [weight, size]
  have hweight := weight_insert (fun _ _ => 1) entries key value
  rw [hsize, hsize] at hweight
  omega

theorem EntriesReceived.keeps (hlasting : ∀ key, Lasting (fits key)) (hkeeps : heap.Keeps next)
    (h : EntriesReceived K fits depth count heap entries flags) :
    EntriesReceived K fits depth count next entries flags := by
  refine ⟨h.size, h.keys, fun key value hvalue => ?_, fun key flag hflag => ?_⟩
  · obtain ⟨flag, hflag, hreceived⟩ := h.values key value hvalue
    exact ⟨flag, hflag, hreceived.keeps (hlasting key) hkeeps⟩
  obtain ⟨value, hvalue, hreceived⟩ := h.flags key flag hflag
  exact ⟨value, hvalue, hreceived.keeps (hlasting key) hkeeps⟩

section

variable (h : EntriesReceived K fits depth count heap entries flags)
include h

theorem EntriesReceived.insert {key : String} {value : RuntimeValue} {flag : Bool} (hkey : K key)
    (hvalue : Received (fits key) depth heap value flag) :
    EntriesReceived K fits depth (count + 1) heap (entries.insert key value)
      (flags.insert key flag) := by
  refine ⟨?_, fun other hother => ?_, fun other value' hvalue' => ?_, fun other flag' hflag' => ?_⟩
  · have hsize := h.size
    have hinsert := size_insert_le entries key value
    omega
  · by_cases hsame : other = key
    · exact hsame ▸ hkey
    obtain ⟨found, hfound⟩ := mem_keys_iff.mp hother
    rw [get?_insert_of_ne _ _ hsame] at hfound
    exact h.keys other (mem_keys_iff.mpr ⟨found, hfound⟩)
  · by_cases hsame : other = key
    · subst hsame
      rw [get?_insert_self] at hvalue' ⊢
      cases hvalue'
      exact ⟨flag, rfl, hvalue⟩
    rw [get?_insert_of_ne _ _ hsame] at hvalue' ⊢
    exact h.values other value' hvalue'
  by_cases hsame : other = key
  · subst hsame
    rw [get?_insert_self] at hflag' ⊢
    cases hflag'
    exact ⟨value, rfl, hvalue⟩
  rw [get?_insert_of_ne _ _ hsame] at hflag' ⊢
  exact h.flags other flag' hflag'

theorem EntriesReceived.finite :
    flags.values.all id = true ↔ ∀ value ∈ entries.values, ¬ NonFinite heap value := by
  rw [all_eq_true]
  constructor
  · intro hflags value hvalue
    obtain ⟨key, hget⟩ := mem_values_iff.mp hvalue
    obtain ⟨flag, hflag, hreceived⟩ := h.values key value hget
    exact hreceived.finite.mp (hflags flag (mem_values_iff.mpr ⟨key, hflag⟩))
  intro hvalues flag hflag
  obtain ⟨key, hget⟩ := mem_values_iff.mp hflag
  obtain ⟨value, hvalue, hreceived⟩ := h.flags key flag hget
  exact hreceived.finite.mpr (hvalues value (mem_values_iff.mpr ⟨key, hvalue⟩))

/-- The entries behind their node. -/
theorem EntriesReceived.node {fits' : RequestHeap → RuntimeValue → Prop} {node : HeapNode}
    (hget : heap.get handle = .ok node) (hnode : childValues node = entries.values)
    (hfits : fits' heap (.heap handle)) :
    Received fits' (depth + 1) heap (.heap handle) (flags.values.all id) := by
  refine received_node hget ?_ ?_ hfits
  · rw [hnode]
    intro value hvalue
    obtain ⟨key, hvalue⟩ := mem_values_iff.mp hvalue
    obtain ⟨_, -, hreceived⟩ := h.values key value hvalue
    exact hreceived.rooted
  rw [hnode]
  exact h.finite

end

theorem follows_entries {fits fits' : RequestHeap → RuntimeValue → Prop} {readKey : Reader String}
    {scan : Reader Bool} (hlasting : Lasting fits) (hkey : Reads readKey K)
    (hread : ∀ heap, Follows read scan heap (Received fits depth))
    (toNode : OrdMap String RuntimeValue → HeapNode)
    (hnode : ∀ entries, childValues (toNode entries) = entries.values)
    (hfits : ∀ (next : RequestHeap) handle entries, next.get handle = .ok (toNode entries) →
      entries.size < 2 ^ 32 → (∀ key ∈ entries.keys, K key) →
      (∀ value ∈ entries.values, fits next value) → fits' next (.heap handle)) :
    Follows (decodeEntries readKey read >>= fun entries => alloc (toNode entries))
      (finiteEntries readKey scan) heap (Received fits' (depth + 1)) := by
  rw [decodeEntries, bind_assoc]
  refine reads_readLen.follows_bind fun length hlength => ?_
  have hstep : ∀ (done : Nat) (heap : RequestHeap) (entries : OrdMap String RuntimeValue)
      (flags : OrdMap String Bool),
      EntriesReceived K (fun _ => fits) depth done heap entries flags →
      Follows (do
          let key ← readKey
          let value ← read
          return entries.insert key value)
        (do
          let key ← readKey
          let flag ← scan
          return flags.insert key flag) heap
        (EntriesReceived K (fun _ => fits) depth (done + 1)) := by
    intro done heap entries flags h
    refine hkey.follows_bind fun key hK => (hread heap).bind fun next value flag hkeeps hvalue => ?_
    exact follows_pure ((h.keeps (fun _ => hlasting) hkeeps).insert hK hvalue)
  have hloop := follows_fold hstep length (@entriesReceived_empty K (fun _ => fits) depth heap)
  refine hloop.bind fun middle entries flags _ h => ?_
  refine follows_alloc fun next handle hkeeps hget => ?_
  have h' := h.keeps (fun _ => hlasting) hkeeps
  refine h'.node hget (hnode entries) (hfits next handle entries hget ?_ h'.keys ?_)
  · have hsize := h'.size
    omega
  intro value hvalue
  obtain ⟨key, hvalue⟩ := mem_values_iff.mp hvalue
  obtain ⟨_, -, hreceived⟩ := h'.values key value hvalue
  exact hreceived.fits

end Entries

/-! ## The decoders -/

theorem rejectReserved_eq_ok {key : String} (h : rejectReservedLegacyMetadataKey key = .ok ()) :
    key ≠ reservedKey := by
  rintro rfl
  cases h

theorem reads_key {text : String} (hlength : (utf8 text).length < 2 ^ 32) :
    Reads (do
      Decode.ofExcept (rejectReservedLegacyMetadataKey text)
      return text) KeyFits := by
  have hcheck : Reads (Decode.ofExcept (rejectReservedLegacyMetadataKey text))
      fun _ => text ≠ reservedKey := reads_ofExcept fun _ h => rejectReserved_eq_ok h
  exact hcheck.bind fun _ hkey => reads_pure ⟨hkey, hlength⟩

theorem reads_readObjectKey : Reads readObjectKey KeyFits :=
  reads_readStringRaw.bind fun _ hlength => reads_key hlength

theorem reads_readRuntimeKeyAny : Reads readRuntimeKeyAny KeyFits := by
  refine reads_readU8.bind fun tag _ => ?_
  split
  · exact reads_readStringRaw.bind fun _ hlength => reads_key hlength
  · exact reads_fail _

theorem reads_readRuntimeKey (keyType : RuntimeTypePlan) :
    Reads (readRuntimeKey keyType) fun key => KeyFits key ∧ mapKeyCheck keyType = .ok () := by
  refine reads_readStringRaw.bind fun text hlength => ?_
  have hreserved : Reads (Decode.ofExcept (rejectReservedLegacyMetadataKey text))
      fun _ => text ≠ reservedKey := reads_ofExcept fun _ h => rejectReserved_eq_ok h
  have hkey : Reads (Decode.ofExcept (mapKeyCheck keyType))
      fun _ => mapKeyCheck keyType = .ok () := reads_ofExcept fun _ h => h
  exact hreserved.bind fun _ hname => hkey.bind fun _ hcheck =>
    reads_pure ⟨⟨hname, hlength⟩, hcheck⟩

theorem validateEpochMillis_eq_ok {millis : BitVec 64} {target : String}
    (h : validateEpochMillis millis target = .ok ()) : isValidEpochMillis millis = true := by
  unfold validateEpochMillis at h
  split at h
  case isTrue hvalid => exact hvalid
  case isFalse => cases h

theorem reads_decodeDatePayload : Reads decodeDatePayload fun value =>
    ∃ millis, value = .date millis ∧ isValidEpochMillis millis = true := by
  refine reads_read64.bind fun millis _ => ?_
  have hcheck : Reads (Decode.ofExcept (validateEpochMillis millis "runtime payload Date"))
      fun _ => isValidEpochMillis millis = true :=
    reads_ofExcept fun _ h => validateEpochMillis_eq_ok h
  exact hcheck.bind fun _ hvalid => reads_pure ⟨millis, rfl, hvalid⟩

theorem reads_decodeDateValue : Reads decodeDateValue fun value =>
    ∃ millis, value = .date millis ∧ isValidEpochMillis millis = true :=
  (reads_expectTag tagDate).bind fun _ _ => reads_decodeDatePayload

theorem reads_decodeStringValue : Reads decodeStringValue fun value =>
    ∃ text, value = .string text ∧ (utf8 text).length < 2 ^ 32 :=
  (reads_expectTag tagString).bind fun _ _ =>
    reads_readStringRaw.bind fun text hlength => reads_pure ⟨text, rfl, hlength⟩

theorem reads_decodeNumberValue : Reads decodeNumberValue fun value =>
    ∃ bits, value = .number bits ∧ isFinite bits = true := by
  refine (reads_expectTag tagNumber).bind fun _ _ => reads_read64.bind fun bits _ => ?_
  split
  case isTrue hbits => exact reads_pure ⟨bits, rfl, hbits⟩
  case isFalse => exact reads_fail _

theorem lasting_fitsAny : Lasting FitsAny := fun _ _ _ hkeeps h => h.keeps hkeeps

theorem lasting_fitsTyped (plan : RuntimeTypePlan) : Lasting fun heap => FitsTyped heap plan :=
  fun _ _ _ hkeeps h => h.keeps hkeeps

theorem follows_decodeAny (plan : RuntimeTypePlan) (fuel : Nat) (heap : RequestHeap) :
    Follows (decodeAny plan fuel) (finiteAny fuel) heap (Received FitsAny fuel) := by
  induction fuel generalizing heap with
  | zero => exact follows_fail _ _
  | succ fuel ih =>
    rw [decodeAny, finiteAny]
    refine reads_readU8.follows_bind fun tag _ => ?_
    by_cases hnull : tag = tagNull
    · subst hnull
      exact follows_pure (received_leaf .null trivial nofun)
    by_cases hfalse : tag = tagBoolFalse
    · subst hfalse
      exact follows_pure (received_leaf .bool trivial nofun)
    by_cases htrue : tag = tagBoolTrue
    · subst htrue
      exact follows_pure (received_leaf .bool trivial nofun)
    rw [if_neg hnull, if_neg hfalse, if_neg htrue]
    split
    case isTrue =>
      exact reads_read64.follows_bind fun bits _ => follows_pure (received_number .number)
    case isFalse =>
    split
    case isTrue =>
      refine reads_readStringRaw.follows_bind fun text hlength => follows_pure ?_
      exact received_leaf (.string hlength) trivial nofun
    case isFalse =>
    split
    case isTrue =>
      refine reads_decodeDatePayload.follows ?_
      rintro _ ⟨millis, rfl, hvalid⟩
      exact received_leaf (.date hvalid) trivial nofun
    case isFalse =>
    split
    case isTrue =>
      refine reads_readBytesRaw.follows_bind fun content hlength => ?_
      refine follows_alloc fun next handle _ hget => ?_
      exact received_node hget nofun (by simp [childValues]) (.bytes hget hlength)
    case isFalse =>
    split
    case isTrue =>
      exact follows_array lasting_fitsAny ih fun _ _ _ hget hlength hall => .array hget hlength hall
    case isFalse =>
    split
    case isTrue =>
      exact follows_entries lasting_fitsAny reads_readObjectKey ih .object (fun _ => rfl)
        fun _ _ _ hget hsize hkeys hall => .object hget hsize hkeys hall
    case isFalse =>
    split
    case isTrue =>
      exact follows_entries lasting_fitsAny reads_readRuntimeKeyAny ih .map (fun _ => rfl)
        fun _ _ _ hget hsize hkeys hall => .map hget hsize hkeys hall
    case isFalse =>
    split
    · exact follows_fail _ _
    · exact follows_fail _ _

section Record

variable {fields : List RuntimeRecordFieldPlan} {fuel : Nat} {plan : RuntimeTypePlan}

/-- What the fields of a record fit, by name. -/
def FieldFits (fields : List RuntimeRecordFieldPlan) (key : String) (heap : RequestHeap)
    (value : RuntimeValue) : Prop :=
  ∀ field ∈ fields, RuntimeRecordFieldPlan.name field = key → FitsTyped heap (ty field) value

theorem lasting_fieldFits (key : String) : Lasting (FieldFits fields key) :=
  fun _ _ _ hkeeps h field hfield hname => (h field hfield hname).keeps hkeeps

theorem mem_of_fieldsByName (hnodup : (fields.map RuntimeRecordFieldPlan.name).Nodup)
    {name : String} {field : RuntimeRecordFieldPlan}
    (h : (fieldsByName fields).get? name = some field) :
    field ∈ fields ∧ RuntimeRecordFieldPlan.name field = name := by
  have hkeys : ((fields.map fun field => (RuntimeRecordFieldPlan.name field, field)).map
      Prod.fst).Nodup := by
    rw [map_map]
    exact hnodup
  obtain ⟨other, hother, heq⟩ := mem_map.mp (mem_of_get?_ofList hkeys h)
  cases heq
  exact ⟨hother, rfl⟩

theorem follows_decodeField (hnodup : (fields.map RuntimeRecordFieldPlan.name).Nodup)
    (hread : ∀ field ∈ fields, ∀ heap, Follows (decodeTyped fuel (ty field))
      (finiteTyped fuel (ty field)) heap
      (Received (fun heap => FitsTyped heap (ty field)) fuel))
    (done : Nat) (heap : RequestHeap) (object : OrdMap String RuntimeValue)
    (flags : OrdMap String Bool)
    (h : EntriesReceived (fun key => KeyFits key ∧ key ∈ fields.map RuntimeRecordFieldPlan.name)
      (FieldFits fields) fuel done heap object flags) :
    Follows (decodeField (decodeTyped fuel) fields object)
      (finiteField (finiteTyped fuel) fields flags) heap
      (EntriesReceived (fun key => KeyFits key ∧ key ∈ fields.map RuntimeRecordFieldPlan.name)
        (FieldFits fields) fuel (done + 1)) := by
  refine reads_readStringRaw.follows_bind fun name hlength => ?_
  refine follows_ofExcept_bind fun _ hreserved => ?_
  cases hfound : (fieldsByName fields).get? name with
  | none => exact follows_fail _ _
  | some field =>
    obtain ⟨hmem, hname⟩ := mem_of_fieldsByName hnodup hfound
    refine (hread field hmem heap).bind fun next value flag hkeeps hvalue => follows_pure ?_
    refine (h.keeps lasting_fieldFits hkeeps).insert ?_ ?_
    · rw [hname]
      exact ⟨⟨rejectReserved_eq_ok hreserved, hlength⟩, hname ▸ mem_map_of_mem hmem⟩
    refine ⟨hvalue.rooted, fun other hother hsame => ?_, hvalue.finite⟩
    -- Names are distinct, so the field read is the only one of that name.
    have heq : other = field := inj_on_of_nodup_map hnodup hother hmem hsame
    subst heq
    exact hvalue.fits

theorem follows_record (hnode : boundaryTypeNode plan = .record fields)
    (hnodup : (fields.map RuntimeRecordFieldPlan.name).Nodup)
    (hread : ∀ field ∈ fields, ∀ heap, Follows (decodeTyped fuel (ty field))
      (finiteTyped fuel (ty field)) heap
      (Received (fun heap => FitsTyped heap (ty field)) fuel))
    (heap : RequestHeap) :
    Follows (do
        let object ← decodeFields (decodeTyped fuel) fields
        Decode.ofExcept (requireFields object.contains fields)
        alloc (.object object))
      (do
        let length ← readLen
        let flags ← Decode.fold (finiteField (finiteTyped fuel) fields) length ∅
        return flags.values.all id) heap
      (Received (fun heap => FitsTyped heap plan) (fuel + 1)) := by
  rw [decodeFields, bind_assoc]
  refine reads_readLen.follows_bind fun length hlength => ?_
  have hloop := follows_fold (follows_decodeField hnodup hread) length
    (@entriesReceived_empty _ (FieldFits fields) fuel heap)
  refine hloop.bind fun middle object flags _ h => ?_
  refine follows_ofExcept_bind fun _ hrequired => follows_alloc fun next handle hkeeps hget => ?_
  have h' := h.keeps lasting_fieldFits hkeeps
  refine h'.node hget rfl
    (.record hnode hget ?_ h'.keys (fun field hfield value hvalue => ?_) hrequired)
  · have hsize := h'.size
    omega
  obtain ⟨_, -, hreceived⟩ := h'.values _ value hvalue
  exact hreceived.fits field hfield rfl

end Record

theorem follows_decodeTyped (fuel : Nat) {plan : RuntimeTypePlan} (hplan : plan.DistinctFields)
    (heap : RequestHeap) :
    Follows (decodeTyped fuel plan) (finiteTyped fuel plan) heap
      (Received (fun heap => FitsTyped heap plan) fuel) := by
  induction fuel generalizing plan heap with
  | zero => exact follows_fail _ _
  | succ fuel ih =>
    have hdistinct := distinct_boundaryTypeNode hplan
    have hleaf : ∀ {heap : RequestHeap} {value : RuntimeValue},
        LeafFits (boundaryTypeNode plan) value → FitsTyped heap plan value := fun h => .leaf h
    rw [decodeTyped, finiteTyped]
    cases hnode : boundaryTypeNode plan <;> rw [hnode] at hdistinct hleaf
    case nullable inner =>
      refine reads_readU8.follows_bind fun tag _ => ?_
      by_cases hzero : tag = 0
      · subst hzero
        exact follows_pure (received_leaf (hleaf .nullable) trivial nofun)
      rw [if_neg hzero]
      split
      · exact (ih hdistinct heap).mono fun _ _ _ h => h.imp (.nullable hnode)
      · exact follows_fail _ _
    case union types =>
      refine reads_readU8.follows_bind fun branch _ => ?_
      cases hty : types[branch.toNat]? with
      | none => exact follows_fail _ _
      | some ty =>
        have hmem := mem_of_getElem? hty
        exact (ih (hdistinct ty hmem) heap).mono fun _ _ _ h => h.imp (.union hnode hmem)
    case literalString literal =>
      refine reads_decodeStringValue.follows_bind ?_
      rintro _ ⟨text, rfl, hlength⟩
      split
      case isTrue heq =>
        cases heq
        exact follows_pure (received_leaf (hleaf (.literalString hlength)) trivial nofun)
      case isFalse => exact follows_fail _ _
    case json =>
      exact (follows_decodeAny plan fuel heap).mono fun _ _ _ h => h.imp (.any (.inl hnode))
    case jsonObject =>
      exact (follows_decodeAny plan fuel heap).mono fun _ _ _ h => h.imp (.any (.inr hnode))
    case bytes =>
      refine (reads_expectTag tagBytes).follows_bind fun _ _ => ?_
      refine reads_readBytesRaw.follows_bind fun content hlength => ?_
      refine follows_alloc fun next handle _ hget => ?_
      exact received_node hget nofun (by simp [childValues]) (.bytes hnode hget hlength)
    case date =>
      refine reads_decodeDateValue.follows ?_
      rintro _ ⟨millis, rfl, hvalid⟩
      exact received_leaf (hleaf (.date hvalid)) trivial nofun
    case string =>
      refine reads_decodeStringValue.follows ?_
      rintro _ ⟨text, rfl, hlength⟩
      exact received_leaf (hleaf (.string hlength)) trivial nofun
    case bool =>
      refine reads_readU8.follows_bind fun tag _ => ?_
      split
      · exact follows_pure (received_leaf (hleaf .bool) trivial nofun)
      split
      · exact follows_pure (received_leaf (hleaf .bool) trivial nofun)
      · exact follows_fail _ _
    case integer =>
      refine reads_decodeNumberValue.follows ?_
      rintro _ ⟨bits, rfl, hfinite⟩
      have hreceived := @received_number (fun heap => FitsTyped heap plan) fuel heap bits
        (hleaf (.integer hfinite))
      rwa [hfinite] at hreceived
    case number =>
      refine reads_decodeNumberValue.follows ?_
      rintro _ ⟨bits, rfl, hfinite⟩
      have hreceived := @received_number (fun heap => FitsTyped heap plan) fuel heap bits
        (hleaf (.number hfinite))
      rwa [hfinite] at hreceived
    case null =>
      refine (reads_expectTag tagNull).follows_bind fun _ _ => follows_pure ?_
      exact received_leaf (hleaf .null) trivial nofun
    case stream item | unknown => exact follows_fail _ _
    case array item =>
      refine (reads_expectTag tagArray).follows_bind fun _ _ => ?_
      exact follows_array (lasting_fitsTyped item) (ih hdistinct)
        fun _ _ _ hget hlength hall => .array hnode hget hlength hall
    case map key item =>
      refine (reads_expectTag tagMap).follows_bind fun _ _ => ?_
      exact follows_entries (lasting_fitsTyped item) (reads_readRuntimeKey key) (ih hdistinct)
        .map (fun _ => rfl) fun _ _ _ hget hsize hkeys hall => .map hnode hget hsize hkeys hall
    case record fields =>
      refine (reads_expectTag tagObject).follows_bind fun _ _ => ?_
      exact follows_record hnode hdistinct.1
        (fun field hfield => ih (hdistinct.2 field hfield)) heap

end Skiff.Runtime
