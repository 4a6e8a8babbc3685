import Skiff.Runtime.Payload
import Skiff.Runtime.SameValue

/-!
# What was written is read back

The proof follows the encoder: a successful step appended some bytes, and the decoder of
the same shape takes exactly these off any input that starts with them and rebuilds the
value in any heap with room for it (`Restores`). Failed union branches leave no trace,
because no writer ever removes what was in the buffer before it (`Grows`).

The untyped half of the codec is settled here, for values of every depth.
-/

namespace Skiff.Runtime

open Wire Mut Encode Decode OrdMap List

/-! ## Writers only append -/

variable {writeKey : String → Writer} {output written : List UInt8}

variable (key : String) {encode : RuntimeValue → Writer}

section Grows

variable {heap : RequestHeap} {expected : RuntimeTypePlan}

theorem grows_writeTag (tag : UInt8) : Grows (writeTag tag) := grows_write [tag]

theorem grows_writeLen (length : Nat) : Grows (writeLen length) := by
  unfold writeLen
  split
  · exact grows_write _
  · exact grows_fail _

theorem grows_writeBytesRaw (bytes : List UInt8) : Grows (writeBytesRaw bytes) :=
  (grows_writeLen _).bind fun _ => grows_write bytes

theorem grows_writeString (text : String) : Grows (writeString text) :=
  (grows_writeTag _).bind fun _ => grows_writeBytesRaw _

theorem grows_writeNumber (bits : BitVec 64) : Grows (writeNumber bits) :=
  (grows_writeTag _).bind fun _ => grows_write _

theorem grows_writeDate (millis : BitVec 64) : Grows (writeDate millis) :=
  (grows_ofExcept _).bind fun _ => (grows_writeTag _).bind fun _ => grows_write _

theorem grows_writeBool (value : Bool) : Grows (writeBool value) := by
  cases value <;> exact grows_writeTag _

theorem grows_encodeLiteral (literal : String) (value : RuntimeValue) :
    Grows (encodeLiteral literal value) := by
  unfold encodeLiteral
  split
  · split
    · exact grows_writeString _
    · exact grows_fail _
  · exact grows_fail _

variable (value : RuntimeValue)

theorem grows_encodeDate : Grows (encodeDate value) := by
  cases value with
  | date millis => exact grows_writeDate millis
  | _ => exact grows_fail _

theorem grows_encodeString : Grows (encodeString value) := by
  cases value with
  | string text => exact grows_writeString text
  | _ => exact grows_fail _

theorem grows_encodeBool : Grows (encodeBool value) := by
  cases value with
  | bool flag => exact grows_writeBool flag
  | _ => exact grows_fail _

theorem grows_encodeNumber : Grows (encodeNumber value) := by
  unfold encodeNumber
  split
  · split
    · exact grows_writeNumber _
    · exact grows_fail _
  · exact grows_fail _

theorem grows_encodeNull : Grows (encodeNull value) := by
  cases value with
  | null => exact grows_writeTag _
  | _ => exact grows_fail _

theorem grows_writeRuntimeKey (keyType : RuntimeTypePlan) (key : String) :
    Grows (writeRuntimeKey keyType key) :=
  (grows_ofExcept _).bind fun _ => (grows_ofExcept _).bind fun _ => grows_writeBytesRaw _

theorem grows_writeRuntimeKeyAny : Grows (writeRuntimeKeyAny key) :=
  (grows_ofExcept _).bind fun _ => (grows_write _).bind fun _ => grows_writeBytesRaw _

theorem grows_encodeEntries
    (hkey : ∀ key, Grows (writeKey key)) (hencode : ∀ value, Grows (encode value))
    (entries : OrdMap String RuntimeValue) : Grows (encodeEntries writeKey encode entries) :=
  (grows_writeLen _).bind fun _ =>
    grows_each fun entry _ => (hkey entry.1).bind fun _ => hencode entry.2

theorem grows_encodeAny (fuel : Nat) (value : RuntimeValue) :
    Grows (encodeAny heap expected fuel value) := by
  induction fuel generalizing value with
  | zero => exact grows_fail _
  | succ fuel ih =>
    cases value with
    | null => exact grows_writeTag _
    | bool value => exact grows_writeBool value
    | number bits =>
      rw [encodeAny]
      split
      · exact grows_writeNumber bits
      · exact grows_fail _
    | date millis => exact grows_writeDate millis
    | string text => exact grows_writeString text
    | actorRef actor => exact grows_fail _
    | heap handle =>
      rw [encodeAny]
      refine (grows_ofExcept _).bind fun node => ?_
      cases node with
      | bytes content => exact (grows_writeTag _).bind fun _ => grows_writeBytesRaw _
      | array items =>
        exact (grows_writeTag _).bind fun _ => (grows_writeLen _).bind fun _ =>
          grows_each fun item _ => ih item
      | object fields =>
        exact (grows_writeTag _).bind fun _ => grows_encodeEntries
          (fun _ => (grows_ofExcept _).bind fun _ => grows_writeBytesRaw _) ih fields
      | map entries =>
        exact (grows_writeTag _).bind fun _ =>
          grows_encodeEntries grows_writeRuntimeKeyAny ih entries
      | interface carrier | exception bytes => exact grows_fail _

variable {encode : RuntimeTypePlan → Writer}

/-- A union leaves the buffer as it was, up to an index and the bytes of a branch. -/
theorem grows_encodeBranches
    (h : ∀ ty, Grows (encode ty)) (types : List RuntimeTypePlan) (index : Nat)
    (errors : List String) : Grows (encodeBranches encode types index errors) := by
  induction types generalizing index errors with
  | nil => exact grows_fail _
  | cons ty rest ih =>
    intro output
    obtain ⟨bytes, hbytes⟩ := h ty output
    rw [encodeBranches]
    dsimp only
    split
    case h_1 written heq =>
      have hwritten : written = output ++ bytes := by rw [← hbytes, heq]
      exact ⟨UInt8.ofNat index :: bytes, by rw [hwritten, insertIdx_append]⟩
    case h_2 written heq => exact ⟨bytes, by rw [← hbytes, heq]⟩
    case h_3 error written heq =>
      have hwritten : written = output ++ bytes := by rw [← hbytes, heq]
      rw [hwritten, take_left]
      exact ih _ _ output

/-- A union that succeeds wrote the index of a branch and what this branch writes. -/
theorem encodeBranches_eq_ok (h : ∀ ty, Grows (encode ty))
    {types : List RuntimeTypePlan} {index : Nat} {errors : List String}
    (hok : encodeBranches encode types index errors output = (.ok (), written)) :
    ∃ i ty bytes, types[i]? = some ty ∧ encode ty output = (.ok (), output ++ bytes) ∧
      written = output ++ UInt8.ofNat (index + i) :: bytes := by
  induction types generalizing index errors with
  | nil => cases hok
  | cons ty rest ih =>
    obtain ⟨bytes, hbytes⟩ := h ty output
    rw [encodeBranches] at hok
    dsimp only at hok
    split at hok
    case h_1 middle heq =>
      have hmiddle : middle = output ++ bytes := by rw [← hbytes, heq]
      cases hok
      refine ⟨0, ty, bytes, rfl, by rw [heq, hmiddle], ?_⟩
      rw [hmiddle, insertIdx_append, Nat.add_zero]
    case h_2 middle heq => cases hok
    case h_3 error middle heq =>
      have hmiddle : middle = output ++ bytes := by rw [← hbytes, heq]
      rw [hmiddle, take_left] at hok
      obtain ⟨i, branch, branchBytes, hbranch, hencode, hwritten⟩ := ih hok
      refine ⟨i + 1, branch, branchBytes, hbranch, hencode, ?_⟩
      rw [hwritten, Nat.add_assoc, Nat.add_comm 1]

theorem grows_encodeFields {encode : RuntimeTypePlan → RuntimeValue → Writer}
    (h : ∀ ty value, Grows (encode ty value)) (source : OrdMap String RuntimeValue)
    (fields : List RuntimeRecordFieldPlan) : Grows (encodeFields encode source fields) := by
  refine (grows_writeLen _).bind fun _ => grows_each fun field _ => ?_
  unfold encodeField
  refine (grows_writeBytesRaw _).bind fun _ => ?_
  cases source.get? field.name with
  | none => exact grows_pure ()
  | some value => exact h _ value

theorem grows_encodeTyped (fuel : Nat) (plan : RuntimeTypePlan) (value : RuntimeValue) :
    Grows (encodeTyped heap fuel plan value) := by
  induction fuel generalizing plan value with
  | zero => exact grows_fail _
  | succ fuel ih =>
    rw [encodeTyped]
    refine (grows_ofExcept _).bind fun _ => ?_
    cases boundaryTypeNode plan with
    | nullable inner =>
      dsimp only
      split
      · exact grows_write _
      · exact (grows_write _).bind fun _ => ih _ _
    | union types =>
      dsimp only
      split
      · exact grows_fail _
      · exact grows_encodeBranches (fun ty => ih ty value) types 0 []
    | literalString literal => exact grows_encodeLiteral literal value
    | json | jsonObject => exact grows_encodeAny _ _
    | bytes =>
      exact (grows_ofExcept _).bind fun _ => (grows_writeTag _).bind fun _ => grows_writeBytesRaw _
    | date => exact grows_encodeDate value
    | string => exact grows_encodeString value
    | bool => exact grows_encodeBool value
    | integer | number => exact grows_encodeNumber value
    | null => exact grows_encodeNull value
    | stream item | unknown => exact grows_fail _
    | array item =>
      exact (grows_ofExcept _).bind fun items => (grows_writeTag _).bind fun _ =>
        (grows_writeLen _).bind fun _ => grows_each fun value _ => ih item value
    | map key item =>
      exact (grows_ofExcept _).bind fun entries => (grows_writeTag _).bind fun _ =>
        grows_encodeEntries (grows_writeRuntimeKey key) (ih item) entries
    | record fields =>
      exact (grows_ofExcept _).bind fun source => (grows_ofExcept _).bind fun _ =>
        (grows_writeTag _).bind fun _ => (grows_encodeFields ih source fields).bind fun _ =>
          grows_ofExcept _

end Grows

/-! ## Primitive writes and reads -/

variable {bytes : List UInt8} {tag : UInt8}

section Primitives

variable {output written : List UInt8}

/-- Bytes behind their length. -/
def rawBytes (bytes : List UInt8) : List UInt8 := leBytes 4 bytes.length ++ bytes

variable {done : Unit}

theorem writeLen_eq_ok {length : Nat} :
    writeLen length output = (.ok done, written) ↔
      length < 2 ^ 32 ∧ written = output ++ leBytes 4 length := by
  unfold writeLen
  by_cases h : length < 2 ^ 32
  · rw [if_pos h, write_eq_ok, and_iff_right h]
  rw [if_neg h]
  constructor
  · intro hfail
    cases hfail
  intro hok
  exact absurd hok.1 h

theorem writeBytesRaw_eq_ok :
    writeBytesRaw bytes output = (.ok done, written) ↔
      bytes.length < 2 ^ 32 ∧ written = output ++ rawBytes bytes := by
  simp only [writeBytesRaw, Mut.bind_eq_ok, writeLen_eq_ok, write_eq_ok]
  constructor
  · rintro ⟨_, _, ⟨hlength, rfl⟩, rfl⟩
    exact ⟨hlength, by rw [rawBytes, append_assoc]⟩
  rintro ⟨hlength, rfl⟩
  exact ⟨(), _, ⟨hlength, rfl⟩, by rw [rawBytes, append_assoc]⟩

variable {text : String}

theorem writeStringRaw_eq_ok :
    writeStringRaw text output = (.ok done, written) ↔
      (utf8 text).length < 2 ^ 32 ∧ written = output ++ rawBytes (utf8 text) :=
  writeBytesRaw_eq_ok

theorem writeTag_eq_ok : writeTag tag output = (.ok done, written) ↔ written = output ++ [tag] :=
  write_eq_ok

theorem writeString_eq_ok :
    writeString text output = (.ok done, written) ↔
      (utf8 text).length < 2 ^ 32 ∧ written = output ++ tagString :: rawBytes (utf8 text) := by
  simp only [writeString, Mut.bind_eq_ok, writeTag_eq_ok, writeStringRaw_eq_ok]
  constructor
  · rintro ⟨_, _, rfl, hlength, rfl⟩
    exact ⟨hlength, by simp⟩
  rintro ⟨hlength, rfl⟩
  exact ⟨(), _, rfl, hlength, by simp⟩

theorem writeNumber_eq_ok {bits : BitVec 64} :
    writeNumber bits output = (.ok done, written) ↔
      written = output ++ tagNumber :: leBytes 8 bits.toNat := by
  simp [writeNumber, write64, Mut.bind_eq_ok, writeTag_eq_ok, write_eq_ok]

theorem writeDate_eq_ok {millis : BitVec 64} :
    writeDate millis output = (.ok done, written) ↔
      validateEpochMillis millis "runtime payload Date" = .ok () ∧
        written = output ++ tagDate :: leBytes 8 millis.toNat := by
  simp only [writeDate, write64, Mut.bind_eq_ok, writeTag_eq_ok, write_eq_ok, ofExcept_eq_ok]
  constructor
  · rintro ⟨_, _, ⟨hvalid, rfl⟩, _, _, rfl, rfl⟩
    exact ⟨hvalid, by simp⟩
  rintro ⟨hvalid, rfl⟩
  exact ⟨(), _, ⟨hvalid, rfl⟩, (), _, rfl, by simp⟩

variable (heap : RequestHeap)

theorem readsAt_expectTag (tag : UInt8) : (expectTag tag).ReadsAt heap [tag] () heap := by
  refine (readsAt_readByte ended tag heap).bind ?_
  rw [if_pos rfl]
  exact readsAt_pure () heap

theorem readsAt_readLen {length : Nat} (h : length < 2 ^ 32) :
    readLen.ReadsAt heap (leBytes 4 length) length heap :=
  (readsAt_readExact ended (length_leBytes 4 length) heap).map (leNat_leBytes h)

theorem readsAt_readBytesRaw (h : bytes.length < 2 ^ 32) :
    readBytesRaw.ReadsAt heap (rawBytes bytes) bytes heap :=
  (readsAt_readLen heap h).bind (readsAt_readExact ended rfl heap)

theorem readsAt_readStringRaw (h : (utf8 text).length < 2 ^ 32) :
    readStringRaw.ReadsAt heap (rawBytes (utf8 text)) text heap := by
  intro rest
  change Decode.bind readBytesRaw _ _ _ = _
  rw [Decode.bind, readsAt_readBytesRaw heap h]
  simp only [fromUtf8_utf8]
  rfl

theorem readsAt_read64 (bits : BitVec 64) :
    read64.ReadsAt heap (leBytes 8 bits.toNat) bits heap := by
  refine (readsAt_readExact ended (length_leBytes 8 bits.toNat) heap).map ?_
  rw [leNat_leBytes bits.isLt, BitVec.ofNat_toNat, BitVec.setWidth_eq]

end Primitives

/-! ## Reading values back -/

/-- On any heap with room for the cost, the reader takes exactly `bytes`, allocates that
much, and returns a value with the property, of a fixed inline size. -/
def Restores (read : Reader RuntimeValue) (bytes : List UInt8) (cost : Cost) (inline : Nat)
    (P : RequestHeap → RuntimeValue → Prop) : Prop :=
  ∀ heap : RequestHeap, heap.HasRoom cost → ∃ value next, read.ReadsAt heap bytes value next ∧
    heap.Grown next cost ∧ estimateValueBytes value = inline ∧ P next value

/-- What a property of a value needs to be kept while the rest is read. -/
def Stable (P : RequestHeap → RuntimeValue → Prop) : Prop :=
  ∀ heap next cost value, heap.Grown next cost → P heap value → P next value

section Restores

variable {read : Reader RuntimeValue} {bytes : List UInt8} {cost : Cost} {inline : Nat}
variable {P Q : RequestHeap → RuntimeValue → Prop}

theorem restores_leaf (value : RuntimeValue)
    (h : ∀ heap, read.ReadsAt heap bytes value heap) (hP : ∀ heap, P heap value) :
    Restores read bytes 0 (estimateValueBytes value) P :=
  fun heap _ => ⟨value, heap, h heap, .refl heap, rfl, hP heap⟩

theorem Restores.mono (h : Restores read bytes cost inline P)
    (himp : ∀ heap value, P heap value → Q heap value) : Restores read bytes cost inline Q := by
  intro heap hroom
  obtain ⟨value, next, hreads, hgrown, hinline, hP⟩ := h heap hroom
  exact ⟨value, next, hreads, hgrown, hinline, himp next value hP⟩

/-- A step before the value that only reads. -/
theorem Restores.after {α : Type} {first : Reader α} {a : α} {rest : α → Reader RuntimeValue}
    {before : List UInt8} (hfirst : ∀ heap, first.ReadsAt heap before a heap)
    (h : Restores (rest a) bytes cost inline P) :
    Restores (first >>= rest) (before ++ bytes) cost inline P := by
  intro heap hroom
  obtain ⟨value, next, hreads, hgrown, hinline, hP⟩ := h heap hroom
  exact ⟨value, next, (hfirst heap).bind hreads, hgrown, hinline, hP⟩

/-- Contents that are read first and then allocated as one node. -/
theorem restores_alloc {α : Type} {contents : Reader α} {toNode : α → HeapNode} {size : Nat}
    {R : RequestHeap → α → Prop}
    (h : ∀ heap : RequestHeap, heap.HasRoom cost → ∃ a next, contents.ReadsAt heap bytes a next ∧
      heap.Grown next cost ∧ estimateHeapNodeBytes (toNode a) = size ∧ R next a)
    (hP : ∀ heap next grown handle a, heap.Grown next grown → R heap a →
      next.get handle = .ok (toNode a) → P next (.heap handle)) :
    Restores (contents >>= fun a => alloc (toNode a)) bytes (cost + ⟨1, size⟩) 8 P := by
  intro heap hroom
  obtain ⟨a, middle, hreads, hgrown, hsize, hR⟩ := h heap hroom.first
  have hnode : middle.HasRoom ⟨1, estimateHeapNodeBytes (toNode a)⟩ := by
    rw [hsize]
    exact hroom.second hgrown
  obtain ⟨handle, next, halloc, hnext, hget⟩ := RequestHeap.allocNode_eq_ok hnode
  rw [hsize] at hnext
  have hallocReads : (alloc (toNode a)).ReadsAt middle [] (.heap handle) next := by
    intro rest
    rw [alloc, halloc]
    rfl
  refine ⟨.heap handle, next, ?_, hgrown.trans hnext, rfl, hP middle next _ handle a hnext hR hget⟩
  exact hreads.bind_last hallocReads

end Restores

/-! ## Loops -/

/-- What was written for one item is read back, with the relation to the item. -/
def ItemRestores {ι : Type} (write : ι → Writer) (read : Reader RuntimeValue)
    (P : RequestHeap → ι → RuntimeValue → Prop) (item : ι) : Prop :=
  ∀ output written, write item output = (.ok (), written) →
    ∃ bytes cost inline, written = output ++ bytes ∧
      Restores read bytes cost inline (fun heap value => P heap item value)

variable {output written : List UInt8}

variable {read : Reader RuntimeValue} {items : List RuntimeValue}
variable {P : RequestHeap → RuntimeValue → RuntimeValue → Prop}

theorem each_restores_times {write : RuntimeValue → Writer} (hstable : ∀ item, Stable (P · item))
    (hitems : ∀ item ∈ items, ItemRestores write read P item)
    (h : Mut.each write items output = (.ok (), written)) :
    ∃ bytes cost size, written = output ++ bytes ∧
      ∀ heap : RequestHeap, heap.HasRoom cost → ∃ values next,
        (Decode.times read items.length).ReadsAt heap bytes values next ∧ heap.Grown next cost ∧
        (values.map estimateArrayItemBytes).sum = size ∧ items.length = values.length ∧
        ∀ (i : Nat) (x y : RuntimeValue), items[i]? = some x → values[i]? = some y →
          P next x y := by
  induction items generalizing output with
  | nil =>
    obtain ⟨-, rfl⟩ := Mut.pure_eq_ok.mp h
    refine ⟨[], 0, 0, by
      simp, fun heap _ => ⟨[], heap, readsAt_pure [] heap, .refl heap, rfl, rfl, ?_⟩⟩
    intro i x y hx
    simp at hx
  | cons item rest ih =>
    obtain ⟨_, middle, hwrite, hrest⟩ := Mut.bind_eq_ok.mp h
    obtain ⟨first, firstCost, inline, rfl, hfirst⟩ := hitems item (.head _) output middle hwrite
    obtain ⟨second, secondCost, size, rfl, hsecond⟩ :=
      ih (fun other hother => hitems other (.tail _ hother)) hrest
    refine ⟨first ++ second, firstCost + secondCost, 8 + inline + size, by rw [append_assoc],
      fun heap hroom => ?_⟩
    obtain ⟨value, afterFirst, hreads, hgrown, hinline, hP⟩ := hfirst heap hroom.first
    obtain ⟨values, next, hreads', hgrown', hsize, hlength, hall⟩ :=
      hsecond afterFirst (hroom.second hgrown)
    refine ⟨value :: values, next, ?_, hgrown.trans hgrown', ?_, by simp [hlength], ?_⟩
    · exact hreads.bind (hreads'.map rfl)
    · simp [estimateArrayItemBytes, hinline, hsize]
    intro i x y hx hy
    cases i with
    | zero =>
      cases hx
      cases hy
      exact hstable item _ _ _ _ hgrown' hP
    | succ i => exact hall i x y hx hy

/-- The same for an entry that a loop inserts under its key. -/
def EntryRestores {ι : Type} (write : ι → Writer)
    (step : OrdMap String RuntimeValue → Reader (OrdMap String RuntimeValue)) (key : ι → String)
    (P : RequestHeap → ι → RuntimeValue → Prop) (item : ι) : Prop :=
  ∀ output written, write item output = (.ok (), written) →
    ∃ bytes cost inline, written = output ++ bytes ∧
      ∀ heap : RequestHeap, heap.HasRoom cost → ∃ value next,
        (∀ entries, (step entries).ReadsAt heap bytes (entries.insert (key item) value) next) ∧
        heap.Grown next cost ∧ estimateValueBytes value = inline ∧ P next item value

theorem each_restores_fold {ι : Type} {write : ι → Writer}
    {step : OrdMap String RuntimeValue → Reader (OrdMap String RuntimeValue)} {key : ι → String}
    {P : RequestHeap → ι → RuntimeValue → Prop} (hstable : ∀ item, Stable (P · item))
    (overhead : String → Nat) {items : List ι} (hkeys : (items.map key).Nodup)
    (hitems : ∀ item ∈ items, EntryRestores write step key P item)
    (h : Mut.each write items output = (.ok (), written)) :
    ∃ bytes cost size, written = output ++ bytes ∧
      ∀ heap : RequestHeap, heap.HasRoom cost → ∀ entries : OrdMap String RuntimeValue,
        (∀ item ∈ items, entries.get? (key item) = none) → ∃ result next,
          (Decode.fold step items.length entries).ReadsAt heap bytes result next ∧
          heap.Grown next cost ∧
          result.weight (fun name value => overhead name + estimateValueBytes value) =
            entries.weight (fun name value => overhead name + estimateValueBytes value) + size ∧
          (∀ item ∈ items, ∃ value, result.get? (key item) = some value ∧ P next item value) ∧
          ∀ name, name ∉ items.map key → result.get? name = entries.get? name := by
  induction items generalizing output with
  | nil =>
    obtain ⟨-, rfl⟩ := Mut.pure_eq_ok.mp h
    refine ⟨[], 0, 0, by simp, fun heap _ entries _ => ?_⟩
    exact ⟨entries, heap, readsAt_pure entries heap, .refl heap, rfl, by simp, fun _ _ => rfl⟩
  | cons item rest ih =>
    obtain ⟨_, middle, hwrite, hrest⟩ := Mut.bind_eq_ok.mp h
    obtain ⟨hfresh, hnodup⟩ := nodup_cons.mp hkeys
    obtain ⟨first, firstCost, inline, rfl, hfirst⟩ := hitems item (.head _) output middle hwrite
    obtain ⟨second, secondCost, size, rfl, hsecond⟩ :=
      ih hnodup (fun other hother => hitems other (.tail _ hother)) hrest
    refine ⟨first ++ second, firstCost + secondCost, overhead (key item) + inline + size,
      by rw [append_assoc], fun heap hroom entries hnone => ?_⟩
    obtain ⟨value, afterFirst, hreads, hgrown, hinline, hP⟩ := hfirst heap hroom.first
    -- The keys that are left are not in the map with the new entry either.
    have hnone' : ∀ other ∈ rest, (entries.insert (key item) value).get? (key other) = none := by
      intro other hother
      have hne : key other ≠ key item := fun heq => hfresh (heq ▸ mem_map_of_mem hother)
      rw [get?_insert_of_ne _ _ hne]
      exact hnone other (.tail _ hother)
    obtain ⟨result, next, hreads', hgrown', hweight, hall, hother⟩ :=
      hsecond afterFirst (hroom.second hgrown) _ hnone'
    refine ⟨result, next, (hreads entries).bind hreads', hgrown.trans hgrown', ?_, ?_, ?_⟩
    · have hinsert := weight_insert
        (fun name value => overhead name + estimateValueBytes value) entries (key item) value
      rw [weightAt, hnone item mem_cons_self] at hinsert
      simp only [Option.elim_none, hinline] at hinsert
      omega
    · intro other hmem
      obtain rfl | hmem := mem_cons.mp hmem
      · refine ⟨value, ?_, hstable other _ _ _ _ hgrown' hP⟩
        rw [hother _ hfresh, get?_insert_self]
      · exact hall other hmem
    intro name hname
    simp only [map_cons, mem_cons, not_or] at hname
    rw [hother name hname.2, get?_insert_of_ne _ _ hname.1]

variable {entries : OrdMap String RuntimeValue}

/-- The entries of a map or an object, with a key written before each value. -/
theorem encodeEntries_restores {readKey : Reader String} (hstable : ∀ item, Stable (P · item))
    (hkey : ∀ key output written, writeKey key output = (.ok (), written) →
      ∃ bytes, written = output ++ bytes ∧ ∀ heap, readKey.ReadsAt heap bytes key heap)
    (hencode : ∀ value, ItemRestores encode read P value) (overhead : String → Nat)
    (h : encodeEntries writeKey encode entries output = (.ok (), written)) :
    ∃ bytes cost size, written = output ++ bytes ∧
      ∀ heap : RequestHeap, heap.HasRoom cost → ∃ result next,
        (decodeEntries readKey read).ReadsAt heap bytes result next ∧ heap.Grown next cost ∧
        result.weight (fun name value => overhead name + estimateValueBytes value) = size ∧
        (∀ key, entries.get? key = none ↔ result.get? key = none) ∧
        ∀ key x y, entries.get? key = some x → result.get? key = some y → P next x y := by
  obtain ⟨_, middle, hlen, hloop⟩ := Mut.bind_eq_ok.mp h
  obtain ⟨hbound, rfl⟩ := writeLen_eq_ok.mp hlen
  have hentry : ∀ entry ∈ entries.entries, EntryRestores
      (fun entry : String × RuntimeValue => do
        writeKey entry.1
        encode entry.2)
      (fun entries => do
        let key ← readKey
        let value ← read
        return entries.insert key value)
      Prod.fst (fun heap entry value => P heap entry.2 value) entry := by
    intro entry _ output written hwrite
    obtain ⟨_, afterKey, hwriteKey, hwriteValue⟩ := Mut.bind_eq_ok.mp hwrite
    obtain ⟨keyBytes, rfl, hreadKey⟩ := hkey entry.1 output afterKey hwriteKey
    obtain ⟨bytes, cost, inline, rfl, hrestores⟩ := hencode entry.2 _ written hwriteValue
    refine ⟨keyBytes ++ bytes, cost, inline, by rw [append_assoc], fun heap hroom => ?_⟩
    obtain ⟨value, next, hreads, hgrown, hinline, hP⟩ := hrestores heap hroom
    exact ⟨value, next, fun entries => (hreadKey heap).bind (hreads.map rfl), hgrown, hinline, hP⟩
  obtain ⟨bytes, cost, size, rfl, hfold⟩ := each_restores_fold
    (fun entry => hstable entry.2) overhead entries.nodup_keys hentry hloop
  refine ⟨leBytes 4 entries.size ++ bytes, cost, size, by rw [append_assoc],
    fun heap hroom => ?_⟩
  obtain ⟨result, next, hreads, hgrown, hweight, hall, hother⟩ := hfold heap hroom ∅ (by simp)
  refine ⟨result, next, (readsAt_readLen heap hbound).bind hreads, hgrown, by simpa using hweight,
    fun key => ?_, fun key x y hx hy => ?_⟩
  · by_cases hmem : key ∈ entries.keys
    · obtain ⟨x, hx⟩ := mem_keys_iff.mp hmem
      obtain ⟨y, hy, -⟩ := hall (key, x) (get?_eq_some_iff.mp hx)
      simp [hx, hy]
    have hnone : entries.get? key = none := by
      rw [Option.eq_none_iff_forall_ne_some]
      intro x hx
      exact hmem (mem_keys_iff.mpr ⟨x, hx⟩)
    simp [hnone, hother key hmem]
  obtain ⟨value, hvalue, hP⟩ := hall (key, x) (get?_eq_some_iff.mp hx)
  rw [hvalue] at hy
  cases hy
  exact hP

/-! ## Nodes -/

theorem tagged_eq_ok {rest : Writer} :
    (do writeTag tag; rest : Writer) output = (.ok (), written) ↔
      rest (output ++ [tag]) = (.ok (), written) := by
  simp only [Mut.bind_eq_ok, writeTag_eq_ok]
  constructor
  · rintro ⟨_, _, rfl, hrest⟩
    exact hrest
  intro hrest
  exact ⟨(), _, rfl, hrest⟩

section Nodes

variable {Q : RequestHeap → RuntimeValue → Prop}

theorem restores_bytes {content output written : List UInt8}
    (h : writeBytesRaw content output = (.ok (), written))
    (hQ : ∀ heap handle, heap.get handle = .ok (.bytes content) → Q heap (.heap handle)) :
    ∃ bytes cost, written = output ++ bytes ∧
      Restores (do
        let content ← readBytesRaw
        alloc (.bytes content)) bytes cost 8 Q := by
  obtain ⟨hlength, rfl⟩ := writeBytesRaw_eq_ok.mp h
  refine ⟨rawBytes content, 0 + ⟨1, nodeOverheadBytes + content.length⟩, rfl, ?_⟩
  refine restores_alloc (R := fun _ other => other = content) ?_ ?_
  · intro heap _
    exact ⟨content, heap, readsAt_readBytesRaw heap hlength, .refl heap, rfl, rfl⟩
  rintro heap next grown handle other - rfl hget
  exact hQ next handle hget

variable {write : RuntimeValue → Writer} {read : Reader RuntimeValue}
variable {P : RequestHeap → RuntimeValue → RuntimeValue → Prop}
variable {output written : List UInt8}

theorem restores_array (hstable : ∀ item, Stable (P · item))
    (hitems : ∀ item ∈ items, ItemRestores write read P item)
    (h : (do writeLen items.length; Mut.each write items : Writer) output = (.ok (), written))
    (hQ : ∀ heap handle values, heap.get handle = .ok (.array values) →
      items.length = values.length →
      (∀ (i : Nat) (x y : RuntimeValue), items[i]? = some x → values[i]? = some y → P heap x y) →
      Q heap (.heap handle)) :
    ∃ bytes cost, written = output ++ bytes ∧
      Restores (do
        let length ← readLen
        let items ← Decode.times read length
        alloc (.array items)) bytes cost 8 Q := by
  obtain ⟨_, middle, hlen, hloop⟩ := Mut.bind_eq_ok.mp h
  obtain ⟨hbound, rfl⟩ := writeLen_eq_ok.mp hlen
  obtain ⟨bytes, cost, size, rfl, htimes⟩ := each_restores_times hstable hitems hloop
  refine ⟨leBytes 4 items.length ++ bytes, cost + ⟨1, nodeOverheadBytes + size⟩,
    by rw [append_assoc], ?_⟩
  refine Restores.after (fun heap => readsAt_readLen heap hbound) ?_
  refine restores_alloc (R := fun heap values => items.length = values.length ∧
    ∀ (i : Nat) (x y : RuntimeValue), items[i]? = some x → values[i]? = some y → P heap x y) ?_ ?_
  · intro heap hroom
    obtain ⟨values, next, hreads, hgrown, hsize, hsame⟩ := htimes heap hroom
    exact ⟨values, next, hreads, hgrown, by rw [estimateHeapNodeBytes, hsize], hsame⟩
  rintro heap next grown handle values hgrown ⟨hlength, hall⟩ hget
  refine hQ next handle values hget hlength fun i x y hx hy => ?_
  exact hstable x _ _ _ _ hgrown (hall i x y hx hy)

/-- Objects and maps differ in what they count for an entry. -/
theorem restores_entries (hstable : ∀ item, Stable (P · item)) {readKey : Reader String}
    (hkey : ∀ key output written, writeKey key output = (.ok (), written) →
      ∃ bytes, written = output ++ bytes ∧ ∀ heap, readKey.ReadsAt heap bytes key heap)
    (hencode : ∀ value, ItemRestores write read P value)
    (toNode : OrdMap String RuntimeValue → HeapNode) (overhead : String → Nat)
    (hsize : ∀ entries, estimateHeapNodeBytes (toNode entries) = nodeOverheadBytes +
      entries.weight fun name value => overhead name + estimateValueBytes value)
    (h : encodeEntries writeKey write entries output = (.ok (), written))
    (hQ : ∀ heap handle result, heap.get handle = .ok (toNode result) →
      (∀ key, entries.get? key = none ↔ result.get? key = none) →
      (∀ key x y, entries.get? key = some x → result.get? key = some y → P heap x y) →
      Q heap (.heap handle)) :
    ∃ bytes cost, written = output ++ bytes ∧
      Restores (do
        let entries ← decodeEntries readKey read
        alloc (toNode entries)) bytes cost 8 Q := by
  obtain ⟨bytes, cost, size, rfl, hentries⟩ :=
    encodeEntries_restores hstable hkey hencode overhead h
  refine ⟨bytes, cost + ⟨1, nodeOverheadBytes + size⟩, rfl, ?_⟩
  refine restores_alloc (R := fun heap result =>
    (∀ key, entries.get? key = none ↔ result.get? key = none) ∧
    ∀ key x y, entries.get? key = some x → result.get? key = some y → P heap x y) ?_ ?_
  · intro heap hroom
    obtain ⟨result, next, hreads, hgrown, hweight, hsame⟩ := hentries heap hroom
    exact ⟨result, next, hreads, hgrown, by rw [hsize, hweight], hsame⟩
  rintro heap next grown handle result hgrown ⟨hkeys, hall⟩ hget
  refine hQ next handle result hget hkeys fun key x y hx hy => ?_
  exact hstable x _ _ _ _ hgrown (hall key x y hx hy)

end Nodes

/-! ## Untyped values -/

section Any

variable {source : RequestHeap} {expected : RuntimeTypePlan}

theorem rejectReserved_bind_eq_ok {key : String} {rest : Writer} :
    (do Mut.ofExcept (rejectReservedLegacyMetadataKey key); rest : Writer) output =
        (.ok (), written) ↔
      rejectReservedLegacyMetadataKey key = .ok () ∧ rest output = (.ok (), written) := by
  simp only [Mut.bind_eq_ok, ofExcept_eq_ok]
  constructor
  · rintro ⟨_, _, ⟨hkey, rfl⟩, hrest⟩
    exact ⟨hkey, hrest⟩
  rintro ⟨hkey, hrest⟩
  exact ⟨(), output, ⟨hkey, rfl⟩, hrest⟩

theorem stable_sameAny (x : RuntimeValue) : Stable fun heap y => SameAny source heap x y :=
  fun _ _ _ _ hgrown h => h.grown hgrown

/-- The tag that `decode_any` reads first selects how the rest is read. -/
theorem restores_decodeAny {fuel : Nat} {cost : Cost}
    {inline : Nat} {P : RequestHeap → RuntimeValue → Prop} {rest : UInt8 → Reader RuntimeValue}
    (hrest : decodeAny expected (fuel + 1) = readU8 >>= rest)
    (h : Restores (rest tag) bytes cost inline P) :
    Restores (decodeAny expected (fuel + 1)) (tag :: bytes) cost inline P := by
  rw [hrest]
  exact h.after fun heap => readsAt_readByte ended tag heap

theorem getNode_eq_ok {handle : HeapHandle} {node : HeapNode} :
    getNode source handle = .ok node ↔ source.get handle = .ok node := by
  unfold getNode
  cases source.get handle <;> simp [Except.mapError]

/-- Keys of objects in untyped values. -/
theorem writeObjectKey_reads (output written : List UInt8)
    (h : (do Mut.ofExcept (rejectReservedLegacyMetadataKey key); writeStringRaw key : Writer)
      output = (.ok (), written)) :
    ∃ bytes, written = output ++ bytes ∧ ∀ heap,
      (do
        let key ← readStringRaw
        Decode.ofExcept (rejectReservedLegacyMetadataKey key)
        return key : Reader String).ReadsAt heap bytes key heap := by
  obtain ⟨hkey, hwrite⟩ := rejectReserved_bind_eq_ok.mp h
  obtain ⟨hlength, rfl⟩ := writeStringRaw_eq_ok.mp hwrite
  refine ⟨_, rfl, fun heap => (readsAt_readStringRaw heap hlength).bind_last ?_⟩
  exact (readsAt_ofExcept hkey heap).map rfl

theorem writeRuntimeKeyAny_reads (output written : List UInt8)
    (h : writeRuntimeKeyAny key output = (.ok (), written)) :
    ∃ bytes, written = output ++ bytes ∧ ∀ heap, readRuntimeKeyAny.ReadsAt heap bytes key heap := by
  obtain ⟨hkey, hwrite⟩ := rejectReserved_bind_eq_ok.mp h
  obtain ⟨_, middle, htag, hwriteKey⟩ := Mut.bind_eq_ok.mp hwrite
  obtain rfl := write_eq_ok.mp htag
  obtain ⟨hlength, rfl⟩ := writeStringRaw_eq_ok.mp hwriteKey
  refine ⟨[0] ++ rawBytes (utf8 key), by rw [append_assoc], fun heap => ?_⟩
  refine (readsAt_readByte ended 0 heap).bind ?_
  refine (readsAt_readStringRaw heap hlength).bind_last ?_
  exact (readsAt_ofExcept hkey heap).map rfl

theorem restores_of_encodeAny (fuel : Nat) (value : RuntimeValue) :
    ItemRestores (encodeAny source expected fuel) (decodeAny expected fuel)
      (fun heap x y => SameAny source heap x y) value := by
  induction fuel generalizing value with
  | zero =>
    intro output written h
    cases h
  | succ fuel ih =>
    intro output written h
    cases value with
    | null =>
      refine ⟨[tagNull], 0, 0, writeTag_eq_ok.mp h, restores_decodeAny rfl ?_⟩
      exact restores_leaf .null (readsAt_pure _) fun _ => .null
    | bool value =>
      cases value with
      | false =>
        refine ⟨[tagBoolFalse], 0, 1, writeTag_eq_ok.mp h, restores_decodeAny rfl ?_⟩
        exact restores_leaf (.bool false) (readsAt_pure _) fun _ => .bool
      | true =>
        refine ⟨[tagBoolTrue], 0, 1, writeTag_eq_ok.mp h, restores_decodeAny rfl ?_⟩
        exact restores_leaf (.bool true) (readsAt_pure _) fun _ => .bool
    | number bits =>
      rw [encodeAny] at h
      split at h
      · refine ⟨_, 0, 8, writeNumber_eq_ok.mp h, restores_decodeAny rfl ?_⟩
        exact restores_leaf (.number bits)
          (fun heap => (readsAt_read64 heap bits).map rfl) fun _ => .number
      · cases h
    | date millis =>
      obtain ⟨hvalid, hwritten⟩ := writeDate_eq_ok.mp h
      refine ⟨_, 0, 8, hwritten, restores_decodeAny rfl ?_⟩
      refine restores_leaf (.date millis) (fun heap => ?_) fun _ => .date
      exact (readsAt_read64 heap millis).bind_last ((readsAt_ofExcept hvalid heap).map rfl)
    | string text =>
      obtain ⟨hlength, hwritten⟩ := writeString_eq_ok.mp h
      refine ⟨_, 0, (utf8 text).length, hwritten, restores_decodeAny rfl ?_⟩
      exact restores_leaf (.string text)
        (fun heap => (readsAt_readStringRaw heap hlength).map rfl) fun _ => .string
    | actorRef actor => cases h
    | heap handle =>
      rw [encodeAny] at h
      obtain ⟨node, middle, hnode, hrest⟩ := Mut.bind_eq_ok.mp h
      obtain ⟨hget, rfl⟩ := ofExcept_eq_ok.mp hnode
      rw [getNode_eq_ok] at hget
      cases node with
      | bytes content =>
        obtain ⟨bytes, cost, rfl, hrestores⟩ := restores_bytes
          (Q := (SameAny source · (.heap handle))) (tagged_eq_ok.mp hrest) fun _ _ hnew =>
            .bytes hget hnew
        exact ⟨tagBytes :: bytes, cost, 8, by simp, restores_decodeAny rfl hrestores⟩
      | array items =>
        obtain ⟨bytes, cost, rfl, hrestores⟩ := restores_array
          (Q := (SameAny source · (.heap handle))) stable_sameAny (fun item _ => ih item)
            (tagged_eq_ok.mp hrest)
          fun _ _ _ hnew hlength hall => .array hget hnew hlength hall
        exact ⟨tagArray :: bytes, cost, 8, by simp, restores_decodeAny rfl hrestores⟩
      | object fields =>
        obtain ⟨bytes, cost, rfl, hrestores⟩ := restores_entries
          (Q := (SameAny source · (.heap handle))) stable_sameAny writeObjectKey_reads ih
          .object (fun key => 16 + (utf8 key).length)
          (fun _ => rfl) (tagged_eq_ok.mp hrest)
          fun _ _ _ hnew hkeys hall => .object hget hnew hkeys hall
        exact ⟨tagObject :: bytes, cost, 8, by simp, restores_decodeAny rfl hrestores⟩
      | map entries =>
        obtain ⟨bytes, cost, rfl, hrestores⟩ := restores_entries
          (Q := (SameAny source · (.heap handle))) stable_sameAny writeRuntimeKeyAny_reads
          ih .map (fun key => 24 + (utf8 key).length)
          (fun _ => rfl) (tagged_eq_ok.mp hrest)
          fun _ _ _ hnew hkeys hall => .map hget hnew hkeys hall
        exact ⟨tagMap :: bytes, cost, 8, by simp, restores_decodeAny rfl hrestores⟩
      | interface carrier | exception bytes => cases hrest

end Any

end Skiff.Runtime
