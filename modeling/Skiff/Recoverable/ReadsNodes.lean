import Skiff.Recoverable.Reads

/-!
# The nodes that the decoder accepts

A node is read just if its kind is that of its state, every part of it fits and its maps and
records are in canonical order, at every depth up to the limit.
-/

namespace Skiff.Recoverable

open Skiff.Runtime (utf8)
open Wire (leBytes)
open Reads RecoverableState List RecoverableNode

variable {input : Bytes} {limits : RecoverableValidationLimits} {path : String} {depth levels : Nat}

theorem enterNode_reads : Reads input limits (enterNode limits path depth)
    fun _ bytes cost => depth ≤ limits.maxDepth ∧ bytes = [] ∧ cost = 1 := by
  intro state hgood done next
  rw [enterNode]
  split
  case isTrue hdeep =>
    constructor
    · intro h
      cases (Prod.mk.inj h).1
    rintro ⟨_, _, ⟨hdepth, -⟩, -⟩
    omega
  case isFalse hdepth =>
    split
    case isTrue hmany =>
      constructor
      · intro h
        cases (Prod.mk.inj h).1
      rintro ⟨_, _, ⟨-, rfl, rfl⟩, htakes⟩
      have hnodes := htakes.nodes
      have hle := htakes.nodes_le
      omega
    case isFalse hfew =>
      constructor
      · intro h
        cases h
        exact ⟨[], 1, ⟨by omega, rfl, rfl⟩, nil_prefix, rfl, rfl, by dsimp only; omega⟩
      rintro ⟨_, _, ⟨-, rfl, rfl⟩, htakes⟩
      obtain ⟨offset, nodeCount⟩ := next
      have hoffset : offset = state.offset := htakes.offset
      have hnodes : nodeCount = state.nodeCount + 1 := htakes.nodes
      rw [hoffset, hnodes]

/-- The budget refuses no container whose children take a node and a byte each. -/
theorem Reads.budgeted {β : Type} {read : DecodeM β} {R : β → Bytes → Nat → Prop} {length : Nat}
    (h : Reads input limits read R)
    (hR : ∀ b bytes cost, R b bytes cost → length ≤ cost ∧ length ≤ bytes.length) :
    Reads input limits (do ensureChildNodeBudget input limits path length; read) R := by
  intro state hgood b next
  rw [ensureChildNodeBudget, Mut.read_bind_eq_ok]
  constructor
  · rintro ⟨_, -, hread⟩
    exact (h state hgood b next).mp hread
  rintro ⟨bytes, cost, hb, htakes⟩
  refine ⟨(), ?_, (h state hgood b next).mpr ⟨bytes, cost, hb, htakes⟩⟩
  obtain ⟨hcost, hlength⟩ := hR b bytes cost hb
  have hnodes := htakes.nodes
  have hle := htakes.nodes_le
  have hbytes := List.IsPrefix.length_le htakes.starts
  rw [length_drop] at hbytes
  dsimp only
  rw [if_neg (by omega), if_neg (by omega)]

/-! ## Children -/

theorem length_le_total {α : Type} {items : List α} {size : α → Nat} (h : ∀ item, 1 ≤ size item) :
    items.length ≤ total (items.map size) := by
  induction items with
  | nil => exact Nat.le_refl 0
  | cons item rest ih =>
    have hitem := h item
    rw [length_cons, map_cons, total_cons]
    omega

theorem length_le_flatMap {α : Type} {items : List α} {form : α → Bytes}
    (h : ∀ item, 1 ≤ (form item).length) : items.length ≤ (items.flatMap form).length := by
  induction items with
  | nil => exact Nat.le_refl 0
  | cons item rest ih =>
    have hitem := h item
    rw [length_cons, flatMap_cons, length_append]
    omega

section children

variable {child : String → DecodeM RecoverableNode} {F : RecoverableNode → Prop}
  {form : RecoverableNode → Bytes} {size : RecoverableNode → Nat}

theorem readItems_reads (hchild : ∀ path, Exact input limits (child path) F form size)
    {count index : Nat} : Reads input limits (readItems child path count index)
      fun items bytes cost => items.length = count ∧ (∀ item ∈ items, F item) ∧
        bytes = items.flatMap form ∧ cost = total (items.map size) := by
  induction count generalizing index with
  | zero =>
    refine (Reads.pure _).congr fun items bytes cost => ?_
    constructor
    · rintro ⟨rfl, rfl, rfl⟩
      exact ⟨rfl, forall_mem_nil _, rfl, rfl⟩
    rintro ⟨hlength, -, rfl, rfl⟩
    obtain rfl := length_eq_zero_iff.mp hlength
    exact ⟨rfl, rfl, rfl⟩
  | succ count ih =>
    refine (bindExact (hchild _) fun item => ih.map _).congr fun items bytes cost => ?_
    constructor
    · rintro ⟨item, _, _, hitem, ⟨others, ⟨hlength, hothers, rfl, rfl⟩, rfl⟩, rfl, rfl⟩
      exact ⟨by rw [length_cons, hlength], forall_mem_cons.mpr ⟨hitem, hothers⟩, rfl, rfl⟩
    rintro ⟨hlength, hitems, rfl, rfl⟩
    obtain ⟨item, others, rfl⟩ := exists_cons_of_length_eq_add_one hlength
    obtain ⟨hitem, hothers⟩ := forall_mem_cons.mp hitems
    exact ⟨item, _, _, hitem, ⟨others, ⟨Nat.succ_inj.mp hlength, hothers, rfl, rfl⟩, rfl⟩, rfl, rfl⟩

/-- The order check of a key passes just if the key is above the one before. -/
theorem not_any_le_iff {α β : Type} [LinearOrder β] {previous : Option α} {order : α → β}
    {key : β} : ¬ (previous.any fun before => key ≤ order before) = true ↔
      ∀ before ∈ previous, order before < key := by
  cases previous <;> simp

theorem readEntries_reads (hlevels : levels + (depth + 1) = limits.maxDepth + 1)
    (hchild : ∀ path, Exact input limits (child path) F form size) {count index : Nat}
    {previous : Option Bytes} :
    Reads input limits (readEntries input limits child path levels depth count index previous)
      fun entries bytes cost =>
        (entries.length = count ∧ (∀ entry ∈ entries, entry.1.Fits limits (depth + 1)) ∧
          (∀ before ∈ previous, ∀ entry ∈ entries, byteOrder before < keyOrder entry) ∧
          SortedOn keyOrder entries) ∧ (∀ entry ∈ entries, F entry.2) ∧
        bytes = (entries.flatMap fun entry => mapKeyBytes entry.1 ++ form entry.2) ∧
        cost = total (entries.map fun entry => size entry.2) := by
  induction count generalizing index previous with
  | zero =>
    refine (Reads.pure _).congr fun entries bytes cost => ?_
    constructor
    · rintro ⟨rfl, rfl, rfl⟩
      exact ⟨⟨rfl, forall_mem_nil _, fun _ _ => forall_mem_nil _, .nil⟩, forall_mem_nil _, rfl, rfl⟩
    rintro ⟨⟨hlength, -⟩, -, rfl, rfl⟩
    obtain rfl := length_eq_zero_iff.mp hlength
    exact ⟨rfl, rfl, rfl⟩
  | succ count ih =>
    refine (Reads.bindLeaf (readMapKey_exact hlevels) fun key => Reads.ofExcept fun keyBytes =>
      guarded (bindExact (hchild _) fun value =>
        ih.map _)).congr fun entries bytes cost => ?_
    simp only [canonicalMapKeyBytes, writeMapKey_eq_ok, not_any_le_iff]
    constructor
    · rintro ⟨key, _, hkey, ⟨_, ⟨-, rfl⟩, hnext, value, _, _, hvalue, ⟨others,
        ⟨⟨hlength, hkeys, hafter, hsorted⟩, hothers, rfl, rfl⟩, rfl⟩, rfl, rfl⟩, rfl⟩
      have hfirst : ∀ other ∈ others, keyOrder (key, value) < keyOrder other := hafter _ rfl
      refine ⟨⟨by rw [length_cons, hlength], forall_mem_cons.mpr ⟨hkey, hkeys⟩, ?_,
        pairwise_cons.mpr ⟨hfirst, hsorted⟩⟩, forall_mem_cons.mpr ⟨hvalue, hothers⟩,
        ?_, rfl⟩
      · intro before hbefore
        have hlt : byteOrder before < keyOrder (key, value) := hnext before hbefore
        exact forall_mem_cons.mpr ⟨hlt, fun other hother => hlt.trans (hfirst other hother)⟩
      · rw [flatMap_cons, append_assoc]
    rintro ⟨⟨hlength, hkeys, hafter, hsorted⟩, hentries, rfl, rfl⟩
    obtain ⟨⟨key, value⟩, others, rfl⟩ := exists_cons_of_length_eq_add_one hlength
    obtain ⟨hvalue, hothers⟩ := forall_mem_cons.mp hentries
    obtain ⟨hkey, hkeys⟩ := forall_mem_cons.mp hkeys
    obtain ⟨hfirst, hsorted⟩ := pairwise_cons.mp hsorted
    refine ⟨key, _, hkey, ⟨_, ⟨hkey, rfl⟩, fun before hbefore => hafter before hbefore _ (.head _),
      value, _, _, hvalue, ⟨others,
      ⟨⟨Nat.succ_inj.mp hlength, hkeys, ?_, hsorted⟩, hothers, rfl, rfl⟩, rfl⟩, rfl, rfl⟩, ?_⟩
    · rintro _ ⟨⟩
      exact hfirst
    · rw [flatMap_cons, append_assoc]

/-- The checks of the fields of a record are those of the entries of a map, with names for keys. -/
theorem readFieldsAfter_reads (hchild : ∀ path, Exact input limits (child path) F form size)
    {count : Nat} {previous : Option String} :
    Reads input limits (readFieldsAfter input child path count previous)
      fun fields bytes cost =>
        (fields.length = count ∧ (∀ field ∈ fields, Short field.fieldIdentity) ∧
          (∀ before ∈ previous, ∀ field ∈ fields, byteOrder (utf8 before) < fieldOrder field) ∧
          SortedOn fieldOrder fields) ∧ (∀ field ∈ fields, F field.value) ∧
        bytes = (fields.flatMap fun field => stringBytes field.fieldIdentity ++ form field.value) ∧
        cost = total (fields.map fun field => size field.value) := by
  induction count generalizing previous with
  | zero =>
    refine (Reads.pure _).congr fun fields bytes cost => ?_
    constructor
    · rintro ⟨rfl, rfl, rfl⟩
      exact ⟨⟨rfl, forall_mem_nil _, fun _ _ => forall_mem_nil _, .nil⟩, forall_mem_nil _, rfl, rfl⟩
    rintro ⟨⟨hlength, -⟩, -, rfl, rfl⟩
    obtain rfl := length_eq_zero_iff.mp hlength
    exact ⟨rfl, rfl, rfl⟩
  | succ count ih =>
    refine (Reads.bindLeaf readString_exact fun identity =>
      guarded (bindExact (hchild _) fun value =>
        ih.map _)).congr fun fields bytes cost => ?_
    simp only [not_any_le_iff]
    constructor
    · rintro ⟨identity, _, hidentity, ⟨hnext, value, _, _, hvalue, ⟨others,
        ⟨⟨hlength, hidentities, hafter, hsorted⟩, hothers, rfl, rfl⟩, rfl⟩, rfl, rfl⟩, rfl⟩
      have hfirst : ∀ other ∈ others, fieldOrder ⟨identity, value⟩ < fieldOrder other :=
        hafter _ rfl
      refine ⟨⟨by rw [length_cons, hlength],
        forall_mem_cons.mpr ⟨hidentity, hidentities⟩, ?_,
        pairwise_cons.mpr ⟨hfirst, hsorted⟩⟩, forall_mem_cons.mpr ⟨hvalue, hothers⟩,
        ?_, rfl⟩
      · intro before hbefore
        have hlt : byteOrder (utf8 before) < fieldOrder ⟨identity, value⟩ := hnext before hbefore
        exact forall_mem_cons.mpr ⟨hlt, fun other hother => hlt.trans (hfirst other hother)⟩
      · rw [flatMap_cons, append_assoc]
    rintro ⟨⟨hlength, hidentities, hafter, hsorted⟩, hfields, rfl, rfl⟩
    obtain ⟨⟨identity, value⟩, others, rfl⟩ := exists_cons_of_length_eq_add_one hlength
    obtain ⟨hvalue, hothers⟩ := forall_mem_cons.mp hfields
    obtain ⟨hidentity, hidentities⟩ := forall_mem_cons.mp hidentities
    obtain ⟨hfirst, hsorted⟩ := pairwise_cons.mp hsorted
    refine ⟨identity, _, hidentity, ⟨fun before hbefore => hafter before hbefore _ (.head _),
      value, _, _, hvalue, ⟨others,
      ⟨⟨Nat.succ_inj.mp hlength, hidentities, ?_, hsorted⟩, hothers, rfl, rfl⟩, rfl⟩, rfl, rfl⟩, ?_⟩
    · rintro _ ⟨⟩
      exact hfirst
    · rw [flatMap_cons, append_assoc]

variable (hchild : ∀ path, Exact input limits (child path) F form size)
  (hsize : ∀ node, 1 ≤ size node) (hform : ∀ node, 1 ≤ (form node).length)

include hchild hsize hform

theorem readFields_reads : Reads input limits (readFields input limits child path)
    fun fields bytes cost => (FieldsFit fields ∧ SortedOn fieldOrder fields) ∧
      (∀ field ∈ fields, F field.value) ∧ bytes = fieldsBytes (fields.map (·.map form)) ∧
      cost = total (fields.map fun field => size field.value) := by
  have hbytes : ∀ fields : List (RecoverableField RecoverableNode),
      fieldsBytes (fields.map (·.map form)) = leBytes 4 fields.length ++ fields.flatMap fun field =>
        stringBytes field.fieldIdentity ++ form field.value := by
    intro fields
    rw [fieldsBytes, length_map, flatMap_map]
    rfl
  refine (Reads.bindLeaf readLen_exact fun length => budgeted
    (readFieldsAfter_reads hchild) ?_).congr fun fields bytes cost => ?_
  · rintro fields bytes cost ⟨⟨rfl, -⟩, -, rfl, rfl⟩
    refine ⟨length_le_total fun field => hsize _, length_le_flatMap fun field => ?_⟩
    have hfield := hform field.value
    rw [length_append]
    omega
  rw [hbytes]
  constructor
  · rintro ⟨length, _, hlength, ⟨⟨rfl, hshort, -, hsorted⟩, hvalues, rfl, rfl⟩, rfl⟩
    exact ⟨⟨⟨hlength, hshort⟩, hsorted⟩, hvalues, rfl, rfl⟩
  rintro ⟨⟨⟨hlength, hshort⟩, hsorted⟩, hvalues, rfl, rfl⟩
  exact ⟨_, _, hlength, ⟨⟨rfl, hshort, by simp, hsorted⟩, hvalues, rfl, rfl⟩, rfl⟩

end children

/-! ## States -/

/-- What the decoder asks of the state of a node. -/
structure ReadableState {N : Type} (limits : RecoverableValidationLimits) (depth : Nat)
    (state : RecoverableState N) : Prop where
  fits : state.Fits limits depth
  inRange : state.InRange
  ordered : state.Ordered

section states

variable {child : String → DecodeM RecoverableNode} {F : RecoverableNode → Prop}
  {form : RecoverableNode → Bytes} {size : RecoverableNode → Nat}

/-- A state of the kind, readable, with children that are. -/
def StateRead (limits : RecoverableValidationLimits) (depth : Nat) (F : RecoverableNode → Prop)
    (form : RecoverableNode → Bytes) (size : RecoverableNode → Nat) (kind : RecoverableValueKind)
    (state : RecoverableState RecoverableNode) (bytes : Bytes) (cost : Nat) : Prop :=
  state.kind = kind ∧ ReadableState limits depth state ∧ (∀ node ∈ state.children, F node) ∧
    bytes = stateBytes (state.mapNodes form) ∧ cost = total (state.children.map size)

theorem readBool_reads :
    Reads input limits (readState input limits child path levels depth .bool)
      (StateRead limits depth F form size .bool) := by
  have hread : ∀ value : Bool, Reads input limits (Pure.pure (bool value)) fun state rest cost =>
      StateRead limits depth F form size .bool state ((if value then 1 else 0) :: rest) cost := by
    intro value
    refine (Reads.pure _).congr fun state rest cost => ?_
    constructor
    · rintro ⟨rfl, rfl, rfl⟩
      exact ⟨rfl, ⟨trivial, trivial, trivial⟩, forall_mem_nil _, by cases value <;> rfl, rfl⟩
    rintro ⟨hkind, -, -, hbytes, rfl⟩
    rcases state with _ | (_ | _) | _ | _ | _ | _ | _ | _ | _ | _ | _ | _ <;> cases hkind <;>
      cases value <;> cases hbytes <;> exact ⟨rfl, rfl, rfl⟩
  refine tagged ?_ fun tag => ?_
  · rintro state cost ⟨hkind, -, -, hbytes, -⟩
    cases state <;> cases hkind
    cases hbytes
  split
  case h_1 => exact hread false
  case h_2 => exact hread true
  case h_3 h0 h1 =>
    refine (Reads.refuse _ _).congr fun state rest cost => iff_of_false id ?_
    rintro ⟨hkind, -, -, hbytes, -⟩
    rcases state with _ | (_ | _) | _ | _ | _ | _ | _ | _ | _ | _ | _ | _ <;> cases hkind
    · cases hbytes
      exact h0 rfl
    cases hbytes
    exact h1 rfl

theorem readArray_reads (hchild : ∀ path, Exact input limits (child path) F form size)
    (hsize : ∀ node, 1 ≤ size node) (hform : ∀ node, 1 ≤ (form node).length) :
    Reads input limits (readState input limits child path levels depth .array)
      (StateRead limits depth F form size .array) := by
  refine (Reads.bindLeaf readLen_exact fun length => budgeted
    ((readItems_reads hchild).map _) ?_).congr fun state bytes cost => ?_
  · rintro state bytes cost ⟨items, ⟨rfl, -, rfl, rfl⟩, -⟩
    exact ⟨length_le_total hsize, length_le_flatMap hform⟩
  constructor
  · rintro ⟨length, _, hlength, ⟨items, ⟨rfl, hitems, rfl, rfl⟩, rfl⟩, rfl⟩
    refine ⟨rfl, ⟨hlength, trivial, trivial⟩, hitems, ?_, rfl⟩
    rw [mapNodes, stateBytes, length_map, flatMap_def]
  rintro ⟨hkind, hreadable, hitems, rfl, rfl⟩
  cases state <;> cases hkind
  refine ⟨_, _, hreadable.fits, ⟨_, ⟨rfl, hitems, rfl, rfl⟩, rfl⟩, ?_⟩
  rw [mapNodes, stateBytes, length_map, flatMap_def]

theorem readMap_reads (hlevels : levels + (depth + 1) = limits.maxDepth + 1)
    (hchild : ∀ path, Exact input limits (child path) F form size)
    (hsize : ∀ node, 1 ≤ size node) (hform : ∀ node, 1 ≤ (form node).length) :
    Reads input limits (readState input limits child path levels depth .map)
      (StateRead limits depth F form size .map) := by
  refine (Reads.bindLeaf readLen_exact fun length => budgeted
    ((readEntries_reads hlevels hchild).map _) ?_).congr fun state bytes cost => ?_
  · rintro state bytes cost ⟨entries, ⟨⟨rfl, -⟩, -, rfl, rfl⟩, -⟩
    refine ⟨length_le_total fun entry => hsize _, length_le_flatMap fun entry => ?_⟩
    have hentry := hform entry.2
    rw [length_append]
    omega
  have hbytes : ∀ entries : List (RecoverableMapKey × RecoverableNode),
      stateBytes ((map entries).mapNodes form) =
        leBytes 4 entries.length ++ entries.flatMap fun entry =>
          mapKeyBytes entry.1 ++ form entry.2 := by
    intro entries
    rw [mapNodes, stateBytes, length_map, flatMap_map]
  constructor
  · rintro ⟨length, _, hlength, ⟨entries, ⟨⟨rfl, hkeys, -, hsorted⟩, hvalues, rfl, rfl⟩, rfl⟩, rfl⟩
    refine ⟨rfl, ⟨⟨hlength, hkeys⟩, trivial, hsorted⟩, forall_mem_map.mpr hvalues,
      (hbytes _).symm, ?_⟩
    rw [children, map_map]
    rfl
  rintro ⟨hkind, hreadable, hvalues, rfl, rfl⟩
  cases state <;> cases hkind
  refine ⟨_, _, hreadable.fits.1, ⟨_, ⟨⟨rfl, hreadable.fits.2, by simp, hreadable.ordered⟩,
    forall_mem_map.mp hvalues, rfl, ?_⟩, rfl⟩, hbytes _⟩
  rw [children, map_map]
  rfl

theorem readNominalObject_reads (hchild : ∀ path, Exact input limits (child path) F form size)
    (hsize : ∀ node, 1 ≤ size node) (hform : ∀ node, 1 ≤ (form node).length) :
    Reads input limits (readState input limits child path levels depth .nominalObject)
      (StateRead limits depth F form size .nominalObject) := by
  refine tagged ?_ fun tag => ?_
  · rintro state cost ⟨hkind, -, -, hbytes, -⟩
    rcases state with _ | _ | _ | _ | _ | _ | _ | _ | _ | (_ | _) | _ | _ <;> cases hkind
    · cases hbytes
    · cases hbytes
  split
  case h_1 =>
    refine ((readFields_reads hchild hsize hform).map _).congr fun state rest cost => ?_
    constructor
    · rintro ⟨fields, ⟨⟨hfits, hsorted⟩, hvalues, rfl, rfl⟩, rfl⟩
      refine ⟨rfl, ⟨hfits, trivial, hsorted⟩, forall_mem_map.mpr hvalues, rfl, ?_⟩
      rw [children, map_map]
      rfl
    rintro ⟨hkind, hreadable, hvalues, hbytes, rfl⟩
    rcases state with _ | _ | _ | _ | _ | _ | _ | _ | _ | (fields | _) | _ | _ <;> cases hkind
    · cases hbytes
      refine ⟨_, ⟨⟨hreadable.fits, hreadable.ordered⟩, forall_mem_map.mp hvalues, rfl, ?_⟩, rfl⟩
      rw [children, map_map]
      rfl
    · cases (cons.inj hbytes).1
  case h_2 =>
    refine ((hchild _).reads.map _).congr fun state rest cost => ?_
    constructor
    · rintro ⟨node, ⟨hnode, rfl, rfl⟩, rfl⟩
      exact ⟨rfl, ⟨trivial, trivial, trivial⟩, forall_mem_singleton.mpr hnode, rfl, rfl⟩
    rintro ⟨hkind, -, hnodes, hbytes, rfl⟩
    rcases state with _ | _ | _ | _ | _ | _ | _ | _ | _ | (_ | node) | _ | _ <;> cases hkind
    · cases (cons.inj hbytes).1
    cases hbytes
    exact ⟨node, ⟨forall_mem_singleton.mp hnodes, rfl, rfl⟩, rfl⟩
  case h_3 h0 h1 =>
    refine (Reads.refuse _ _).congr fun state rest cost => iff_of_false id ?_
    rintro ⟨hkind, -, -, hbytes, -⟩
    rcases state with _ | _ | _ | _ | _ | _ | _ | _ | _ | (_ | _) | _ | _ <;> cases hkind
    · exact h0 (cons.inj hbytes).1
    · exact h1 (cons.inj hbytes).1

/-- Each kind of state is read just if it is readable. -/
theorem readState_reads (hlevels : levels + (depth + 1) = limits.maxDepth + 1)
    (hchild : ∀ path, Exact input limits (child path) F form size)
    (hsize : ∀ node, 1 ≤ size node) (hform : ∀ node, 1 ≤ (form node).length)
    (kind : RecoverableValueKind) :
    Reads input limits (readState input limits child path levels depth kind)
      (StateRead limits depth F form size kind) := by
  cases kind with
  | null =>
    refine (Reads.pure _).congr fun state bytes cost => ?_
    constructor
    · rintro ⟨rfl, rfl, rfl⟩
      exact ⟨rfl, ⟨trivial, trivial, trivial⟩, forall_mem_nil _, rfl, rfl⟩
    rintro ⟨hkind, -, -, rfl, rfl⟩
    cases state <;> cases hkind
    exact ⟨rfl, rfl, rfl⟩
  | bool => exact readBool_reads
  | number =>
    refine (Reads.bindLeaf readU64_exact fun bits => Reads.ofExcept fun _ =>
      Reads.pure _).congr fun state bytes cost => ?_
    constructor
    · rintro ⟨bits, _, -, ⟨_, hfinite, rfl, rfl, rfl⟩, rfl⟩
      refine ⟨rfl, ⟨trivial, recoverableNumberFromBits_eq_ok.mp hfinite, trivial⟩, forall_mem_nil _,
        ?_, rfl⟩
      rw [append_nil]
      rfl
    rintro ⟨hkind, hreadable, -, rfl, rfl⟩
    cases state <;> cases hkind
    exact ⟨_, [], trivial, ⟨(), recoverableNumberFromBits_eq_ok.mpr hreadable.inRange, rfl, rfl,
      rfl⟩, (append_nil _).symm⟩
  | string =>
    refine (readString_exact.reads.map _).congr fun state bytes cost => ?_
    constructor
    · rintro ⟨value, ⟨hshort, rfl, rfl⟩, rfl⟩
      exact ⟨rfl, ⟨hshort, trivial, trivial⟩, forall_mem_nil _, rfl, rfl⟩
    rintro ⟨hkind, hreadable, -, rfl, rfl⟩
    cases state <;> cases hkind
    exact ⟨_, ⟨hreadable.fits, rfl, rfl⟩, rfl⟩
  | bytes =>
    refine (readBytes_exact.reads.map _).congr fun state bytes cost => ?_
    constructor
    · rintro ⟨value, ⟨hshort, rfl, rfl⟩, rfl⟩
      exact ⟨rfl, ⟨hshort, trivial, trivial⟩, forall_mem_nil _, rfl, rfl⟩
    rintro ⟨hkind, hreadable, -, rfl, rfl⟩
    cases state <;> cases hkind
    exact ⟨_, ⟨hreadable.fits, rfl, rfl⟩, rfl⟩
  | date =>
    refine (Reads.bindLeaf readU64_exact fun millis => Reads.ofExcept fun _ =>
      Reads.pure _).congr fun state bytes cost => ?_
    constructor
    · rintro ⟨bits, _, -, ⟨_, hrange, rfl, rfl, rfl⟩, rfl⟩
      exact ⟨rfl, ⟨trivial, validateRecoverableDate_eq_ok.mp hrange, trivial⟩, forall_mem_nil _,
        append_nil _, rfl⟩
    rintro ⟨hkind, hreadable, -, rfl, rfl⟩
    cases state <;> cases hkind
    exact ⟨_, [], trivial, ⟨(), validateRecoverableDate_eq_ok.mpr hreadable.inRange, rfl, rfl,
      rfl⟩, (append_nil _).symm⟩
  | array => exact readArray_reads hchild hsize hform
  | map => exact readMap_reads hlevels hchild hsize hform
  | record =>
    refine ((readFields_reads hchild hsize hform).map _).congr fun state bytes cost => ?_
    constructor
    · rintro ⟨fields, ⟨⟨hfits, hsorted⟩, hvalues, rfl, rfl⟩, rfl⟩
      refine ⟨rfl, ⟨hfits, trivial, hsorted⟩, forall_mem_map.mpr hvalues, rfl, ?_⟩
      rw [children, map_map]
      rfl
    rintro ⟨hkind, hreadable, hvalues, rfl, rfl⟩
    cases state <;> cases hkind
    refine ⟨_, ⟨⟨hreadable.fits, hreadable.ordered⟩, forall_mem_map.mp hvalues, rfl, ?_⟩, rfl⟩
    rw [children, map_map]
    rfl
  | nominalObject => exact readNominalObject_reads hchild hsize hform
  | interfaceValue =>
    refine tagged ?_ fun tag => ?_
    · rintro state cost ⟨hkind, -, -, hbytes, -⟩
      cases state <;> cases hkind
      cases hbytes
    split
    case h_1 =>
      refine ((hchild _).reads.map _).congr fun state rest cost => ?_
      constructor
      · rintro ⟨node, ⟨hnode, rfl, rfl⟩, rfl⟩
        exact ⟨rfl, ⟨trivial, trivial, trivial⟩, forall_mem_singleton.mpr hnode, rfl, rfl⟩
      rintro ⟨hkind, -, hnodes, hbytes, rfl⟩
      cases state <;> cases hkind
      cases hbytes
      exact ⟨_, ⟨forall_mem_singleton.mp hnodes, rfl, rfl⟩, rfl⟩
    case h_2 h0 =>
      refine (Reads.refuse _ _).congr fun state rest cost => iff_of_false id ?_
      rintro ⟨hkind, -, -, hbytes, -⟩
      cases state <;> cases hkind
      exact h0 (cons.inj hbytes).1
  | nativeHandle =>
    refine ((hchild _).reads.map _).congr fun state bytes cost => ?_
    constructor
    · rintro ⟨node, ⟨hnode, rfl, rfl⟩, rfl⟩
      exact ⟨rfl, ⟨trivial, trivial, trivial⟩, forall_mem_singleton.mpr hnode, rfl, rfl⟩
    rintro ⟨hkind, -, hnodes, rfl, rfl⟩
    cases state <;> cases hkind
    exact ⟨_, ⟨forall_mem_singleton.mp hnodes, rfl, rfl⟩, rfl⟩

end states

/-! ## Nodes -/

theorem recoverableValueKindFromTag_eq_ok {tag : UInt8} {kind : RecoverableValueKind} :
    recoverableValueKindFromTag path tag = .ok kind ↔ tag = valueKindTag kind := by
  constructor
  · intro h
    rw [recoverableValueKindFromTag.eq_def] at h
    split at h
    case h_13 => cases h
    all_goals
      cases h
      rfl
  rintro rfl
  cases kind <;> rfl

theorem one_le_count (node : RecoverableNode) : 1 ≤ node.count := by
  rw [node.count_eq]
  omega

theorem one_le_length_bytes (node : RecoverableNode) : 1 ≤ node.bytes.length := by
  rw [node.bytes_eq, nodeBytesAt, length_cons]
  omega

/-- What the decoder asks of a node and its depth. -/
structure ReadableAt (limits : RecoverableValidationLimits) (depth : Nat) (node : RecoverableNode) :
    Prop where
  depth_le : depth ≤ limits.maxDepth
  kind : node.state.kind = node.valueKind
  variantIdentity : node.variantIdentity.Fits
  codeIdentity : node.codeIdentity.Fits
  state : ReadableState limits depth node.state

/-- A node is read just if it is readable at every depth, and then over its bytes and nodes. -/
theorem readNode_exact (hlevels : levels + depth = limits.maxDepth + 1) :
    Exact input limits (readNode input limits levels depth path)
      (Everywhere (ReadableAt limits) depth) bytes count := by
  induction levels generalizing depth path with
  | zero =>
    refine ((Reads.refuse _ _).congr fun node bytes cost => iff_of_false id ?_).exact
    rintro ⟨heverywhere, -⟩
    have hdepth := (Everywhere.iff.mp heverywhere).1.depth_le
    omega
  | succ levels ih =>
    have hchild : ∀ path, Exact input limits (readNode input limits levels (depth + 1) path)
        (Everywhere (ReadableAt limits) (depth + 1)) bytes count :=
      fun path => ih (by omega)
    refine ((Reads.bind enterNode_reads fun _ => Reads.bindLeaf readU8_exact fun tag =>
      Reads.ofExcept fun kind => Reads.bindLeaf readVariantIdentity_exact fun variant =>
      Reads.bindLeaf readCodeIdentity_exact fun code =>
      (readState_reads (by omega) hchild one_le_count one_le_length_bytes kind).map _).congr
      fun node bytes cost => ?_).exact
    simp only [recoverableValueKindFromTag_eq_ok]
    rw [Everywhere.iff, node.bytes_eq, node.count_eq]
    constructor
    · rintro ⟨_, _, _, _, _, ⟨hdepth, rfl, rfl⟩, ⟨_, _, -, ⟨kind, rfl, variant, _, hvariant,
        ⟨code, _, hcode, ⟨state, ⟨hkind, hreadable, hbelow, rfl, rfl⟩, rfl⟩, rfl⟩, rfl⟩, rfl⟩,
        rfl, rfl⟩
      refine ⟨⟨⟨hdepth, hkind, hvariant, hcode, hreadable⟩, hbelow⟩, ?_, Nat.add_comm _ _⟩
      rw [nodeBytesAt, append_assoc]
      rfl
    rintro ⟨⟨⟨hdepth, hkind, hvariant, hcode, hreadable⟩, hbelow⟩, rfl, rfl⟩
    obtain ⟨kind, variant, code, state⟩ := node
    refine ⟨(), [], 1, _, _, ⟨hdepth, rfl, rfl⟩, ⟨_, _, trivial, ⟨kind, rfl, variant, _, hvariant,
      ⟨code, _, hcode, ⟨state, ⟨hkind, hreadable, hbelow, rfl, rfl⟩, rfl⟩, rfl⟩, rfl⟩, rfl⟩, ?_,
      Nat.add_comm _ _⟩
    rw [nodeBytesAt, append_assoc]
    rfl

end Skiff.Recoverable
