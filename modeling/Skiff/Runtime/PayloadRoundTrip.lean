import Skiff.Runtime.PayloadRestores

/-!
# The payload round trip

What `encode_payload_plan` writes, `decode_payload_plan` reads back under the same plan,
to the last byte and as the same value, in any heap with room for the nodes it has to
allocate. The plan has to list the fields of each record under different names.
-/

namespace Skiff.Runtime

open Wire Mut Encode Decode RuntimeRecordFieldPlan Extends List Restores Decode

variable {fuel : Nat}

section Typed

variable {source : RequestHeap}

theorem stable_sameTyped (plan : RuntimeTypePlan) (x : RuntimeValue) :
    Stable fun heap y => SameTyped source heap plan x y :=
  fun _ _ _ _ hgrown h => h.grown hgrown

/-! ## What the accessors return -/

variable {value : RuntimeValue} {node : HeapNode}

theorem nodeOf_eq_ok {expected : String} (h : nodeOf source value expected = .ok node) :
    ∃ handle, value = .heap handle ∧ source.get handle = .ok node := by
  cases value with
  | heap handle => exact ⟨handle, rfl, getNode_eq_ok.mp h⟩
  | _ => cases h

theorem shapeOf_eq_ok {α : Type} {project : HeapNode → Option α} {expected shape : String} {a : α}
    (h : shapeOf source project expected shape value = .ok a) :
    ∃ handle node, value = .heap handle ∧ source.get handle = .ok node ∧ project node = some a := by
  unfold shapeOf at h
  cases hnode : nodeOf source value expected with
  | error stop =>
    rw [hnode] at h
    cases h
  | ok node =>
    obtain ⟨handle, hvalue, hget⟩ := nodeOf_eq_ok hnode
    refine ⟨handle, node, hvalue, hget, ?_⟩
    rw [hnode] at h
    have helim : (project node).elim (.error (decodeError expected)) .ok = Except.ok a := by
      cases node with
      | interface carrier => cases h
      | _ => exact h
    cases hproject : project node with
    | none =>
      rw [hproject] at helim
      cases helim
    | some b =>
      rw [hproject] at helim
      cases helim
      rfl

theorem fieldsOf_eq_ok {expected : RuntimeTypePlan}
    {fields : OrdMap String RuntimeValue} (h : fieldsOf source value expected = .ok fields) :
    ∃ handle node, value = .heap handle ∧ source.get handle = .ok node ∧
      (node = .object fields ∨ node = .map fields) := by
  unfold fieldsOf at h
  cases hnode : nodeOf source value "expected runtime object" with
  | error stop =>
    rw [hnode] at h
    cases h
  | ok node =>
    obtain ⟨handle, hvalue, hget⟩ := nodeOf_eq_ok hnode
    refine ⟨handle, node, hvalue, hget, ?_⟩
    rw [hnode] at h
    cases node with
    | object entries =>
      cases h
      exact .inl rfl
    | map entries =>
      cases h
      exact .inr rfl
    | _ => cases h

theorem HeapNode.asBytes_eq_some {content : List UInt8}
    (h : node.asBytes = some content) : node = .bytes content := by
  cases node <;> cases h
  rfl

theorem HeapNode.asArray_eq_some {items : List RuntimeValue}
    (h : node.asArray = some items) : node = .array items := by
  cases node <;> cases h
  rfl

theorem HeapNode.asMap_eq_some {entries : OrdMap String RuntimeValue}
    (h : node.asMap = some entries) : node = .map entries := by
  cases node <;> cases h
  rfl

/-! ## Records -/

section Record

variable {fields : List RuntimeRecordFieldPlan} {object : OrdMap String RuntimeValue}

theorem rejectExtraFields_eq_ok {keys : List String} (h : rejectExtraFields fields keys = .ok ())
    {key : String} (hkey : key ∈ keys) :
    rejectReservedLegacyMetadataKey key = .ok () ∧ key ∈ fields.map name := by
  induction keys with
  | nil => cases hkey
  | cons first rest ih =>
    rw [rejectExtraFields] at h
    cases hreserved : rejectReservedLegacyMetadataKey first with
    | error stop =>
      rw [hreserved] at h
      cases h
    | ok done =>
      rw [hreserved] at h
      change (if _ then _ else _) = _ at h
      split at h
      case isTrue hdeclared =>
        obtain rfl | hrest := mem_cons.mp hkey
        · exact ⟨hreserved, hdeclared⟩
        · exact ih h hrest
      case isFalse => cases h

theorem requireFields_congr {present present' : String → Bool}
    (h : ∀ field ∈ fields, present field.name = present' field.name) :
    requireFields present fields = requireFields present' fields := by
  induction fields with
  | nil => rfl
  | cons field rest ih =>
    rw [requireFields, requireFields, h field mem_cons_self,
      ih fun other hother => h other (.tail _ hother)]

variable {field : RuntimeRecordFieldPlan}

theorem fieldsByName_get? (hnodup : (fields.map name).Nodup) (hfield : field ∈ fields) :
    (fieldsByName fields).get? field.name = some field := by
  refine OrdMap.get?_ofList ?_ (mem_map_of_mem hfield)
  rwa [map_map]

theorem mem_presentFields :
    field ∈ presentFields object fields ↔ field ∈ fields ∧
    ∃ x, object.get? field.name = some x := by
  rw [presentFields, mem_filter, Option.isSome_iff_exists]

/-- A field and the value read for it. -/
def SameField (source : RequestHeap) (object : OrdMap String RuntimeValue) (heap : RequestHeap)
    (field : RuntimeRecordFieldPlan) (y : RuntimeValue) : Prop :=
  ∀ x, object.get? field.name = some x → SameTyped source heap field.ty x y

variable {encode : RuntimeTypePlan → RuntimeValue → Writer}
variable {decode : RuntimeTypePlan → Reader RuntimeValue}

theorem encodeField_restores (hnodup : (fields.map name).Nodup)
    (hreserved : ∀ key ∈ object.keys, rejectReservedLegacyMetadataKey key = .ok ())
    (hencode : ∀ field ∈ fields, ∀ value, ItemRestores (encode field.ty) (decode field.ty)
      (fun heap x y => SameTyped source heap field.ty x y) value)
    (hfield : field ∈ presentFields object fields) :
    EntryRestores (encodeField encode object) (decodeField decode fields)
      name (SameField source object) field := by
  obtain ⟨hmem, x, hx⟩ := mem_presentFields.mp hfield
  intro output written h
  rw [encodeField, hx] at h
  obtain ⟨_, middle, hname, hvalue⟩ := Mut.bind_eq_ok.mp h
  obtain ⟨hlength, rfl⟩ := writeStringRaw_eq_ok.mp hname
  obtain ⟨bytes, cost, inline, rfl, hrestores⟩ := hencode field hmem x _ written hvalue
  refine ⟨rawBytes (utf8 field.name) ++ bytes, cost, inline, by rw [append_assoc],
    fun heap hroom => ?_⟩
  obtain ⟨value, next, hreads, hgrown, hinline, hsame⟩ := hrestores heap hroom
  have hkey := hreserved field.name (OrdMap.mem_keys_iff.mpr ⟨x, hx⟩)
  refine ⟨value, next, fun entries => ?_, hgrown, hinline, fun x' hx' => ?_⟩
  · refine (readsAt_readStringRaw heap hlength).bind ?_
    refine (readsAt_ofExcept hkey heap).bind_nil ?_
    rw [fieldsByName_get? hnodup hmem]
    exact hreads.map rfl
  rw [hx] at hx'
  cases hx'
  exact hsame

variable {output written : List UInt8}

/-- The fields that are present are read back under their names, and no others. -/
theorem encodeFields_restores (hnodup : (fields.map name).Nodup)
    (hextra : rejectExtraFields fields object.keys = .ok ())
    (hencode : ∀ field ∈ fields, ∀ value, ItemRestores (encode field.ty) (decode field.ty)
      (fun heap x y => SameTyped source heap field.ty x y) value)
    (h : encodeFields encode object fields output = (.ok (), written)) :
    ∃ bytes cost size, written = output ++ bytes ∧
      ∀ heap : RequestHeap, heap.HasRoom cost → ∃ result next,
        (decodeFields decode fields).ReadsAt heap bytes result next ∧ heap.Grown next cost ∧
        result.weight estimateObjectFieldBytes = size ∧
        (∀ key, object.get? key = none ↔ result.get? key = none) ∧
        ∀ field ∈ fields, ∀ y, result.get? field.name = some y →
          SameField source object next field y := by
  obtain ⟨_, middle, hlen, hloop⟩ := Mut.bind_eq_ok.mp h
  obtain ⟨hbound, rfl⟩ := writeLen_eq_ok.mp hlen
  have hstable : ∀ field, Stable (SameField source object · field) :=
    fun field _ _ _ _ hgrown hsame x hx => (hsame x hx).grown hgrown
  have hnames : ((presentFields object fields).map name).Nodup := by
    refine List.Nodup.sublist (List.Sublist.map _ ?_) hnodup
    exact filter_sublist
  have hreserved : ∀ key ∈ object.keys, rejectReservedLegacyMetadataKey key = .ok () :=
    fun key hkey => (rejectExtraFields_eq_ok hextra hkey).1
  obtain ⟨bytes, cost, size, rfl, hfold⟩ := each_restores_fold hstable
    (fun name => 16 + (utf8 name).length) hnames
    (fun field hfield => encodeField_restores hnodup hreserved hencode hfield) hloop
  refine ⟨leBytes 4 (presentFields object fields).length ++ bytes, cost, size,
    by rw [append_assoc], fun heap hroom => ?_⟩
  obtain ⟨result, next, hreads, hgrown, hweight, hall, hother⟩ := hfold heap hroom ∅ (by simp)
  rw [OrdMap.weight_empty, Nat.zero_add] at hweight
  have hnone : ∀ key, object.get? key = none → result.get? key = none := by
    intro key hkey
    refine hother key fun hmem => ?_
    obtain ⟨field, hfield, rfl⟩ := mem_map.mp hmem
    obtain ⟨-, x, hx⟩ := mem_presentFields.mp hfield
    rw [hkey] at hx
    cases hx
  -- Every key of the object is declared, so its field was present.
  have hsome : ∀ key x, object.get? key = some x → result.get? key ≠ none := by
    intro key x hx hresult
    obtain ⟨-, hdeclared⟩ := rejectExtraFields_eq_ok hextra (OrdMap.mem_keys_iff.mpr ⟨x, hx⟩)
    obtain ⟨field, hfield, rfl⟩ := mem_map.mp hdeclared
    obtain ⟨y, hy, -⟩ := hall field (mem_presentFields.mpr ⟨hfield, x, hx⟩)
    rw [hresult] at hy
    cases hy
  refine ⟨result, next, (readsAt_readLen heap hbound).bind hreads, hgrown, hweight, ?_, ?_⟩
  · intro key
    refine ⟨hnone key, fun hresult => ?_⟩
    cases hx : object.get? key with
    | none => rfl
    | some x => exact absurd hresult (hsome key x hx)
  intro field hfield y hy x hx
  obtain ⟨y', hy', hsame⟩ := hall field (mem_presentFields.mpr ⟨hfield, x, hx⟩)
  rw [hy] at hy'
  cases hy'
  exact hsame x hx

/-- A record is read back as an object with the fields it was written with. -/
theorem restores_record {plan : RuntimeTypePlan} {handle : HeapHandle} {node : HeapNode}
    (hplan : boundaryTypeNode plan = .record fields) (hget : source.get handle = .ok node)
    (hnode : node = .object object ∨ node = .map object)
    (hextra : rejectExtraFields fields object.keys = .ok ())
    (hrequired : requireFields (fun name => (object.get? name).isSome) fields = .ok ())
    (hnodup : (fields.map name).Nodup)
    (hencode : ∀ field ∈ fields, ∀ value, ItemRestores (encode field.ty) (decode field.ty)
      (fun heap x y => SameTyped source heap field.ty x y) value)
    (h : encodeFields encode object fields output = (.ok (), written)) :
    ∃ bytes cost, written = output ++ bytes ∧
      Restores (do
        let object ← decodeFields decode fields
        ofExcept (requireFields object.contains fields)
        alloc (.object object)) bytes cost 8
        (fun heap y => SameTyped source heap plan (.heap handle) y) := by
  obtain ⟨bytes, cost, size, rfl, hfields⟩ := encodeFields_restores hnodup hextra hencode h
  refine ⟨bytes, cost + ⟨1, nodeOverheadBytes + size⟩, rfl, ?_⟩
  -- The check of required fields belongs to the contents of the node.
  have hassoc : (do
      let object ← decodeFields decode fields
      ofExcept (requireFields object.contains fields)
      alloc (.object object) : Reader RuntimeValue) = (do
        let object ← decodeFields decode fields
        ofExcept (requireFields object.contains fields)
        return object) >>= fun object => alloc (.object object) := by
    simp only [bind_assoc, pure_bind]
  rw [hassoc]
  refine restores_alloc (R := fun heap result =>
    (∀ key, object.get? key = none ↔ result.get? key = none) ∧
    ∀ field ∈ fields, ∀ y, result.get? field.name = some y →
      SameField source object heap field y) ?_ ?_
  · intro heap hroom
    obtain ⟨result, next, hreads, hgrown, hsize, hkeys, hsame⟩ := hfields heap hroom
    have hcheck : requireFields result.contains fields = .ok () := by
      rw [← hrequired]
      refine requireFields_congr fun field _ => ?_
      rw [OrdMap.contains, Bool.eq_iff_iff, Option.isSome_iff_ne_none, Option.isSome_iff_ne_none,
        Ne, Ne, hkeys field.name]
    refine ⟨result, next, ?_, hgrown, by rw [estimateHeapNodeBytes, hsize], hkeys, hsame⟩
    exact hreads.bind_last ((readsAt_ofExcept hcheck next).map rfl)
  rintro heap next grown new result hgrown ⟨hkeys, hsame⟩ hnew
  refine .record hplan hget hnode hnew hkeys ?_ ?_
  · intro field hfield x y hx hy
    exact (hsame field hfield y hy x hx).grown hgrown
  intro key x hx
  exact (rejectExtraFields_eq_ok hextra (OrdMap.mem_keys_iff.mpr ⟨x, hx⟩)).2

end Record

/-! ## Typed values -/

theorem writeRuntimeKey_reads (keyType : RuntimeTypePlan) (key : String)
    (output written : List UInt8) (h : writeRuntimeKey keyType key output = (.ok (), written)) :
    ∃ bytes, written = output ++ bytes ∧
      ∀ heap, (readRuntimeKey keyType).ReadsAt heap bytes key heap := by
  obtain ⟨_, middle, hcheck, hrest⟩ := Mut.bind_eq_ok.mp h
  obtain ⟨hshape, rfl⟩ := ofExcept_eq_ok.mp hcheck
  obtain ⟨hkey, hwrite⟩ := rejectReserved_bind_eq_ok.mp hrest
  obtain ⟨hlength, rfl⟩ := writeStringRaw_eq_ok.mp hwrite
  refine ⟨_, rfl, fun heap => (readsAt_readStringRaw heap hlength).bind_last ?_⟩
  exact (readsAt_ofExcept hkey heap).bind_nil ((readsAt_ofExcept hshape heap).map rfl)

theorem Restores.tagged {tag : UInt8} {read : Reader RuntimeValue} {bytes : List UInt8}
    {cost : Cost} {inline : Nat} {P : RequestHeap → RuntimeValue → Prop}
    (h : Restores read bytes cost inline P) :
    Restores (do expectTag tag; read) (tag :: bytes) cost inline P :=
  h.after fun heap => readsAt_expectTag heap tag

/-! The leaves. -/

theorem readsAt_decodeStringValue (heap : RequestHeap) {text : String}
    (h : (utf8 text).length < 2 ^ 32) :
    decodeStringValue.ReadsAt heap (tagString :: rawBytes (utf8 text)) (.string text) heap :=
  (readsAt_expectTag heap tagString).bind ((readsAt_readStringRaw heap h).map rfl)

variable {plan : RuntimeTypePlan}

theorem encodeDate_restores (value : RuntimeValue) :
    ItemRestores encodeDate decodeDateValue (SameTyped source · plan) value := by
  intro output written h
  cases value with
  | date millis =>
    obtain ⟨hvalid, hwritten⟩ := writeDate_eq_ok.mp h
    refine ⟨_, 0, 8, hwritten, tagged ?_⟩
    refine restores_leaf (.date millis) (fun heap => ?_) fun _ => .any .date
    exact (readsAt_read64 heap millis).bind_last ((readsAt_ofExcept hvalid heap).map rfl)
  | _ => cases h

theorem encodeString_restores (value : RuntimeValue) :
    ItemRestores encodeString decodeStringValue (SameTyped source · plan) value := by
  intro output written h
  cases value with
  | string text =>
    obtain ⟨hlength, hwritten⟩ := writeString_eq_ok.mp h
    refine ⟨_, 0, (utf8 text).length, hwritten, ?_⟩
    exact restores_leaf (.string text) (readsAt_decodeStringValue · hlength) fun _ => .any .string
  | _ => cases h

theorem encodeNumber_restores (value : RuntimeValue) :
    ItemRestores encodeNumber decodeNumberValue (SameTyped source · plan) value := by
  intro output written h
  cases value with
  | number bits =>
    rw [encodeNumber] at h
    split at h
    case isTrue hfinite =>
      refine ⟨_, 0, 8, writeNumber_eq_ok.mp h, tagged ?_⟩
      refine restores_leaf (.number bits) (fun heap => ?_) fun _ => .any .number
      refine (readsAt_read64 heap bits).bind_last ?_
      rw [if_pos hfinite]
      exact readsAt_pure _ heap
    case isFalse => cases h
  | _ => cases h

theorem encodeBool_restores (value : RuntimeValue) :
    ItemRestores encodeBool (do
      let tag ← readU8
      if tag = tagBoolFalse then pure (.bool false)
      else if tag = tagBoolTrue then pure (.bool true)
      else fail (decodeError s!"expected runtime bool tag, got {tag}"))
      (SameTyped source · plan) value := by
  intro output written h
  cases value with
  | bool flag =>
    cases flag with
    | false =>
      refine ⟨[tagBoolFalse], 0, 1, writeTag_eq_ok.mp h, ?_⟩
      refine after (fun heap => readsAt_readByte ended tagBoolFalse heap) ?_
      exact restores_leaf (.bool false) (readsAt_pure _) fun _ => .any .bool
    | true =>
      refine ⟨[tagBoolTrue], 0, 1, writeTag_eq_ok.mp h, ?_⟩
      refine after (fun heap => readsAt_readByte ended tagBoolTrue heap) ?_
      exact restores_leaf (.bool true) (readsAt_pure _) fun _ => .any .bool
  | _ => cases h

theorem encodeNull_restores (value : RuntimeValue) :
    ItemRestores encodeNull (do
      expectTag tagNull
      return .null) (SameTyped source · plan) value := by
  intro output written h
  cases value with
  | null =>
    refine ⟨[tagNull], 0, 0, writeTag_eq_ok.mp h, tagged ?_⟩
    exact restores_leaf .null (readsAt_pure _) fun _ => .any .null
  | _ => cases h

theorem encodeLiteral_restores (literal : String) (value : RuntimeValue) :
    ItemRestores (encodeLiteral literal) (do
      let value ← decodeStringValue
      if value = .string literal then pure value
      else fail (decodeError s!"expected runtime literal string {literal.quote}"))
      (SameTyped source · plan) value := by
  intro output written h
  cases value with
  | string text =>
    rw [encodeLiteral] at h
    split at h
    case isTrue hliteral =>
      obtain rfl := hliteral
      obtain ⟨hlength, hwritten⟩ := writeString_eq_ok.mp h
      refine ⟨_, 0, (utf8 text).length, hwritten, ?_⟩
      refine restores_leaf (.string text) (fun heap => ?_) fun _ => .any .string
      refine (readsAt_decodeStringValue heap hlength).bind_last ?_
      rw [if_pos rfl]
      exact readsAt_pure _ heap
    case isFalse => cases h
  | _ => cases h

theorem encodeAny_restores (fuel : Nat) (value : RuntimeValue) :
    ItemRestores (encodeAny source plan fuel) (decodeAny plan fuel) (SameTyped source · plan)
      value := by
  intro output written h
  obtain ⟨bytes, cost, inline, hwritten, hrestores⟩ :=
    restores_of_encodeAny fuel value output written h
  exact ⟨bytes, cost, inline, hwritten, hrestores.mono fun _ _ hsame => .any hsame⟩

/-- The branch byte leads the decoder to the branch that was written. -/
theorem encodeUnion_restores {types : List RuntimeTypePlan}
    (hnode : boundaryTypeNode plan = .union types)
    (hencode : ∀ ty ∈ types, ItemRestores (encodeTyped source fuel ty) (decodeTyped fuel ty)
      (SameTyped source · ty) value) :
    ItemRestores (fun value => if 256 < types.length then
        Mut.fail (decodeError s!"runtime payload union has {types.length} branches; maximum is 256")
      else encodeBranches (fun ty => encodeTyped source fuel ty value) types 0 [])
      (do
        let branch ← readU8
        match types[branch.toNat]? with
        | none => fail (decodeError
            s!"runtime payload union branch {branch.toNat} is out of range")
        | some ty => decodeTyped fuel ty) (SameTyped source · plan) value := by
  intro output written h
  dsimp only at h
  split at h
  case isTrue => cases h
  case isFalse hbound =>
    obtain ⟨i, ty, branch, hty, hbranch, rfl⟩ :=
      encodeBranches_eq_ok (fun ty => grows_encodeTyped fuel ty value) h
    have hmem := mem_of_getElem? hty
    obtain ⟨bytes, cost, inline, hbytes, hrestores⟩ := hencode ty hmem _ _ hbranch
    obtain rfl := append_cancel_left hbytes
    refine ⟨UInt8.ofNat (0 + i) :: branch, cost, inline, rfl, ?_⟩
    refine after (fun heap => readsAt_readByte ended _ heap) ?_
    -- The index fits the byte, as there are at most 256 branches.
    have hindex : (UInt8.ofNat (0 + i)).toNat = i := by
      have hlt := (List.getElem?_eq_some_iff.mp hty).1
      rw [UInt8.toNat_ofNat', Nat.zero_add]
      omega
    dsimp only
    rw [hindex, hty]
    exact hrestores.mono fun _ _ hsame => .union hnode hmem hsame

theorem restores_of_encodeTyped (fuel : Nat) (hplan : plan.DistinctFields) (value : RuntimeValue) :
    ItemRestores (encodeTyped source fuel plan) (decodeTyped fuel plan)
      (fun heap x y => SameTyped source heap plan x y) value := by
  induction fuel generalizing plan value with
  | zero =>
    intro output written h
    cases h
  | succ fuel ih =>
    have hdistinct := distinct_boundaryTypeNode hplan
    intro output written h
    rw [encodeTyped] at h
    obtain ⟨_, middle, hreject, hrest⟩ := Mut.bind_eq_ok.mp h
    obtain ⟨-, rfl⟩ := ofExcept_eq_ok.mp hreject
    clear h hreject
    rw [decodeTyped]
    cases hnode : boundaryTypeNode plan <;> rw [hnode] at hrest hdistinct
    case nullable inner =>
      dsimp only at hrest
      split at hrest
      case isTrue hnull =>
        obtain rfl := hnull
        refine ⟨[0], 0, 0, write_eq_ok.mp hrest, ?_⟩
        refine after (fun heap => readsAt_readByte ended 0 heap) ?_
        exact restores_leaf .null (readsAt_pure _) fun _ => .any .null
      case isFalse =>
        obtain ⟨_, afterTag, hwrite, hinner⟩ := Mut.bind_eq_ok.mp hrest
        obtain rfl := write_eq_ok.mp hwrite
        obtain ⟨bytes, cost, inline, rfl, hrestores⟩ := ih hdistinct value _ _ hinner
        refine ⟨1 :: bytes, cost, inline, by simp, ?_⟩
        refine after (fun heap => readsAt_readByte ended 1 heap) ?_
        exact hrestores.mono fun _ _ hsame => .nullable hnode hsame
    case union types =>
      exact encodeUnion_restores hnode (fun ty hty => ih (hdistinct ty hty) value) _ _ hrest
    case literalString literal => exact encodeLiteral_restores literal value _ _ hrest
    case json | jsonObject => exact encodeAny_restores fuel value _ _ hrest
    case bytes =>
      obtain ⟨content, afterGet, hget, hwrite⟩ := Mut.bind_eq_ok.mp hrest
      obtain ⟨hbytes, rfl⟩ := ofExcept_eq_ok.mp hget
      obtain ⟨handle, node, rfl, hsource, hcontent⟩ := shapeOf_eq_ok hbytes
      obtain rfl := HeapNode.asBytes_eq_some hcontent
      obtain ⟨bytes, cost, rfl, hrestores⟩ := restores_bytes
        (Q := (SameTyped source · plan (.heap handle))) (tagged_eq_ok.mp hwrite)
        fun _ _ hnew => .any (.bytes hsource hnew)
      exact ⟨tagBytes :: bytes, cost, 8, by simp, hrestores.tagged⟩
    case date => exact encodeDate_restores value _ _ hrest
    case string => exact encodeString_restores value _ _ hrest
    case bool => exact encodeBool_restores value _ _ hrest
    case integer | number => exact encodeNumber_restores value _ _ hrest
    case null => exact encodeNull_restores value _ _ hrest
    case stream item | unknown => cases hrest
    case array item =>
      obtain ⟨items, afterGet, hget, hwrite⟩ := Mut.bind_eq_ok.mp hrest
      obtain ⟨hitems, rfl⟩ := ofExcept_eq_ok.mp hget
      obtain ⟨handle, node, rfl, hsource, harray⟩ := shapeOf_eq_ok hitems
      obtain rfl := HeapNode.asArray_eq_some harray
      obtain ⟨bytes, cost, rfl, hrestores⟩ := restores_array
        (Q := (SameTyped source · plan (.heap handle))) (stable_sameTyped item)
        (fun value _ => ih hdistinct value) (tagged_eq_ok.mp hwrite)
        fun _ _ _ hnew hlength hall => .array hnode hsource hnew hlength hall
      exact ⟨tagArray :: bytes, cost, 8, by simp, hrestores.tagged⟩
    case map keyType item =>
      obtain ⟨entries, afterGet, hget, hwrite⟩ := Mut.bind_eq_ok.mp hrest
      obtain ⟨hentries, rfl⟩ := ofExcept_eq_ok.mp hget
      obtain ⟨handle, node, rfl, hsource, hmap⟩ := shapeOf_eq_ok hentries
      obtain rfl := HeapNode.asMap_eq_some hmap
      obtain ⟨bytes, cost, rfl, hrestores⟩ := restores_entries
        (Q := (SameTyped source · plan (.heap handle))) (stable_sameTyped item)
        (writeRuntimeKey_reads keyType) (fun value => ih hdistinct value) .map
        (fun key => 24 + (utf8 key).length) (fun _ => rfl) (tagged_eq_ok.mp hwrite)
        fun _ _ _ hnew hkeys hall => .map hnode hsource hnew hkeys hall
      exact ⟨tagMap :: bytes, cost, 8, by simp, hrestores.tagged⟩
    case record fields =>
      obtain ⟨object, afterGet, hget, hextra⟩ := Mut.bind_eq_ok.mp hrest
      obtain ⟨hfields, rfl⟩ := ofExcept_eq_ok.mp hget
      obtain ⟨handle, node, rfl, hsource, hobject⟩ := fieldsOf_eq_ok hfields
      obtain ⟨_, afterExtra, hcheck, hwrite⟩ := Mut.bind_eq_ok.mp hextra
      obtain ⟨hdeclared, rfl⟩ := ofExcept_eq_ok.mp hcheck
      obtain ⟨_, afterFields, hencode, hrequire⟩ := Mut.bind_eq_ok.mp (tagged_eq_ok.mp hwrite)
      obtain ⟨hrequired, rfl⟩ := ofExcept_eq_ok.mp hrequire
      obtain ⟨bytes, cost, rfl, hrestores⟩ := restores_record hnode hsource hobject hdeclared
        hrequired hdistinct.1 (fun field hfield => ih (hdistinct.2 field hfield)) hencode
      exact ⟨tagObject :: bytes, cost, 8, by simp, hrestores.tagged⟩

end Typed

/-! ## More fuel -/

section Fuel

theorem extends_decodeEntries (readKey : Reader String) {read read' : Reader RuntimeValue}
    (h : read.Extends read') : (decodeEntries readKey read).Extends (decodeEntries readKey read') :=
  (refl readLen).bind fun length => extends_fold (fun _ =>
    (refl readKey).bind fun _ => h.bind fun _ => .refl _) length ∅

theorem extends_decodeFields {decode decode' : RuntimeTypePlan → Reader RuntimeValue}
    (h : ∀ ty, (decode ty).Extends (decode' ty)) (fields : List RuntimeRecordFieldPlan) :
    (decodeFields decode fields).Extends (decodeFields decode' fields) := by
  refine (refl readLen).bind fun length => extends_fold (fun object => ?_) length ∅
  refine (refl readStringRaw).bind fun name => (refl _).bind fun _ => ?_
  cases (fieldsByName fields).get? name with
  | none => exact .refl _
  | some field => exact (h field.ty).bind fun _ => .refl _

theorem extends_decodeAny (plan : RuntimeTypePlan) (fuel : Nat) :
    (decodeAny plan fuel).Extends (decodeAny plan (fuel + 1)) := by
  induction fuel with
  | zero => exact extends_fail _ _
  | succ fuel ih =>
    refine (refl readU8).bind fun tag => ?_
    -- Only arrays, objects and maps recurse.
    refine extends_ite (.refl _) <| extends_ite (.refl _) <| extends_ite (.refl _) <|
      extends_ite (.refl _) <| extends_ite (.refl _) <| extends_ite (.refl _) <|
      extends_ite (.refl _) <| extends_ite ?array <| extends_ite ?object <|
      extends_ite ?map (.refl _)
    case array =>
      exact (refl readLen).bind fun length => (extends_times ih length).bind fun _ => .refl _
    case object | map => exact (extends_decodeEntries _ ih).bind fun _ => .refl _

theorem extends_decodeTyped (fuel : Nat) (plan : RuntimeTypePlan) :
    (decodeTyped fuel plan).Extends (decodeTyped (fuel + 1) plan) := by
  induction fuel generalizing plan with
  | zero => exact extends_fail _ _
  | succ fuel ih =>
    rw [decodeTyped, decodeTyped]
    cases boundaryTypeNode plan with
    | nullable inner =>
      exact (refl readU8).bind fun _ => extends_ite (.refl _) (extends_ite (ih inner) (.refl _))
    | union types =>
      refine (refl readU8).bind fun branch => ?_
      cases types[branch.toNat]? with
      | none => exact .refl _
      | some ty => exact ih ty
    | json | jsonObject => exact extends_decodeAny plan fuel
    | array item =>
      exact (refl _).bind fun _ => (refl readLen).bind fun length =>
        (extends_times (ih item) length).bind fun _ => .refl _
    | map key item =>
      exact (refl _).bind fun _ => (extends_decodeEntries _ (ih item)).bind fun _ => .refl _
    | record fields =>
      exact (refl _).bind fun _ => (extends_decodeFields ih fields).bind fun _ => .refl _
    | _ => exact .refl _

theorem decodeTyped_mono {fuel more : Nat} (h : fuel ≤ more) (plan : RuntimeTypePlan) :
    (decodeTyped fuel plan).Extends (decodeTyped more plan) := by
  induction h with
  | refl => exact .refl _
  | step _ ih =>
    intro input heap x hx
    exact extends_decodeTyped _ plan input heap x (ih input heap x hx)

end Fuel

/-! ## The round trip -/

variable {plan : RuntimeTypePlan} {value : RuntimeValue} {boundary : String} {heap : RequestHeap}
variable {bytes : List UInt8}

theorem encodePayloadPlan_eq_ok (h : encodePayloadPlan fuel value plan boundary heap = .ok bytes) :
    encodeTyped heap fuel plan value (magic ++ [version]) = (.ok (), bytes) := by
  have hinner : encodePayloadPlanInner heap fuel value plan = .ok bytes := by
    unfold encodePayloadPlan at h
    cases hinner : encodePayloadPlanInner heap fuel value plan with
    | error stop =>
      rw [hinner] at h
      cases h
    | ok output =>
      rw [hinner] at h
      cases h
      rfl
  unfold encodePayloadPlanInner at hinner
  dsimp only at hinner
  split at hinner
  case h_1 output hencode =>
    cases hinner
    exact hencode
  case h_2 => cases hinner

theorem decodePayloadPlan_eq_ok {heap next : RequestHeap} {body : List UInt8}
    (h : decodeTyped fuel plan body heap = .ok (value, [], next)) :
    decodePayloadPlan fuel (magic ++ [version] ++ body) plan boundary heap = .ok (value, next) := by
  have hheader : ¬((magic ++ [version] ++ body).length < 5 ∨
      (magic ++ [version] ++ body).take 4 ≠ magic) := by
    simp [magic]
  have hinner : decodePayloadPlanInner fuel (magic ++ [version] ++ body) plan heap =
      .ok (value, next) := by
    rw [decodePayloadPlanInner, if_neg hheader, if_neg (by simp [magic])]
    have hbody : (magic ++ [version] ++ body).drop 5 = body := rfl
    rw [hbody, h]
    rfl
  rw [decodePayloadPlan, hinner]
  rfl

/-- What a successful encoding has written is read back, with any more fuel. -/
theorem read_back (hplan : plan.DistinctFields)
    (h : encodePayloadPlan fuel value plan boundary heap = .ok bytes) :
    ∃ cost : Cost, ∀ target : RequestHeap, target.HasRoom cost → ∃ result next,
      SameTyped heap next plan value result ∧ target.Grown next cost ∧
      ∀ more boundary', fuel ≤ more →
        decodePayloadPlan more bytes plan boundary' target = .ok (result, next) := by
  obtain ⟨body, cost, inline, rfl, hrestores⟩ :=
    restores_of_encodeTyped fuel hplan value _ _ (encodePayloadPlan_eq_ok h)
  refine ⟨cost, fun target hroom => ?_⟩
  obtain ⟨result, next, hreads, hgrown, -, hsame⟩ := hrestores target hroom
  refine ⟨result, next, hsame, hgrown, fun more boundary' hmore => ?_⟩
  have hdecode := hreads []
  rw [append_nil] at hdecode
  exact decodePayloadPlan_eq_ok (decodeTyped_mono hmore plan body target _ hdecode)

/-- A plan with a repeated field name, whose two plans read the field differently. -/
def repeatedFieldPlan : RuntimeTypePlan :=
  .mk "Pair" none (.record [
    .mk "a" (.mk "string?" none (.nullable (.mk "string" none .string))) true,
    .mk "a" (.mk "Json" none .json) true])

def limits : RequestHeapLimits := ⟨10, 1000⟩

/-- A heap with one object `{a: "x"}`. -/
def objectHeap : RequestHeap :=
  { RequestHeap.new limits with
    nodes := [⟨0, .object (.ofList [("a", .string "x")]), .plain⟩]
    stats := ⟨1, 50⟩ }

/-- The plan of the object with the field once. -/
def singleFieldPlan : RuntimeTypePlan :=
  .mk "Single" none
    (.record [.mk "a" (.mk "string?" none (.nullable (.mk "string" none .string))) true])

theorem singleFieldPlan_distinct : singleFieldPlan.DistinctFields := by
  intro label name fields h
  cases h with
  | refl => decide
  | record hfield hwithin =>
    cases mem_singleton.mp hfield
    cases hwithin with
    | nullable hinner => cases hinner

end Skiff.Runtime
