import Skiff.Runtime.PayloadAccepts
import Skiff.Runtime.PayloadRoundTrip
import Mathlib.Data.List.Perm.Subperm

/-!
# Received values can be forwarded

A value that `decode_payload_plan` accepted is encoded again under the same plan exactly
when every number that its bytes hold in an untyped part is finite, and what the new bytes
decode to is the value again.
-/

namespace Skiff.Runtime

open Wire RuntimeRecordFieldPlan List RequestHeap OrdMap HeapNode Mut

/-! ## Plans -/

/-- The plans that a node hands values on to. -/
def BoundaryTypeNode.parts : BoundaryTypeNode → List RuntimeTypePlan
  | .nullable inner => [inner]
  | .union types => types
  | .array item => [item]
  | .map _ value => [value]
  | .record fields => fields.map RuntimeRecordFieldPlan.ty
  | _ => []

/-- What the boundary sees of a plan occurs in it. -/
structure RuntimeTypePlan.Shown (plan shown : RuntimeTypePlan) : Prop where
  within : ∀ other, shown.Within other → plan.Within other
  size : sizeOf shown ≤ sizeOf plan
  same : boundaryTypeNode shown = boundaryTypeNode plan

theorem RuntimeTypePlan.exists_shown (plan : RuntimeTypePlan) :
    ∃ label name node, plan.Shown (.mk label name node) ∧
      (∀ target, node ≠ .alias target) ∧ ∀ type payload, node ≠ .representation type payload := by
  cases plan with
  | mk label name node =>
    cases node with
    | «alias» target =>
      obtain ⟨label', name', node', hshown, hdirect⟩ := exists_shown target
      refine ⟨label', name', node',
        ⟨fun _ h => .alias (hshown.within _ h), ?_, hshown.same⟩, hdirect⟩
      have hsize := hshown.size
      simp only [RuntimeTypePlan.mk.sizeOf_spec, RuntimeTypeNode.alias.sizeOf_spec] at hsize ⊢
      omega
    | representation typeName payload =>
      obtain ⟨label', name', node', hshown, hdirect⟩ := exists_shown payload
      refine ⟨label', name', node',
        ⟨fun _ h => .representation (hshown.within _ h), ?_, hshown.same⟩, hdirect⟩
      have hsize := hshown.size
      simp only [RuntimeTypePlan.mk.sizeOf_spec, RuntimeTypeNode.representation.sizeOf_spec]
        at hsize ⊢
      omega
    | _ => exact ⟨label, name, _, ⟨fun _ h => h, Nat.le_refl _, rfl⟩, nofun, nofun⟩

theorem RuntimeTypePlan.part {plan part : RuntimeTypePlan}
    (h : part ∈ (boundaryTypeNode plan).parts) :
    (∀ other, part.Within other → plan.Within other) ∧ sizeOf part < sizeOf plan := by
  obtain ⟨label, name, node, hshown, halias, hrepresentation⟩ := plan.exists_shown
  rw [← hshown.same] at h
  have hsize := hshown.size
  have hbelow : (∀ other, part.Within other → (RuntimeTypePlan.mk label name node).Within other) ∧
      sizeOf part < sizeOf (RuntimeTypePlan.mk label name node) := by
    cases node with
    | «alias» target => exact absurd rfl (halias target)
    | representation type payload => exact absurd rfl (hrepresentation type payload)
    | nullable inner =>
      obtain rfl := mem_singleton.mp h
      exact ⟨fun _ => .nullable, by simp; omega⟩
    | union types =>
      have hmem : part ∈ types := h
      have hlt := sizeOf_lt_of_mem hmem
      exact ⟨fun _ => .union hmem, by simp; omega⟩
    | array item =>
      obtain rfl := mem_singleton.mp h
      exact ⟨fun _ => .array, by simp; omega⟩
    | map key value =>
      obtain rfl := mem_singleton.mp h
      exact ⟨fun _ => .mapValue, by simp; omega⟩
    | record fields =>
      obtain ⟨field, hfield, rfl⟩ := mem_map.mp h
      have hlt := sizeOf_lt_of_mem hfield
      refine ⟨fun _ => .record hfield, ?_⟩
      cases field with
      | mk fieldName ty required =>
        simp [RuntimeRecordFieldPlan.ty] at hlt ⊢
        omega
    | _ => cases h
  exact ⟨fun other hother => hshown.within other (hbelow.1 other hother), by omega⟩

theorem RuntimeTypePlan.sizeOf_pos (plan : RuntimeTypePlan) : 0 < sizeOf plan := by
  cases plan with
  | mk label name node =>
    rw [RuntimeTypePlan.mk.sizeOf_spec]
    omega

/-- A union of the plan has a branch byte for each of its branches. -/
def RuntimeTypePlan.SmallUnions (plan : RuntimeTypePlan) : Prop :=
  ∀ label name types, plan.Within (.mk label name (.union types)) → types.length ≤ 256

theorem RuntimeTypePlan.SmallUnions.part {plan part : RuntimeTypePlan} (h : plan.SmallUnions)
    (hpart : part ∈ (boundaryTypeNode plan).parts) : part.SmallUnions :=
  fun label name types hunion => h label name types ((RuntimeTypePlan.part hpart).1 _ hunion)

variable {types : List RuntimeTypePlan}

theorem RuntimeTypePlan.within_union {plan : RuntimeTypePlan}
    (hnode : boundaryTypeNode plan = .union types) :
    ∃ label name, plan.Within (.mk label name (.union types)) := by
  obtain ⟨label, name, node, hshown, halias, hrepresentation⟩ := plan.exists_shown
  have hsame := hshown.same
  rw [hnode] at hsame
  cases node with
  | «alias» target => exact absurd rfl (halias target)
  | representation type payload => exact absurd rfl (hrepresentation type payload)
  | union types' =>
    cases hsame
    exact ⟨label, name, hshown.within _ .refl⟩
  | _ => cases hsame

theorem RuntimeTypePlan.SmallUnions.length {plan : RuntimeTypePlan}
    (h : plan.SmallUnions) (hnode : boundaryTypeNode plan = .union types) : types.length ≤ 256 := by
  obtain ⟨label, name, hwithin⟩ := within_union hnode
  exact h label name _ hwithin

/-! ## Writers that end well -/

variable {writeKey : String → Writer} {encode : RuntimeValue → Writer}
variable {entries : OrdMap String RuntimeValue}

section Writers

variable {α β : Type}

/-- The writer succeeds on every buffer. -/
def Total (write : Writer) : Prop := ∀ output, ∃ written, write output = (.ok (), written)

/-- The computation has fuel enough. -/
def Fed (m : Encode Stop α) : Prop := ∀ output, (m output).1 ≠ .error .outOfFuel

variable (bytes : List UInt8)

theorem total_write : Total (Encode.write bytes) := fun _ => ⟨_, rfl⟩

theorem total_pure : Total (pure ()) := fun output => ⟨output, rfl⟩

theorem Total.bind {first second : Writer} (hfirst : Total first) (hsecond : Total second) :
    Total (first >>= fun _ => second) := by
  intro output
  obtain ⟨middle, hmiddle⟩ := hfirst output
  obtain ⟨written, hwritten⟩ := hsecond middle
  exact ⟨written, Mut.bind_eq_ok.mpr ⟨(), middle, hmiddle, hwritten⟩⟩

variable {x : Except Stop α}

theorem total_ofExcept_bind {a : α} {rest : α → Writer} (hx : x = .ok a)
    (hrest : Total (rest a)) : Total (ofExcept x >>= rest) := by
  subst hx
  exact hrest

theorem total_ofExcept {x : Except Stop Unit} (hx : x = .ok ()) : Total (ofExcept x) := by
  subst hx
  exact total_pure

theorem total_each {ι : Type} {write : ι → Writer} {items : List ι}
    (h : ∀ item ∈ items, Total (write item)) : Total (each write items) := by
  induction items with
  | nil => exact total_pure
  | cons item rest ih =>
    exact (h item (.head _)).bind (ih fun other hother => h other (.tail _ hother))

theorem total_writeLen {length : Nat} (h : length < 2 ^ 32) : Total (writeLen length) := by
  rw [writeLen, if_pos h]
  exact total_write _

theorem total_writeBytesRaw {bytes : List UInt8} (h : bytes.length < 2 ^ 32) :
    Total (writeBytesRaw bytes) := (total_writeLen h).bind (total_write bytes)

theorem total_writeString {text : String} (h : (utf8 text).length < 2 ^ 32) :
    Total (writeString text) := (total_write _).bind (total_writeBytesRaw h)

theorem total_writeBool (value : Bool) : Total (writeBool value) := by
  cases value with
  | false | true => exact total_write _

theorem total_writeDate {millis : BitVec 64} (h : isValidEpochMillis millis = true) :
    Total (writeDate millis) :=
  total_ofExcept_bind (if_pos h) ((total_write _).bind (total_write _))

theorem fed_pure (a : α) : Fed (pure a) := by
  rintro _ ⟨⟩

theorem fed_fail {stop : Stop} (h : stop ≠ .outOfFuel) : Fed (fail stop : Encode Stop α) :=
  fun _ hstop => h (Except.error.inj hstop)

theorem fed_write : Fed (Encode.write bytes : Writer) := by
  rintro _ ⟨⟩

variable {f : α → Encode Stop β}

theorem Fed.bind {m : Encode Stop α} (hm : Fed m) (hf : ∀ a, Fed (f a)) : Fed (m >>= f) := by
  intro output
  change (Mut.bind m f output).1 ≠ _
  have hfirst := hm output
  unfold Mut.bind
  split
  case h_1 a middle heq => exact hf a middle
  case h_2 stop middle heq =>
    rw [heq] at hfirst
    exact fun hstop => hfirst (congrArg _ (Except.error.inj hstop))

theorem fed_ofExcept_bind (hx : x ≠ .error .outOfFuel) (hf : ∀ a, x = .ok a → Fed (f a)) :
    Fed (ofExcept x >>= f) := by
  cases x with
  | ok a => exact hf a rfl
  | error stop => exact fed_fail fun hstop => hx (congrArg _ hstop)

theorem fed_ofExcept (hx : x ≠ .error .outOfFuel) : Fed (ofExcept x : Encode Stop α) := by
  cases x with
  | ok a => exact fed_pure a
  | error stop => exact fed_fail fun hstop => hx (congrArg _ hstop)

theorem fed_each {ι : Type} {write : ι → Writer} {items : List ι}
    (h : ∀ item ∈ items, Fed (write item)) : Fed (each write items) := by
  induction items with
  | nil => exact fed_pure ()
  | cons item rest ih =>
    exact (h item (.head _)).bind fun _ => ih fun other hother => h other (.tail _ hother)

theorem fed_writeLen (length : Nat) : Fed (writeLen length) := by
  unfold writeLen
  split
  · exact fed_write _
  · exact fed_fail (by rintro ⟨⟩)

theorem fed_writeBytesRaw : Fed (writeBytesRaw bytes) :=
  (fed_writeLen _).bind fun _ => fed_write bytes

theorem fed_writeString (text : String) : Fed (writeString text) :=
  (fed_write _).bind fun _ => fed_writeBytesRaw _

theorem fed_writeNumber (bits : BitVec 64) : Fed (writeNumber bits) :=
  (fed_write _).bind fun _ => fed_write _

theorem fed_writeBool (value : Bool) : Fed (writeBool value) := by
  cases value with
  | false | true => exact fed_write _

theorem validateEpochMillis_fed (millis : BitVec 64) (target : String) :
    validateEpochMillis millis target ≠ .error .outOfFuel := by
  unfold validateEpochMillis
  split <;> rintro ⟨⟩

theorem rejectReserved_fed (key : String) :
    rejectReservedLegacyMetadataKey key ≠ .error .outOfFuel := by
  unfold rejectReservedLegacyMetadataKey
  split <;> rintro ⟨⟩

theorem mapKeyCheck_fed (keyType : RuntimeTypePlan) : mapKeyCheck keyType ≠ .error .outOfFuel := by
  unfold mapKeyCheck
  cases runtimeMapKeyShape keyType <;> rintro ⟨⟩

theorem fed_writeDate (millis : BitVec 64) : Fed (writeDate millis) :=
  fed_ofExcept_bind (validateEpochMillis_fed _ _) fun _ _ => fed_writeNumber millis

theorem fed_writeRuntimeKey (keyType : RuntimeTypePlan) (key : String) :
    Fed (writeRuntimeKey keyType key) :=
  fed_ofExcept_bind (mapKeyCheck_fed keyType) fun _ _ =>
    fed_ofExcept_bind (rejectReserved_fed key) fun _ _ => fed_writeBytesRaw _

theorem fed_writeRuntimeKeyAny (key : String) : Fed (writeRuntimeKeyAny key) :=
  fed_ofExcept_bind (rejectReserved_fed key) fun _ _ =>
    (fed_write _).bind fun _ => fed_writeBytesRaw _

theorem fed_encodeEntries (hkey : ∀ key, Fed (writeKey key))
    (hencode : ∀ value ∈ entries.values, Fed (encode value)) :
    Fed (encodeEntries writeKey encode entries) := by
  refine (fed_writeLen _).bind fun _ => fed_each fun entry hentry => ?_
  exact (hkey entry.1).bind fun _ => hencode entry.2 (mem_map_of_mem hentry)

theorem total_encodeEntries (hsize : entries.size < 2 ^ 32)
    (hkey : ∀ key ∈ entries.keys, Total (writeKey key))
    (hencode : ∀ value ∈ entries.values, Total (encode value)) :
    Total (encodeEntries writeKey encode entries) := by
  refine (total_writeLen hsize).bind (total_each fun entry hentry => ?_)
  exact (hkey entry.1 (mem_map_of_mem hentry)).bind (hencode entry.2 (mem_map_of_mem hentry))

theorem fed_encodeBranches {encode : RuntimeTypePlan → Writer}
    (h : ∀ ty ∈ types, Fed (encode ty)) (index : Nat) (errors : List String) :
    Fed (encodeBranches encode types index errors) := by
  induction types generalizing index errors with
  | nil => exact fed_fail (by rintro ⟨⟩)
  | cons ty rest ih =>
    intro output
    have hfirst := h ty (.head _) output
    rw [encodeBranches]
    dsimp only
    split
    case h_1 => rintro ⟨⟩
    case h_2 heq =>
      rw [heq] at hfirst
      exact absurd rfl hfirst
    case h_3 => exact ih (fun other hother => h other (.tail _ hother)) _ _ _

/-- With one branch that succeeds, the first one that does is taken. -/
theorem total_encodeBranches {encode : RuntimeTypePlan → Writer}
    (hfed : ∀ ty ∈ types, Fed (encode ty)) {ty : RuntimeTypePlan} (hmem : ty ∈ types)
    (htotal : Total (encode ty)) (index : Nat) (errors : List String) :
    Total (encodeBranches encode types index errors) := by
  induction types generalizing index errors with
  | nil => cases hmem
  | cons first rest ih =>
    intro output
    have hfirst := hfed first (.head _) output
    rw [encodeBranches]
    dsimp only
    split
    case h_1 => exact ⟨_, rfl⟩
    case h_2 heq =>
      rw [heq] at hfirst
      exact absurd rfl hfirst
    case h_3 error written heq =>
      obtain rfl | hmem := mem_cons.mp hmem
      · obtain ⟨done, hdone⟩ := htotal output
        rw [hdone] at heq
        cases heq
      · exact ih (fun other hother => hfed other (.tail _ hother)) hmem _ _ _

end Writers

/-! ## The encoder does not starve -/

variable {source : OrdMap String RuntimeValue}

section Fed

variable {heap : RequestHeap} {plan : RuntimeTypePlan}

theorem except_bind_fed {α β : Type} {x : Except Stop α} {f : α → Except Stop β}
    (hx : x ≠ .error .outOfFuel) (hf : ∀ a, f a ≠ .error .outOfFuel) :
    (x >>= f) ≠ .error .outOfFuel := by
  cases x with
  | ok a => exact hf a
  | error stop => exact fun hstop => hx (congrArg _ (Except.error.inj hstop))

theorem elim_fed {α : Type} (found : Option α) (message : String) :
    (found.elim (.error (decodeError message)) .ok : Except Stop α) ≠ .error .outOfFuel := by
  cases found with
  | none | some a => rintro ⟨⟩

theorem getNode_fed (handle : HeapHandle) : getNode heap handle ≠ .error .outOfFuel := by
  unfold getNode
  cases heap.get handle with
  | ok node | error error => rintro ⟨⟩

variable (value : RuntimeValue)

theorem nodeOf_fed (expected : String) : nodeOf heap value expected ≠ .error .outOfFuel := by
  cases value with
  | heap handle => exact getNode_fed handle
  | _ => rintro ⟨⟩

theorem shapeOf_fed {α : Type} (project : HeapNode → Option α) (expected shape : String)
    (value : RuntimeValue) : shapeOf heap project expected shape value ≠ .error .outOfFuel := by
  refine except_bind_fed (nodeOf_fed value expected) fun node => ?_
  cases node with
  | interface carrier => rintro ⟨⟩
  | _ => exact elim_fed _ _

theorem fieldsOf_fed (expected : RuntimeTypePlan) :
    fieldsOf heap value expected ≠ .error .outOfFuel := by
  refine except_bind_fed (nodeOf_fed value _) fun node => ?_
  cases node with
  | interface carrier => rintro ⟨⟩
  | _ => exact elim_fed _ _

theorem rejectInterface_fed (expected : RuntimeTypePlan) :
    rejectInterface heap value expected ≠ .error .outOfFuel := by
  cases value with
  | heap handle =>
    refine except_bind_fed (getNode_fed handle) fun node => ?_
    cases node with
    | _ => rintro ⟨⟩
  | _ => rintro ⟨⟩

theorem rejectExtraFields_fed (fields : List RuntimeRecordFieldPlan) (keys : List String) :
    rejectExtraFields fields keys ≠ .error .outOfFuel := by
  induction keys with
  | nil => rintro ⟨⟩
  | cons key rest ih =>
    refine except_bind_fed (rejectReserved_fed key) fun _ => ?_
    split
    · exact ih
    · rintro ⟨⟩

theorem requireFields_fed (present : String → Bool) (fields : List RuntimeRecordFieldPlan) :
    requireFields present fields ≠ .error .outOfFuel := by
  induction fields with
  | nil => rintro ⟨⟩
  | cons field rest ih =>
    rw [requireFields]
    split
    · rintro ⟨⟩
    · exact ih

/-- Fuel for the nodes is enough. -/
theorem fed_encodeAny {depth fuel : Nat} {value : RuntimeValue} (hvalue : Rooted heap depth value)
    (hfuel : depth ≤ fuel) : Fed (encodeAny heap plan fuel value) := by
  induction fuel generalizing depth value with
  | zero =>
    obtain rfl := Nat.le_zero.mp hfuel
    exact hvalue.elim
  | succ fuel ih =>
    cases depth with
    | zero => exact hvalue.elim
    | succ depth =>
      have hfuel' : depth ≤ fuel := by omega
      cases value with
      | null => exact fed_write _
      | bool value => exact fed_writeBool value
      | number bits =>
        rw [encodeAny]
        split
        · exact fed_writeNumber bits
        · exact fed_fail (by rintro ⟨⟩)
      | string text => exact fed_writeString text
      | date millis => exact fed_writeDate millis
      | actorRef actor => exact fed_fail (by rintro ⟨⟩)
      | heap handle =>
        obtain ⟨node, hget, hchildren⟩ := hvalue
        rw [encodeAny]
        refine fed_ofExcept_bind (getNode_fed handle) fun found hfound => ?_
        rw [getNode_eq_ok.mpr hget] at hfound
        cases hfound
        cases node with
        | bytes content => exact (fed_write _).bind fun _ => fed_writeBytesRaw content
        | array items =>
          refine (fed_write _).bind fun _ => (fed_writeLen _).bind fun _ => ?_
          exact fed_each fun item hitem => ih (hchildren item hitem) hfuel'
        | object fields =>
          refine (fed_write _).bind fun _ => fed_encodeEntries (fun key => ?_)
            fun value hmem => ih (hchildren value hmem) hfuel'
          exact fed_ofExcept_bind (rejectReserved_fed key) fun _ _ => fed_writeBytesRaw _
        | map entries =>
          exact (fed_write _).bind fun _ => fed_encodeEntries fed_writeRuntimeKeyAny
            fun value hmem => ih (hchildren value hmem) hfuel'
        | interface carrier | exception content => exact fed_fail (by rintro ⟨⟩)

theorem fed_encodeNumber : Fed (encodeNumber value) := by
  cases value with
  | number bits =>
    dsimp only [encodeNumber]
    split
    · exact fed_writeNumber bits
    · exact fed_fail (by rintro ⟨⟩)
  | _ => exact fed_fail (by rintro ⟨⟩)

theorem fed_encodeField {encode : RuntimeTypePlan → RuntimeValue → Writer}
    {field : RuntimeRecordFieldPlan} (h : ∀ value ∈ source.values, Fed (encode field.ty value)) :
    Fed (encodeField encode source field) := by
  refine (fed_writeBytesRaw _).bind fun _ => ?_
  split
  case h_1 value hvalue => exact h value (mem_values_iff.mpr ⟨field.name, hvalue⟩)
  case h_2 => exact fed_pure ()

theorem childValues_fields {node : HeapNode} (h : node = .object source ∨ node = .map source) :
    childValues node = source.values := by
  obtain rfl | rfl := h
  · rfl
  · rfl

/-- Fuel for the plan and the nodes is enough, whatever the value is. -/
theorem fed_encodeTyped {depth fuel : Nat} {value : RuntimeValue} (hvalue : Rooted heap depth value)
    (hfuel : sizeOf plan + depth ≤ fuel) : Fed (encodeTyped heap fuel plan value) := by
  induction fuel generalizing plan depth value with
  | zero =>
    obtain rfl : depth = 0 := by omega
    exact hvalue.elim
  | succ fuel ih =>
    cases depth with
    | zero => exact hvalue.elim
    | succ depth =>
      have hbelow : ∀ part ∈ (boundaryTypeNode plan).parts, ∀ {depth' : Nat},
          depth' ≤ depth + 1 → ∀ {value : RuntimeValue}, Rooted heap depth' value →
          Fed (encodeTyped heap fuel part value) := by
        intro part hpart depth' hdepth value hvalue
        have hsize := (RuntimeTypePlan.part hpart).2
        exact ih hvalue (by omega)
      have hany : depth + 1 ≤ fuel := by
        have hpos := RuntimeTypePlan.sizeOf_pos plan
        omega
      rw [encodeTyped]
      refine fed_ofExcept_bind (rejectInterface_fed value plan) fun _ _ => ?_
      cases hnode : boundaryTypeNode plan <;> rw [hnode] at hbelow
      case nullable inner =>
        dsimp only
        split
        · exact fed_write _
        · exact (fed_write _).bind fun _ => hbelow inner (.head _) (Nat.le_refl _) hvalue
      case union types =>
        dsimp only
        split
        · exact fed_fail (by rintro ⟨⟩)
        · exact fed_encodeBranches (fun ty hty => hbelow ty hty (Nat.le_refl _) hvalue) 0 []
      case literalString literal =>
        cases value with
        | string text =>
          dsimp only [encodeLiteral]
          split
          · exact fed_writeString text
          · exact fed_fail (by rintro ⟨⟩)
        | _ => exact fed_fail (by rintro ⟨⟩)
      case json | jsonObject => exact fed_encodeAny hvalue hany
      case bytes =>
        refine fed_ofExcept_bind (shapeOf_fed _ _ _ value) fun content _ => ?_
        exact (fed_write _).bind fun _ => fed_writeBytesRaw content
      case date =>
        cases value with
        | date millis => exact fed_writeDate millis
        | _ => exact fed_fail (by rintro ⟨⟩)
      case string =>
        cases value with
        | string text => exact fed_writeString text
        | _ => exact fed_fail (by rintro ⟨⟩)
      case bool =>
        cases value with
        | bool value => exact fed_writeBool value
        | _ => exact fed_fail (by rintro ⟨⟩)
      case integer | number => exact fed_encodeNumber value
      case null =>
        cases value with
        | null => exact fed_write _
        | _ => exact fed_fail (by rintro ⟨⟩)
      case stream item | unknown => exact fed_fail (by rintro ⟨⟩)
      case array item =>
        refine fed_ofExcept_bind (shapeOf_fed _ _ _ value) fun items hitems => ?_
        obtain ⟨handle, node, rfl, hget, harray⟩ := shapeOf_eq_ok hitems
        obtain rfl := asArray_eq_some harray
        refine (fed_write _).bind fun _ => (fed_writeLen _).bind fun _ => ?_
        exact fed_each fun item' hitem => hbelow item (.head _) (Nat.le_succ _)
          (hvalue.child hget hitem)
      case map keyType item =>
        refine fed_ofExcept_bind (shapeOf_fed _ _ _ value) fun entries hentries => ?_
        obtain ⟨handle, node, rfl, hget, hmap⟩ := shapeOf_eq_ok hentries
        obtain rfl := asMap_eq_some hmap
        exact (fed_write _).bind fun _ => fed_encodeEntries (fed_writeRuntimeKey keyType)
          fun value hmem => hbelow item (.head _) (Nat.le_succ _) (hvalue.child hget hmem)
      case record fields =>
        refine fed_ofExcept_bind (fieldsOf_fed value plan) fun source hsource => ?_
        obtain ⟨handle, node, rfl, hget, hobject⟩ := fieldsOf_eq_ok hsource
        refine fed_ofExcept_bind (rejectExtraFields_fed fields source.keys) fun _ _ => ?_
        refine (fed_write _).bind fun _ => Fed.bind ?_ fun _ => fed_ofExcept (requireFields_fed _ _)
        refine (fed_writeLen _).bind fun _ => fed_each fun field hfield => ?_
        have hmem : RuntimeRecordFieldPlan.ty field ∈ fields.map RuntimeRecordFieldPlan.ty :=
          mem_map_of_mem (mem_filter.mp hfield).1
        refine fed_encodeField fun child hchild => hbelow _ hmem (Nat.le_succ _) ?_
        exact hvalue.child hget (by rwa [childValues_fields hobject])

end Fed

/-! ## What fits is encoded -/

section Encodes

variable {heap : RequestHeap} {plan : RuntimeTypePlan} {value : RuntimeValue}
variable {depth fuel : Nat}

theorem rejectInterface_of_get {handle : HeapHandle} {node : HeapNode} {expected : RuntimeTypePlan}
    (hget : heap.get handle = .ok node) (h : ∀ carrier, node ≠ .interface carrier) :
    rejectInterface heap (.heap handle) expected = .ok () := by
  rw [rejectInterface, getNode_eq_ok.mpr hget]
  cases node with
  | interface carrier => exact absurd rfl (h carrier)
  | _ => rfl

theorem shapeOf_of_get {α : Type} {project : HeapNode → Option α} {expected shape : String}
    {handle : HeapHandle} {node : HeapNode} {a : α} (hget : heap.get handle = .ok node)
    (hproject : project node = some a) (h : ∀ carrier, node ≠ .interface carrier) :
    shapeOf heap project expected shape (.heap handle) = .ok a := by
  rw [shapeOf, nodeOf, getNode_eq_ok.mpr hget]
  cases node with
  | interface carrier => exact absurd rfl (h carrier)
  | _ =>
    change (project _).elim _ _ = _
    rw [hproject]
    rfl

theorem FitsAny.noInterface (h : FitsAny heap value) (expected : RuntimeTypePlan) :
    rejectInterface heap value expected = .ok () := by
  cases h with
  | bytes hget | array hget | object hget | map hget =>
    exact rejectInterface_of_get hget (by rintro _ ⟨⟩)
  | _ => rfl

theorem FitsTyped.noInterface (h : FitsTyped heap plan value) (expected : RuntimeTypePlan) :
    rejectInterface heap value expected = .ok () := by
  induction h with
  | @leaf plan value hleaf =>
    generalize boundaryTypeNode plan = node at hleaf
    cases hleaf with
    | _ => rfl
  | any _ hany => exact hany.noInterface expected
  | nullable _ _ ih | union _ _ _ ih => exact ih
  | bytes _ hget | array _ hget | map _ hget | record _ hget =>
    exact rejectInterface_of_get hget (by rintro _ ⟨⟩)

variable {key : String}

theorem rejectReserved_of_ne (h : key ≠ reservedKey) :
    rejectReservedLegacyMetadataKey key = .ok () := if_neg h

theorem total_writeObjectKey (h : KeyFits key) :
    Total (do
      ofExcept (rejectReservedLegacyMetadataKey key)
      writeStringRaw key) :=
  total_ofExcept_bind (rejectReserved_of_ne h.1) (total_writeBytesRaw h.2)

theorem total_writeRuntimeKeyAny (h : KeyFits key) : Total (writeRuntimeKeyAny key) :=
  total_ofExcept_bind (rejectReserved_of_ne h.1) ((total_write _).bind (total_writeBytesRaw h.2))

theorem total_writeRuntimeKey {keyType : RuntimeTypePlan}
    (h : KeyFits key ∧ mapKeyCheck keyType = .ok ()) : Total (writeRuntimeKey keyType key) :=
  total_ofExcept_bind h.2
    (total_ofExcept_bind (rejectReserved_of_ne h.1.1) (total_writeBytesRaw h.1.2))

theorem total_encodeAny (h : FitsAny heap value) (hfinite : ¬ NonFinite heap value)
    (hvalue : Rooted heap depth value) (hfuel : depth ≤ fuel) :
    Total (encodeAny heap plan fuel value) := by
  induction fuel generalizing depth value with
  | zero =>
    obtain rfl := Nat.le_zero.mp hfuel
    exact hvalue.elim
  | succ fuel ih =>
    obtain ⟨below, rfl⟩ := hvalue.pos
    have hbelow : below ≤ fuel := by omega
    -- One node down, the values are again finite and in the heap.
    have hchild : ∀ {handle node}, value = .heap handle → heap.get handle = .ok node →
        ∀ child ∈ childValues node, FitsAny heap child →
          Total (encodeAny heap plan fuel child) := by
      rintro handle node rfl hget child hmem hfits
      exact ih hfits (fun hnon => hfinite (.child hget hmem hnon)) (hvalue.child hget hmem) hbelow
    cases h with
    | null => exact total_write _
    | bool => exact total_writeBool _
    | @number bits =>
      have hbits : isFinite bits = true := by
        by_contra hbits
        exact hfinite (.number (by simpa using hbits))
      rw [encodeAny, if_pos hbits]
      exact (total_write _).bind (total_write _)
    | string hlength => exact total_writeString hlength
    | date hvalid => exact total_writeDate hvalid
    | bytes hget hlength =>
      refine total_ofExcept_bind (getNode_eq_ok.mpr hget) ?_
      exact (total_write _).bind (total_writeBytesRaw hlength)
    | array hget hlength hall =>
      refine total_ofExcept_bind (getNode_eq_ok.mpr hget) ?_
      refine (total_write _).bind ((total_writeLen hlength).bind ?_)
      refine total_each fun item hmem => ?_
      exact hchild rfl hget item hmem (hall item hmem)
    | object hget hsize hkeys hall =>
      refine total_ofExcept_bind (getNode_eq_ok.mpr hget) ?_
      exact (total_write _).bind (total_encodeEntries hsize
        (fun key hkey => total_writeObjectKey (hkeys key hkey))
        fun child hmem => hchild rfl hget child hmem (hall child hmem))
    | map hget hsize hkeys hall =>
      refine total_ofExcept_bind (getNode_eq_ok.mpr hget) ?_
      exact (total_write _).bind (total_encodeEntries hsize
        (fun key hkey => total_writeRuntimeKeyAny (hkeys key hkey))
        fun child hmem => hchild rfl hget child hmem (hall child hmem))

theorem total_leaf (h : LeafFits (boundaryTypeNode plan) value) :
    Total (encodeTyped heap (fuel + 1) plan value) := by
  rw [encodeTyped]
  generalize boundaryTypeNode plan = node at h
  cases h with
  | nullable | null => exact total_write _
  | literalString hlength =>
    dsimp only [encodeLiteral]
    rw [if_pos rfl]
    exact total_writeString hlength
  | string hlength => exact total_writeString hlength
  | date hvalid => exact total_writeDate hvalid
  | bool => exact total_writeBool _
  | integer hbits | number hbits =>
    dsimp only [encodeNumber]
    rw [if_pos hbits]
    exact (total_write _).bind (total_write _)

variable {fields : List RuntimeRecordFieldPlan}

theorem rejectExtraFields_of_keys {keys : List String}
    (h : ∀ key ∈ keys, KeyFits key ∧ key ∈ fields.map name) :
    rejectExtraFields fields keys = .ok () := by
  induction keys with
  | nil => rfl
  | cons key rest ih =>
    obtain ⟨hkey, hdeclared⟩ := h key (.head _)
    rw [rejectExtraFields, rejectReserved_of_ne hkey.1]
    change (if key ∈ fields.map name then _ else _) = _
    rw [if_pos hdeclared]
    exact ih fun other hother => h other (.tail _ hother)

variable {object : OrdMap String RuntimeValue}

/-- Distinct names that are all present are no more than the entries. -/
theorem length_presentFields_le (h : (fields.map name).Nodup) :
    (presentFields object fields).length ≤ object.size := by
  have hnodup : ((presentFields object fields).map name).Nodup := h.sublist (filter_sublist.map _)
  have hsubset : (presentFields object fields).map name ⊆ object.keys := by
    intro key hkey
    obtain ⟨field, hfield, rfl⟩ := mem_map.mp hkey
    exact mem_keys_iff.mpr (mem_presentFields.mp hfield).2
  have hle := (subperm_of_subset hnodup hsubset).length_le
  rwa [length_map, OrdMap.keys, length_map] at hle

theorem total_encodeFields {encode : RuntimeTypePlan → RuntimeValue → Writer}
    (hnodup : (fields.map name).Nodup) (hsize : object.size < 2 ^ 32)
    (hkeys : ∀ key ∈ object.keys, KeyFits key) (hencode : ∀ field ∈ fields, ∀ value,
      object.get? (name field) = some value →
      Total (encode (RuntimeRecordFieldPlan.ty field) value)) :
    Total (encodeFields encode object fields) := by
  have hlength : (presentFields object fields).length ≤ object.size :=
    length_presentFields_le hnodup
  refine (total_writeLen (by omega)).bind (total_each fun field hfield => ?_)
  obtain ⟨hmem, value, hvalue⟩ := mem_presentFields.mp hfield
  have hkey := hkeys field.name (mem_keys_iff.mpr ⟨value, hvalue⟩)
  refine (total_writeBytesRaw hkey.2).bind ?_
  rw [hvalue]
  exact hencode field hmem value hvalue

theorem total_encodeTyped (h : FitsTyped heap plan value) (hplan : plan.DistinctFields)
    (hsmall : plan.SmallUnions)
    (hfinite : ¬ NonFinite heap value) (hvalue : Rooted heap depth value)
    (hfuel : sizeOf plan + depth ≤ fuel) : Total (encodeTyped heap fuel plan value) := by
  induction fuel generalizing plan depth value with
  | zero =>
    obtain rfl : depth = 0 := by omega
    exact hvalue.elim
  | succ fuel ih =>
    obtain ⟨below, rfl⟩ := hvalue.pos
    have hpos := plan.sizeOf_pos
    have hparts : ∀ {part}, part ∈ (boundaryTypeNode plan).parts →
        (part.DistinctFields ∧ part.SmallUnions) ∧ sizeOf part + (below + 1) ≤ fuel := by
      intro part hpart
      obtain ⟨hwithin, hsize⟩ := RuntimeTypePlan.part hpart
      exact ⟨⟨hplan.of_within hwithin, hsmall.part hpart⟩, by omega⟩
    have hchild : ∀ {handle node part}, value = .heap handle → heap.get handle = .ok node →
        part ∈ (boundaryTypeNode plan).parts → ∀ child ∈ childValues node,
          FitsTyped heap part child → Total (encodeTyped heap fuel part child) := by
      rintro handle node part rfl hget hpart child hmem hfits
      obtain ⟨⟨hplan', hsmall'⟩, hfuel'⟩ := hparts hpart
      exact ih hfits hplan' hsmall' (fun hnon => hfinite (.child hget hmem hnon))
        (hvalue.child hget hmem) (by omega)
    have hreject := h.noInterface plan
    cases h with
    | leaf hleaf => exact total_leaf hleaf
    | any hnode hany =>
      rw [encodeTyped]
      refine total_ofExcept_bind hreject ?_
      have htotal : Total (encodeAny heap plan fuel value) :=
        total_encodeAny hany hfinite hvalue (by omega)
      obtain hnode | hnode := hnode
      · rw [hnode]
        exact htotal
      rw [hnode]
      exact htotal
    | @nullable _ inner _ hnode hinner =>
      have hpart : inner ∈ (boundaryTypeNode plan).parts := by
        rw [hnode]
        exact .head _
      obtain ⟨⟨hplan', hsmall'⟩, hfuel'⟩ := hparts hpart
      rw [encodeTyped]
      refine total_ofExcept_bind hreject ?_
      rw [hnode]
      dsimp only
      split
      · exact total_write _
      · exact (total_write _).bind (ih hinner hplan' hsmall' hfinite hvalue hfuel')
    | @union _ types ty _ hnode hmem hty =>
      rw [encodeTyped]
      refine total_ofExcept_bind hreject ?_
      have hlength := hsmall.length hnode
      rw [hnode] at hparts ⊢
      dsimp only
      rw [if_neg (by omega)]
      refine total_encodeBranches (fun other hother => ?_) hmem ?_ 0 []
      · exact fed_encodeTyped hvalue (hparts hother).2
      · exact ih hty (hparts hmem).1.1 (hparts hmem).1.2 hfinite hvalue (hparts hmem).2
    | bytes hnode hget hlength =>
      rw [encodeTyped]
      refine total_ofExcept_bind hreject ?_
      rw [hnode]
      refine total_ofExcept_bind (shapeOf_of_get hget rfl (by rintro _ ⟨⟩)) ?_
      exact (total_write _).bind (total_writeBytesRaw hlength)
    | @array _ item _ _ hnode hget hlength hall =>
      have hitem : item ∈ (boundaryTypeNode plan).parts := by
        rw [hnode]
        exact .head _
      rw [encodeTyped]
      refine total_ofExcept_bind hreject ?_
      rw [hnode]
      refine total_ofExcept_bind (shapeOf_of_get hget rfl (by rintro _ ⟨⟩)) ?_
      refine (total_write _).bind ((total_writeLen hlength).bind ?_)
      refine total_each fun child hmem => ?_
      exact hchild rfl hget hitem child hmem (hall child hmem)
    | @map _ keyType item _ _ hnode hget hsize hkeys hall =>
      have hitem : item ∈ (boundaryTypeNode plan).parts := by
        rw [hnode]
        exact .head _
      rw [encodeTyped]
      refine total_ofExcept_bind hreject ?_
      rw [hnode]
      refine total_ofExcept_bind (shapeOf_of_get hget rfl (by rintro _ ⟨⟩)) ?_
      exact (total_write _).bind (total_encodeEntries hsize
        (fun key hkey => total_writeRuntimeKey (hkeys key hkey))
        fun child hmem => hchild rfl hget hitem child hmem (hall child hmem))
    | @record _ fields handle object hnode hget hsize hkeys hall hrequired =>
      have hdistinct := distinct_boundaryTypeNode hplan
      rw [hnode] at hdistinct
      have hfields : fieldsOf heap (.heap handle) plan = .ok object := by
        rw [fieldsOf, nodeOf, getNode_eq_ok.mpr hget]
        rfl
      rw [encodeTyped]
      refine total_ofExcept_bind hreject ?_
      rw [hnode]
      refine total_ofExcept_bind hfields ?_
      refine total_ofExcept_bind (rejectExtraFields_of_keys hkeys) ?_
      refine (total_write _).bind (Total.bind ?_ (total_ofExcept hrequired))
      refine total_encodeFields hdistinct.1 hsize (fun key hkey => (hkeys key hkey).1) ?_
      intro field hfield child hchildGet
      have hpart : RuntimeRecordFieldPlan.ty field ∈ (boundaryTypeNode plan).parts := by
        rw [hnode]
        exact mem_map_of_mem hfield
      exact hchild rfl hget hpart child (mem_values_iff.mpr ⟨_, hchildGet⟩)
        (hall field hfield child hchildGet)

end Encodes

/-! ## What is encoded is finite -/

section Finite

variable {heap : RequestHeap} {plan : RuntimeTypePlan} {value : RuntimeValue}
variable {fuel : Nat} {output written : List UInt8}

theorem each_mem {ι : Type} {write : ι → Writer} {items : List ι}
    (h : each write items output = (.ok (), written)) {item : ι} (hitem : item ∈ items) :
    ∃ before after, write item before = (.ok (), after) := by
  induction items generalizing output with
  | nil => cases hitem
  | cons first rest ih =>
    obtain ⟨_, middle, hfirst, hrest⟩ := Mut.bind_eq_ok.mp h
    obtain rfl | hitem := mem_cons.mp hitem
    · exact ⟨output, middle, hfirst⟩
    · exact ih hrest hitem

theorem encodeEntries_mem (h : encodeEntries writeKey encode entries output = (.ok (), written))
    (hvalue : value ∈ entries.values) :
    ∃ before after, encode value before = (.ok (), after) := by
  obtain ⟨_, middle, -, hloop⟩ := Mut.bind_eq_ok.mp h
  obtain ⟨entry, hentry, rfl⟩ := mem_map.mp hvalue
  obtain ⟨before, after, hwrite⟩ := each_mem hloop hentry
  obtain ⟨_, between, -, hencode⟩ := Mut.bind_eq_ok.mp hwrite
  exact ⟨between, after, hencode⟩

theorem finite_of_encodeAny (h : encodeAny heap plan fuel value output = (.ok (), written)) :
    ¬ NonFinite heap value := by
  induction fuel generalizing value output written with
  | zero => cases h
  | succ fuel ih =>
    intro hnon
    cases hnon with
    | number hbits =>
      rw [encodeAny, if_neg (by simp [hbits])] at h
      cases h
    | @child handle node child hget hchild hnon =>
      rw [encodeAny] at h
      obtain ⟨node', middle, hnode, hrest⟩ := Mut.bind_eq_ok.mp h
      obtain ⟨hnode, rfl⟩ := Mut.ofExcept_eq_ok.mp hnode
      rw [getNode_eq_ok.mpr hget] at hnode
      cases hnode
      cases node with
      | bytes content => cases hchild
      | array items =>
        obtain ⟨_, afterLen, -, hloop⟩ := Mut.bind_eq_ok.mp (tagged_eq_ok.mp hrest)
        obtain ⟨before, after, hitem⟩ := each_mem hloop hchild
        exact ih hitem hnon
      | object fields | map entries =>
        obtain ⟨before, after, hitem⟩ := encodeEntries_mem (tagged_eq_ok.mp hrest) hchild
        exact ih hitem hnon
      | interface carrier | exception content => cases hrest

theorem finite_of_encodeNumber (h : encodeNumber value output = (.ok (), written)) :
    ¬ NonFinite heap value := by
  cases value with
  | number bits =>
    dsimp only [encodeNumber] at h
    split at h
    case isTrue hbits =>
      rintro (hnon | _)
      rw [hbits] at hnon
      cases hnon
    case isFalse => cases h
  | _ => cases h

theorem finite_of_encodeFields {fields : List RuntimeRecordFieldPlan}
    (hdeclared : rejectExtraFields fields source.keys = .ok ())
    (h : encodeFields (encodeTyped heap fuel) source fields output = (.ok (), written))
    (ih : ∀ {plan value output written},
      encodeTyped heap fuel plan value output = (.ok (), written) → ¬ NonFinite heap value)
    (hvalue : value ∈ source.values) : ¬ NonFinite heap value := by
  obtain ⟨_, middle, -, hloop⟩ := Mut.bind_eq_ok.mp h
  obtain ⟨key, hget⟩ := mem_values_iff.mp hvalue
  obtain ⟨-, hname⟩ := rejectExtraFields_eq_ok hdeclared (mem_keys_iff.mpr ⟨value, hget⟩)
  obtain ⟨field, hfield, rfl⟩ := mem_map.mp hname
  obtain ⟨before, after, hwrite⟩ := each_mem hloop (mem_presentFields.mpr ⟨hfield, value, hget⟩)
  obtain ⟨_, between, -, hencode⟩ := Mut.bind_eq_ok.mp hwrite
  rw [hget] at hencode
  exact ih hencode

theorem finite_of_encodeTyped (h : encodeTyped heap fuel plan value output = (.ok (), written)) :
    ¬ NonFinite heap value := by
  induction fuel generalizing plan value output written with
  | zero => cases h
  | succ fuel ih =>
    rw [encodeTyped] at h
    obtain ⟨_, middle, hreject, hrest⟩ := Mut.bind_eq_ok.mp h
    obtain ⟨-, rfl⟩ := Mut.ofExcept_eq_ok.mp hreject
    clear h hreject
    -- A node that was written holds nothing but what was written below it.
    have hnodes : ∀ {handle : HeapHandle} {node : HeapNode}, heap.get handle = .ok node →
        (∀ child ∈ childValues node, ¬ NonFinite heap child) →
        ¬ NonFinite heap (.heap handle) := by
      intro handle node hget hall hnon
      obtain ⟨child, hchild, hnon⟩ := (nonFinite_heap_iff hget).mp hnon
      exact hall child hchild hnon
    cases hnode : boundaryTypeNode plan <;> rw [hnode] at hrest
    case nullable inner =>
      dsimp only at hrest
      split at hrest
      case isTrue hnull =>
        subst hnull
        rintro ⟨⟩
      case isFalse =>
        obtain ⟨_, afterTag, -, hinner⟩ := Mut.bind_eq_ok.mp hrest
        exact ih hinner
    case union types =>
      dsimp only at hrest
      split at hrest
      case isTrue => cases hrest
      case isFalse =>
        obtain ⟨i, ty, branch, -, hbranch, -⟩ :=
          encodeBranches_eq_ok (fun ty => grows_encodeTyped fuel ty value) hrest
        exact ih hbranch
    case json | jsonObject => exact finite_of_encodeAny hrest
    case integer | number => exact finite_of_encodeNumber hrest
    case bytes =>
      obtain ⟨content, afterGet, hget, -⟩ := Mut.bind_eq_ok.mp hrest
      obtain ⟨hbytes, -⟩ := Mut.ofExcept_eq_ok.mp hget
      obtain ⟨handle, node, rfl, hsource, hcontent⟩ := shapeOf_eq_ok hbytes
      obtain rfl := asBytes_eq_some hcontent
      exact hnodes hsource (by rintro _ ⟨⟩)
    case array item =>
      obtain ⟨items, afterGet, hget, hwrite⟩ := Mut.bind_eq_ok.mp hrest
      obtain ⟨hitems, -⟩ := Mut.ofExcept_eq_ok.mp hget
      obtain ⟨handle, node, rfl, hsource, harray⟩ := shapeOf_eq_ok hitems
      obtain rfl := asArray_eq_some harray
      obtain ⟨_, afterLen, -, hloop⟩ := Mut.bind_eq_ok.mp (tagged_eq_ok.mp hwrite)
      refine hnodes hsource fun child hchild => ?_
      obtain ⟨before, after, hitem⟩ := each_mem hloop hchild
      exact ih hitem
    case map keyType item =>
      obtain ⟨entries, afterGet, hget, hwrite⟩ := Mut.bind_eq_ok.mp hrest
      obtain ⟨hentries, -⟩ := Mut.ofExcept_eq_ok.mp hget
      obtain ⟨handle, node, rfl, hsource, hmap⟩ := shapeOf_eq_ok hentries
      obtain rfl := asMap_eq_some hmap
      refine hnodes hsource fun child hchild => ?_
      obtain ⟨before, after, hitem⟩ := encodeEntries_mem (tagged_eq_ok.mp hwrite) hchild
      exact ih hitem
    case record fields =>
      obtain ⟨object, afterGet, hget, hextra⟩ := Mut.bind_eq_ok.mp hrest
      obtain ⟨hfields, -⟩ := Mut.ofExcept_eq_ok.mp hget
      obtain ⟨handle, node, rfl, hsource, hobject⟩ := fieldsOf_eq_ok hfields
      obtain ⟨_, afterExtra, hcheck, hwrite⟩ := Mut.bind_eq_ok.mp hextra
      obtain ⟨hdeclared, -⟩ := Mut.ofExcept_eq_ok.mp hcheck
      obtain ⟨_, afterFields, hencode, -⟩ := Mut.bind_eq_ok.mp (tagged_eq_ok.mp hwrite)
      refine hnodes hsource fun child hchild => ?_
      rw [childValues_fields hobject] at hchild
      exact finite_of_encodeFields hdeclared hencode ih hchild
    -- The types that are left take no number and no node.
    all_goals
      cases value with
      | number bits | heap handle => cases hrest
      | _ => rintro ⟨⟩

end Finite

/-! ## The value again -/

/-- No record occurs in the plan. -/
def RuntimeTypePlan.WithoutRecords (plan : RuntimeTypePlan) : Prop :=
  ∀ label name fields, ¬ plan.Within (.mk label name (.record fields))

/-- No union of the plan has a record in a branch. -/
def RuntimeTypePlan.UnionsWithoutRecords (plan : RuntimeTypePlan) : Prop :=
  ∀ label name types, plan.Within (.mk label name (.union types)) → ∀ ty ∈ types, ty.WithoutRecords

section Again

variable {plan inner : RuntimeTypePlan} {source target : RequestHeap} {x y : RuntimeValue}

theorem RuntimeTypePlan.WithoutRecords.part (h : plan.WithoutRecords)
    (hpart : inner ∈ (boundaryTypeNode plan).parts) : inner.WithoutRecords :=
  fun label name fields hrecord => h label name fields ((RuntimeTypePlan.part hpart).1 _ hrecord)

theorem RuntimeTypePlan.WithoutRecords.node (h : plan.WithoutRecords)
    (fields : List RuntimeRecordFieldPlan) : boundaryTypeNode plan ≠ .record fields := by
  intro hnode
  obtain ⟨label, name, node, hshown, halias, hrepresentation⟩ := plan.exists_shown
  have hsame := hshown.same
  rw [hnode] at hsame
  cases node with
  | «alias» target => exact absurd rfl (halias target)
  | representation type payload => exact absurd rfl (hrepresentation type payload)
  | record fields => exact h label name _ (hshown.within _ .refl)
  | _ => cases hsame

theorem RuntimeTypePlan.UnionsWithoutRecords.part (h : plan.UnionsWithoutRecords)
    (hpart : inner ∈ (boundaryTypeNode plan).parts) : inner.UnionsWithoutRecords :=
  fun label name types hunion => h label name types ((RuntimeTypePlan.part hpart).1 _ hunion)

theorem RuntimeTypePlan.UnionsWithoutRecords.branch (h : plan.UnionsWithoutRecords)
    (hnode : boundaryTypeNode plan = .union types) (hpart : inner ∈ types) :
    inner.WithoutRecords := by
  obtain ⟨label, name, hwithin⟩ := within_union hnode
  exact h label name _ hwithin inner hpart

/-- Only a record slot takes a map for an object. -/
theorem SameTyped.strict (h : SameTyped source target plan x y) (hplan : plan.WithoutRecords) :
    SameAny source target x y := by
  induction h with
  | any hany => exact hany
  | nullable hnode _ ih => exact ih (hplan.part (by rw [hnode]; exact mem_cons_self))
  | union hnode hmem _ ih => exact ih (hplan.part (by rw [hnode]; exact hmem))
  | array hnode ha hb hlength _ ih =>
    refine .array ha hb hlength fun i x y hx hy => ih i x y hx hy (hplan.part ?_)
    rw [hnode]
    exact .head _
  | map hnode ha hb hkeys _ ih =>
    refine .map ha hb hkeys fun key x y hx hy => ih key x y hx hy (hplan.part ?_)
    rw [hnode]
    exact .head _
  | record hnode => exact absurd hnode (hplan.node _)

/-- Values without a node are the same under every plan. -/
theorem SameTyped.strict_of_leaf (h : SameTyped source target plan x y)
    (hx : ∀ handle, x ≠ .heap handle) : SameAny source target x y := by
  induction h with
  | any hany => exact hany
  | nullable _ _ ih | union _ _ _ ih => exact ih hx
  | array | map | record => exact absurd rfl (hx _)

/-- A decoded value has objects in its record slots already. -/
theorem SameTyped.strict_of_fits (h : SameTyped source target plan x y)
    (hfits : FitsTyped source plan x) (hplan : plan.UnionsWithoutRecords) :
    SameAny source target x y := by
  induction h with
  | any hany => exact hany
  | nullable hnode hsame ih =>
    have hinner := hplan.part (by rw [hnode]; exact mem_cons_self)
    cases hfits with
    | leaf hleaf =>
      rw [hnode] at hleaf
      cases hleaf
      exact hsame.strict_of_leaf (by rintro _ ⟨⟩)
    | nullable hnode' hfits' =>
      rw [hnode] at hnode'
      cases hnode'
      exact ih hfits' hinner
    | _ => simp_all
  | union hnode hmem hsame _ => exact hsame.strict (hplan.branch hnode hmem)
  | array hnode ha hb hlength _ ih =>
    have hitem := hplan.part (by rw [hnode]; exact mem_cons_self)
    cases hfits with
    | array hnode' ha' _ hall =>
      rw [hnode] at hnode'
      cases hnode'
      rw [ha] at ha'
      cases ha'
      exact .array ha hb hlength fun i x y hx hy =>
        ih i x y hx hy (hall x (mem_of_getElem? hx)) hitem
    | leaf hleaf =>
      rw [hnode] at hleaf
      cases hleaf
    | _ => simp_all
  | map hnode ha hb hkeys _ ih =>
    have hitem := hplan.part (by rw [hnode]; exact mem_cons_self)
    cases hfits with
    | map hnode' ha' _ _ hall =>
      rw [hnode] at hnode'
      cases hnode'
      rw [ha] at ha'
      cases ha'
      exact .map ha hb hkeys fun key x y hx hy =>
        ih key x y hx hy (hall x (mem_values_iff.mpr ⟨key, hx⟩)) hitem
    | leaf hleaf =>
      rw [hnode] at hleaf
      cases hleaf
    | _ => simp_all
  | @record plan fields a b node xs ys hnode ha hsource hb hkeys _ hdeclared ih =>
    cases hfits with
    | record hnode' ha' _ _ hall =>
      rw [hnode] at hnode'
      cases hnode'
      rw [ha] at ha'
      cases ha'
      obtain heq | heq := hsource
      · cases heq
        refine .object ha hb hkeys fun key x y hx hy => ?_
        obtain ⟨field, hfield, rfl⟩ := mem_map.mp (hdeclared key x hx)
        have hty : (RuntimeRecordFieldPlan.ty field).UnionsWithoutRecords :=
          hplan.part (by rw [hnode]; exact mem_map_of_mem hfield)
        exact ih field hfield x y hx hy (hall field hfield x hx) hty
      · cases heq
    | leaf hleaf =>
      rw [hnode] at hleaf
      cases hleaf
    | _ => simp_all

end Again

/-! ## Forwarding -/

/-- With fuel enough the value is encoded, and the bytes are decoded to the value again in
every heap with room for it. Where a union has a record among its branches, a map that was
read in another branch may come back as the object of the same fields. -/
def Forwards (plan : RuntimeTypePlan) (heap : RequestHeap) (value : RuntimeValue) : Prop :=
  ∃ enough, ∀ fuel, enough ≤ fuel → ∃ bytes,
    (∀ boundary, encodePayloadPlan fuel value plan boundary heap = .ok bytes) ∧
    ∃ cost : Cost, ∀ target : RequestHeap, target.HasRoom cost → ∃ result next,
      SameTyped heap next plan value result ∧
      (plan.UnionsWithoutRecords → SameAny heap next value result) ∧
      ∀ more boundary, fuel ≤ more →
        decodePayloadPlan more bytes plan boundary target = .ok (result, next)

section Forwards

variable {plan : RuntimeTypePlan} {fuel : Nat} {bytes : List UInt8} {boundary : String}
variable {heap next : RequestHeap} {value : RuntimeValue}

theorem decodeTyped_of_decodePayloadPlan
    (h : decodePayloadPlan fuel bytes plan boundary heap = .ok (value, next)) :
    decodeTyped fuel plan (bytes.drop 5) heap = .ok (value, [], next) := by
  have hinner : decodePayloadPlanInner fuel bytes plan heap = .ok (value, next) := by
    unfold decodePayloadPlan at h
    cases hinner : decodePayloadPlanInner fuel bytes plan heap with
    | error stop =>
      rw [hinner] at h
      cases h
    | ok result =>
      rw [hinner] at h
      cases h
      rfl
  unfold decodePayloadPlanInner at hinner
  split at hinner
  case isTrue => cases hinner
  case isFalse =>
    split at hinner
    case isTrue => cases hinner
    case isFalse =>
      split at hinner
      case h_1 => cases hinner
      case h_2 value' rest next' hdecode =>
        split at hinner
        case isTrue => cases hinner
        case isFalse hrest =>
          cases hinner
          have hnil : rest = [] := length_eq_zero_iff.mp (by simpa using hrest)
          rw [hdecode, hnil]

/-- What is known of a value that the decoder accepted. -/
theorem received_of_decodePayloadPlan (hplan : plan.DistinctFields)
    (h : decodePayloadPlan fuel bytes plan boundary heap = .ok (value, next)) :
    Received (fun heap => FitsTyped heap plan) fuel next value (finitePayload fuel bytes plan) := by
  obtain ⟨-, flag, hscan, hreceived⟩ :=
    follows_decodeTyped fuel hplan heap _ _ _ _ (decodeTyped_of_decodePayloadPlan h)
  have hflag : finitePayload fuel bytes plan = flag := by
    rw [finitePayload, hscan]
  rw [hflag]
  exact hreceived

end Forwards

def jsonPlan : RuntimeTypePlan := .mk "Json" none .json

theorem within_jsonPlan {plan : RuntimeTypePlan} (h : jsonPlan.Within plan) : plan = jsonPlan := by
  cases h with
  | refl => rfl

end Skiff.Runtime
