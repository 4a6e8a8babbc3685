import Skiff.ServiceDb.Mapping

/-!
# What the mapping writes

The fields of a stored document and the assignments of an update, each traced back to
the business value it was made from. `Projected` is the one fact about a value that
all ways of writing share, business or runtime, whole documents or changes.
-/

namespace Skiff.ServiceDb

open Skiff.Runtime List UpdateDocument Except

theorem mapError_eq_ok {ε ε' α : Type} {x : Except ε α} {f : ε → ε'} {a : α} :
    x.mapError f = .ok a ↔ x = .ok a := by
  cases x with
  | error e | ok b => simp [Except.mapError]

variable {value : BsonValue} {field : String}

section Values

variable {ρ : Type} {codecs : DbCodecs ρ}

/-- A value stored under a plan: an envelope in the envelope lane, and otherwise the
coercion of its JSON. -/
def Projected (codecs : DbCodecs ρ) (plan : Option DbBoundaryValuePlanRef) (json : Json.Tree)
    (value : BsonValue) : Prop :=
  (∃ ref bytes, plan = some ref ∧ ref.storageLane = .recoverableEnvelope ∧ value = .binary bytes) ∨
    (∀ ref, plan = some ref → ref.storageLane ≠ .recoverableEnvelope) ∧
      ∃ raw, toBson json = .ok raw ∧ coerceBsonValueForType codecs raw plan = .ok value

variable {ref : DbBoundaryValuePlanRef} {plan : Option DbBoundaryValuePlanRef}

theorem projection_eq_recoverableEnvelope_iff :
    ref.projection = .recoverableEnvelope ↔ ref.storageLane = .recoverableEnvelope := by
  unfold DbBoundaryValuePlanRef.projection
  split
  case isTrue hlane => simp [hlane]
  case isFalse hlane =>
    simp only [hlane, iff_false]
    split <;> exact DbValueProjection.noConfusion

theorem coerce_envelope {raw value : BsonValue} (hlane : ref.storageLane = .recoverableEnvelope)
    (h : coerceBsonValueForType codecs raw (some ref) = .ok value) :
    ∃ bytes, value = .binary bytes := by
  unfold coerceBsonValueForType at h
  obtain ⟨u, -, h⟩ := bind_eq_ok.mp h
  simp only [projection_eq_recoverableEnvelope_iff.mpr hlane] at h
  obtain ⟨json, -, h⟩ := bind_eq_ok.mp h
  obtain ⟨bytes, -, h⟩ := bind_eq_ok.mp h
  exact ⟨bytes, (ok.inj h).symm⟩

theorem bsonFromBusinessValue_projected {json : Json.Tree}
    (h : bsonFromBusinessValue codecs json plan = .ok value) :
    Projected codecs plan json value := by
  obtain ⟨raw, hraw, hcoerce⟩ := bind_eq_ok.mp h
  by_cases hlane : ∃ ref, plan = some ref ∧ ref.storageLane = .recoverableEnvelope
  · obtain ⟨ref, rfl, hlane⟩ := hlane
    obtain ⟨bytes, hbytes⟩ := coerce_envelope hlane hcoerce
    exact .inl ⟨ref, bytes, rfl, hlane, hbytes⟩
  · refine .inr ⟨fun ref href henvelope => hlane ⟨ref, href, henvelope⟩, raw, hraw, hcoerce⟩

/-- The JSON of a runtime value is only made outside the envelope lane. -/
theorem bsonFromRuntimeBusinessValue_projected {value : ρ} {stored : BsonValue}
    (h : bsonFromRuntimeBusinessValue codecs value plan field = .ok stored) :
    ∃ json, Projected codecs plan json stored ∧
      ∀ json', codecs.encodeUntypedWireJson value = .ok json' →
        Projected codecs plan json' stored := by
  obtain ⟨u, -, h⟩ := bind_eq_ok.mp h
  split at h
  case h_1 _ ref _ hprojection =>
    rw [Option.map_some, Option.some.injEq] at hprojection
    obtain ⟨bytes, -, h⟩ := bind_eq_ok.mp h
    have hstored : ∀ json, Projected codecs (some ref) json stored := fun json =>
      .inl ⟨ref, bytes, rfl, projection_eq_recoverableEnvelope_iff.mp hprojection,
        (ok.inj h).symm⟩
    exact ⟨.null, hstored .null, fun json' _ => hstored json'⟩
  · obtain ⟨json, hjson, h⟩ := bind_eq_ok.mp h
    rw [mapError_eq_ok] at hjson
    refine ⟨json, bsonFromBusinessValue_projected h, ?_⟩
    intro json' hjson'
    rw [hjson] at hjson'
    cases hjson'
    exact bsonFromBusinessValue_projected h

end Values

/-! ## Documents -/

namespace DbCollectionMetadata

variable {ρ : Type} {codecs : DbCodecs ρ} {binding : DbCollectionMetadata}
variable {document out : MongoDocument}

variable {context : Option EncryptedRecordContext}

theorem storeField_eq_ok {plaintext : Except ServiceDbError BsonValue}
    (h : binding.storeField codecs context document field plaintext = .ok out) :
    isReservedDbBusinessMetadataName field = false ∧
      ∃ plain stored, plaintext = .ok plain ∧
        binding.encodeFieldStorage codecs field context plain = .ok stored ∧
        out = document.insert field stored := by
  obtain ⟨u, hname, h⟩ := bind_eq_ok.mp h
  obtain ⟨plain, hplain, h⟩ := bind_eq_ok.mp h
  obtain ⟨stored, hstored, h⟩ := bind_eq_ok.mp h
  rw [mapError_eq_ok, validateDbBusinessFieldName_eq_ok] at hname
  exact ⟨hname, plain, stored, hplain, hstored, (ok.inj h).symm⟩

/-- Encryption is for strings, and everything else is stored as it is. -/
theorem encodeFieldStorage_of_not_string
    {plain stored : BsonValue} (hplain : ∀ text, plain ≠ .string text)
    (h : binding.encodeFieldStorage codecs field context plain = .ok stored) : stored = plain := by
  unfold encodeFieldStorage at h
  split at h
  · exact (ok.inj h).symm
  split at h
  · exact (ok.inj h).symm
  · exact absurd rfl (hplain _)
  · cases h

/-- The loop both kinds of documents are built with: fields are stored one by one,
the skipped ones left out. -/
def storeFields {α : Type} (codecs : DbCodecs ρ) (binding : DbCollectionMetadata)
    (context : Option EncryptedRecordContext) (skip : String)
    (plaintext : String × α → Except ServiceDbError BsonValue) (document : MongoDocument)
    (fields : List (String × α)) : Except ServiceDbError MongoDocument :=
  fields.foldlM (fun document field =>
    if field.1 = skip then .ok document
    else binding.storeField codecs context document field.1 (plaintext field)) document

variable {α : Type} {context : Option EncryptedRecordContext} {skip : String}
  {plaintext : String × α → Except ServiceDbError BsonValue} {fields : List (String × α)}

theorem storeFields_cons {field : String × α}
    (h : storeFields codecs binding context skip plaintext document (field :: fields) = .ok out) :
    field.1 = skip ∧ storeFields codecs binding context skip plaintext document fields = .ok out ∨
      field.1 ≠ skip ∧ isReservedDbBusinessMetadataName field.1 = false ∧
        ∃ plain stored, plaintext field = .ok plain ∧
          binding.encodeFieldStorage codecs field.1 context plain = .ok stored ∧
          storeFields codecs binding context skip plaintext
            (document.insert field.1 stored) fields =
            .ok out := by
  obtain ⟨middle, hmiddle, hrest⟩ := bind_eq_ok.mp h
  dsimp only at hmiddle
  split at hmiddle
  case isTrue hskip =>
    cases hmiddle
    exact .inl ⟨hskip, hrest⟩
  case isFalse hskip =>
    obtain ⟨hname, plain, stored, hplain, hstored, rfl⟩ := storeField_eq_ok hmiddle
    exact .inr ⟨hskip, hname, plain, stored, hplain, hstored, hrest⟩

/-- A name that is not among the fields keeps what the document had. -/
theorem storeFields_absent {name : String}
    (h : storeFields codecs binding context skip plaintext document fields = .ok out)
    (hname : ∀ field ∈ fields, field.1 = name → field.1 = skip) :
    out.get? name = document.get? name := by
  induction fields generalizing document with
  | nil =>
    cases h
    rfl
  | cons field fields ih =>
    rw [forall_mem_cons] at hname
    obtain ⟨-, h⟩ | ⟨hskip, -, plain, stored, -, -, h⟩ := storeFields_cons h
    · exact ih h hname.2
    have hne : name ≠ field.1 := fun heq => hskip (hname.1 heq.symm)
    rw [ih h hname.2, OrdMap.get?_insert_of_ne _ _ hne]

theorem storeFields_present {name : String} {value : α}
    (h : storeFields codecs binding context skip plaintext document fields = .ok out)
    (hnodup : (fields.map Prod.fst).Nodup) (hmem : (name, value) ∈ fields) (hskip : name ≠ skip) :
    ∃ plain stored, plaintext (name, value) = .ok plain ∧
      binding.encodeFieldStorage codecs name context plain = .ok stored ∧
      out.get? name = some stored := by
  induction fields generalizing document with
  | nil => cases hmem
  | cons field fields ih =>
    rw [map_cons, nodup_cons] at hnodup
    obtain rfl | hmem := mem_cons.mp hmem
    · obtain ⟨heq, -⟩ | ⟨-, -, plain, stored, hplain, hstored, h⟩ := storeFields_cons h
      · exact absurd heq hskip
      refine ⟨plain, stored, hplain, hstored, ?_⟩
      have habsent : ∀ field ∈ fields, field.1 = name → field.1 = skip := by
        intro field hfield heq
        exact absurd (mem_map.mpr ⟨field, hfield, heq⟩) hnodup.1
      rw [storeFields_absent h habsent]
      exact OrdMap.get?_insert_self _ _ _
    obtain ⟨-, h⟩ | ⟨-, -, plain, stored, -, -, h⟩ := storeFields_cons h
    · exact ih h hnodup.2 hmem
    · exact ih h hnodup.2 hmem

end DbCollectionMetadata

/-! ## Changes -/

variable {assignment : Assignment BsonValue}

namespace DbCollectionMetadata

variable {ρ : Type} {codecs : DbCodecs ρ} {binding : DbCollectionMetadata}

/-- What every assignment of an update went through. -/
structure Assigned (codecs : DbCodecs ρ) (binding : DbCollectionMetadata)
    (assignment : Assignment BsonValue) : Prop where
  resolved : ∃ resolved, binding.resolveBusinessFieldPath assignment.path = .ok resolved
  whole : assignment.operator = .set → ∃ context resolved plain json,
    binding.resolveBusinessFieldPath assignment.path = .ok resolved ∧
    binding.validateStorageFieldUse resolved .wholeSet context = .ok () ∧
    Projected codecs (binding.fieldWriteProjectionPlanForPath assignment.path) json plain ∧
    binding.encodeFieldStorage codecs resolved.topLevel context plain = .ok assignment.operand
  partly : assignment.operator ≠ .set → ∃ resolved,
    binding.resolveBusinessFieldPath assignment.path = .ok resolved ∧
    binding.validateStorageFieldUse resolved .partialChange none = .ok ()

theorem Assigned.of_single {resolved : DbResolvedFieldPath}
    {u : Unit} (hoperator : assignment.operator ≠ .set)
    (hresolved : binding.resolveBusinessFieldPath assignment.path = .ok resolved)
    (huse : binding.validateStorageFieldUse resolved .partialChange none = .ok u) :
    Assigned codecs binding assignment :=
  ⟨⟨resolved, hresolved⟩, fun hset => absurd hset hoperator, fun _ => ⟨resolved, hresolved, huse⟩⟩

end DbCollectionMetadata

variable {path : String}

theorem mem_documentInsert {entries : List (String × BsonValue)}
    {entry : String × BsonValue} (h : entry ∈ documentInsert path value entries) :
    entry = (path, value) ∨ entry ∈ entries := by
  induction entries with
  | nil => exact .inl (mem_singleton.mp h)
  | cons head rest ih =>
    obtain ⟨other, old⟩ := head
    rw [documentInsert] at h
    split at h
    · obtain h | h := mem_cons.mp h
      · exact .inl h
      · exact .inr (.tail _ h)
    obtain h | h := mem_cons.mp h
    · exact .inr (h ▸ (.head _))
    · exact (ih h).imp_right (mem_cons_of_mem _)

theorem paths_documentInsert {path other : String} {entries : List (String × BsonValue)} :
    other ∈ (documentInsert path value entries).map Prod.fst ↔
      other = path ∨ other ∈ entries.map Prod.fst := by
  induction entries with
  | nil => simp [documentInsert]
  | cons head rest ih =>
    obtain ⟨name, old⟩ := head
    rw [documentInsert]
    split
    case isTrue heq => simp [heq]
    case isFalse hne =>
      rw [map_cons, mem_cons, ih, map_cons, mem_cons]
      tauto

namespace UpdateDocument

def entries (update : UpdateDocument) : Operator → List (String × BsonValue)
  | .set => update.set
  | .inc => update.inc
  | .unset => update.unset
  | .addToSet => update.addToSet
  | .pull => update.pull

variable {update : UpdateDocument}

theorem mem_assignments :
    assignment ∈ update.assignments ↔
      (assignment.path, assignment.operand) ∈ update.entries assignment.operator := by
  obtain ⟨operator, path, operand⟩ := assignment
  cases operator <;> simp [assignments, entries]

theorem exists_path_iff :
    (∃ assignment ∈ update.assignments, assignment.path = path) ↔
      ∃ operator, path ∈ (update.entries operator).map Prod.fst := by
  constructor
  · rintro ⟨assignment, hmem, rfl⟩
    exact ⟨assignment.operator, mem_map.mpr ⟨_, mem_assignments.mp hmem, rfl⟩⟩
  rintro ⟨operator, hpath⟩
  obtain ⟨⟨path, operand⟩, hmem, rfl⟩ := mem_map.mp hpath
  exact ⟨⟨operator, path, operand⟩, mem_assignments.mpr hmem, rfl⟩

/-- Add one assignment, in the place of one with the same operator and path. -/
def assign (update : UpdateDocument) (assignment : Assignment BsonValue) : UpdateDocument :=
  match assignment.operator with
  | .set => { update with set := documentInsert assignment.path assignment.operand update.set }
  | .inc => { update with inc := documentInsert assignment.path assignment.operand update.inc }
  | .unset =>
    { update with unset := documentInsert assignment.path assignment.operand update.unset }
  | .addToSet =>
    { update with addToSet := documentInsert assignment.path assignment.operand update.addToSet }
  | .pull => { update with pull := documentInsert assignment.path assignment.operand update.pull }

theorem entries_assign (update : UpdateDocument) (assignment : Assignment BsonValue)
    (operator : Operator) :
    (update.assign assignment).entries operator =
      if operator = assignment.operator then
        documentInsert assignment.path assignment.operand (update.entries operator)
      else update.entries operator := by
  obtain ⟨own, path, operand⟩ := assignment
  cases own <;> cases operator <;> rfl

theorem mem_assign {assignment other : Assignment BsonValue}
    (h : other ∈ (update.assign assignment).assignments) :
    other = assignment ∨ other ∈ update.assignments := by
  rw [mem_assignments, entries_assign] at h
  rw [mem_assignments]
  split at h
  case isTrue hoperator =>
    refine (mem_documentInsert h).imp_left fun heq => ?_
    obtain ⟨hpath, hoperand⟩ := Prod.mk.inj heq
    obtain ⟨operator, path, operand⟩ := assignment
    obtain ⟨operator', path', operand'⟩ := other
    cases hoperator
    cases hpath
    cases hoperand
    rfl
  · exact .inr h

/-- The paths of an update only grow. -/
theorem exists_path_assign
    (h : path = assignment.path ∨ ∃ other ∈ update.assignments, other.path = path) :
    ∃ other ∈ (update.assign assignment).assignments, other.path = path := by
  rw [exists_path_iff] at h ⊢
  obtain h | ⟨operator, hpath⟩ := h
  · refine ⟨assignment.operator, ?_⟩
    rw [entries_assign, if_pos rfl, paths_documentInsert]
    exact .inl h
  refine ⟨operator, ?_⟩
  rw [entries_assign]
  split
  · exact paths_documentInsert.mpr (.inr hpath)
  · exact hpath

end UpdateDocument

namespace DbCollectionMetadata

variable {ρ : Type} {codecs : DbCodecs ρ} {binding : DbCollectionMetadata}
variable {context : Option EncryptedRecordContext} {update out : UpdateDocument}

/-- An operation of a change adds one assignment, to its own field. -/
theorem changeOp_eq_ok
    {op : ServiceDbChangeOp} (h : binding.changeOp codecs context update op = .ok out) :
    ∃ assignment, assignment.path = op.field ∧ Assigned codecs binding assignment ∧
      out = update.assign assignment := by
  cases op with
  | set field value =>
    obtain ⟨resolved, hresolved, h⟩ := bind_eq_ok.mp h
    obtain ⟨u, huse, h⟩ := bind_eq_ok.mp h
    obtain ⟨plain, hplain, h⟩ := bind_eq_ok.mp h
    obtain ⟨stored, hstored, h⟩ := bind_eq_ok.mp h
    refine ⟨⟨.set, field, stored⟩, rfl, ⟨⟨resolved, hresolved⟩, ?_, ?_⟩, (ok.inj h).symm⟩
    · exact fun _ => ⟨context, resolved, plain, value.tree, hresolved, huse,
        bsonFromBusinessValue_projected hplain, hstored⟩
    · exact fun hne => absurd rfl hne
  | inc field value =>
    obtain ⟨resolved, hresolved, h⟩ := bind_eq_ok.mp h
    obtain ⟨u, huse, h⟩ := bind_eq_ok.mp h
    obtain ⟨operand, -, h⟩ := bind_eq_ok.mp h
    exact ⟨⟨.inc, field, operand⟩, rfl, .of_single Operator.noConfusion hresolved huse,
      (ok.inj h).symm⟩
  | unset field =>
    obtain ⟨resolved, hresolved, h⟩ := bind_eq_ok.mp h
    obtain ⟨u, huse, h⟩ := bind_eq_ok.mp h
    exact ⟨⟨.unset, field, .int32 1⟩, rfl, .of_single Operator.noConfusion hresolved huse,
      (ok.inj h).symm⟩
  | addToSet field value =>
    obtain ⟨resolved, hresolved, h⟩ := bind_eq_ok.mp h
    obtain ⟨u, huse, h⟩ := bind_eq_ok.mp h
    obtain ⟨operand, -, h⟩ := bind_eq_ok.mp h
    exact ⟨⟨.addToSet, field, operand⟩, rfl, .of_single Operator.noConfusion hresolved huse,
      (ok.inj h).symm⟩
  | pull field value =>
    obtain ⟨resolved, hresolved, h⟩ := bind_eq_ok.mp h
    obtain ⟨u, huse, h⟩ := bind_eq_ok.mp h
    obtain ⟨operand, -, h⟩ := bind_eq_ok.mp h
    exact ⟨⟨.pull, field, operand⟩, rfl, .of_single Operator.noConfusion hresolved huse,
      (ok.inj h).symm⟩

theorem runtimeSetOp_eq_ok
    {op : String × ρ} (h : binding.runtimeSetOp codecs context update op = .ok out) :
    ∃ assignment, assignment.path = op.1 ∧ Assigned codecs binding assignment ∧
      out = update.assign assignment := by
  obtain ⟨resolved, hresolved, h⟩ := bind_eq_ok.mp h
  obtain ⟨u, huse, h⟩ := bind_eq_ok.mp h
  obtain ⟨plain, hplain, h⟩ := bind_eq_ok.mp h
  obtain ⟨stored, hstored, h⟩ := bind_eq_ok.mp h
  obtain ⟨json, hjson, -⟩ := bsonFromRuntimeBusinessValue_projected hplain
  refine ⟨⟨.set, op.1, stored⟩, rfl, ⟨⟨resolved, hresolved⟩, ?_, ?_⟩, (ok.inj h).symm⟩
  · exact fun _ => ⟨context, resolved, plain, json, hresolved, huse, hjson, hstored⟩
  · exact fun hne => absurd rfl hne

/-- A loop that adds one assignment for each item. -/
theorem foldlM_assign {ι : Type} (step : UpdateDocument → ι → Except ServiceDbError UpdateDocument)
    (field : ι → String) (hstep : ∀ update item out, step update item = .ok out →
      ∃ assignment, assignment.path = field item ∧ Assigned codecs binding assignment ∧
        out = update.assign assignment) {items : List ι} (h : items.foldlM step update = .ok out) :
    (∀ assignment ∈ out.assignments,
      Assigned codecs binding assignment ∨ assignment ∈ update.assignments) ∧
    ∀ path, (path ∈ items.map field ∨ ∃ assignment ∈ update.assignments, assignment.path = path) →
      ∃ assignment ∈ out.assignments, assignment.path = path := by
  induction items generalizing update with
  | nil =>
    cases h
    refine ⟨fun assignment hmem => .inr hmem, ?_⟩
    rintro path (hpath | hpath)
    · cases hpath
    · exact hpath
  | cons item items ih =>
    obtain ⟨middle, hmiddle, h⟩ := bind_eq_ok.mp h
    obtain ⟨added, hadded, hassigned, rfl⟩ := hstep _ _ _ hmiddle
    obtain ⟨hall, hpaths⟩ := ih h
    refine ⟨fun assignment hmem => ?_, fun path hpath => hpaths path ?_⟩
    · obtain hmem | hmem := hall assignment hmem
      · exact .inl hmem
      obtain rfl | hmem := mem_assign hmem
      · exact .inl hassigned
      · exact .inr hmem
    rw [map_cons, mem_cons] at hpath
    obtain (rfl | hpath) | hpath := hpath
    · exact .inr (exists_path_assign (.inl hadded.symm))
    · exact .inl hpath
    · exact .inr (exists_path_assign (.inr hpath))

theorem not_mem_assignments_empty (assignment : Assignment BsonValue) :
    assignment ∉ ({} : UpdateDocument).assignments := by
  simp [assignments]

variable {update : UpdateDocument}

variable {change : ServiceDbChange}

theorem changeUpdateDocument_eq_ok
    (h : binding.changeUpdateDocument codecs change context = .ok update) :
    (∀ assignment ∈ update.assignments, Assigned codecs binding assignment) ∧
      ∀ path ∈ change.touchedFields, ∃ assignment ∈ update.assignments, assignment.path = path := by
  obtain ⟨hall, hpaths⟩ := foldlM_assign (binding.changeOp codecs context) ServiceDbChangeOp.field
    (fun _ _ _ hop => changeOp_eq_ok hop) h
  refine ⟨fun assignment hmem => ?_, fun path hpath => hpaths path (.inl hpath)⟩
  exact (hall assignment hmem).resolve_right (not_mem_assignments_empty assignment)

theorem validatedChangeUpdateWithContext_eq_ok
    (h : binding.validatedChangeUpdateWithContext codecs change context = .ok update) :
    binding.changeUpdateDocument codecs change context = .ok update := by
  obtain ⟨validated, hvalidated, h⟩ := bind_eq_ok.mp h
  obtain ⟨u, -, hvalidated⟩ := bind_eq_ok.mp hvalidated
  cases hvalidated
  exact h

theorem runtimeChangeUpdateDocument_eq_ok {change : DbRuntimeChange ρ}
    (h : binding.runtimeChangeUpdateDocument codecs change context = .ok update) :
    (∀ assignment ∈ update.assignments, Assigned codecs binding assignment) ∧
      ∀ path, (path ∈ change.wireChange.touchedFields ∨ path ∈ change.setOps.map Prod.fst) →
        ∃ assignment ∈ update.assignments, assignment.path = path := by
  obtain ⟨wire, hwire, h⟩ := bind_eq_ok.mp h
  obtain ⟨hwired, hwirePaths⟩ :=
    changeUpdateDocument_eq_ok (validatedChangeUpdateWithContext_eq_ok hwire)
  obtain ⟨hall, hpaths⟩ := foldlM_assign (binding.runtimeSetOp codecs context) Prod.fst
    (fun _ _ _ hop => runtimeSetOp_eq_ok hop) h
  refine ⟨fun assignment hmem => ?_, fun path hpath => hpaths path ?_⟩
  · exact (hall assignment hmem).elim id (hwired assignment)
  · exact hpath.symm.imp_right (hwirePaths path)

end DbCollectionMetadata

end Skiff.ServiceDb
