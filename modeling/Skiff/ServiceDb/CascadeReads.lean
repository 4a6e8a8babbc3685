import Skiff.ServiceDb.Cascade

/-!
# The cascade reads what the mapping writes

`Holds` collects the documents that have a file at a path because of what the mapping
wrote: created and replacing ones, business or runtime, and documents a change set the
file in. `CascadeFinds` is what the cascade owes such a document: its file id is read
back, and no write that takes the file out of the document leaves it out of the plan.

The two meet only for fields with a dot in their name (`cascadeFinds_iff`).
-/

namespace Skiff.ServiceDb

open Skiff.Runtime List Json OrdMap

section

variable {ρ : Type} (codecs : DbCodecs ρ) (binding : DbCollectionMetadata)

/-- The mapping wrote a file with this id at this path. -/
inductive Holds (p : List String) (id : String) : MongoDocument → Prop where
  | created {value : Value} {document : MongoDocument} {materialized : Tree} :
      binding.documentFromBusinessValue codecs value = .ok (document, materialized) →
      fileIdFromJsonAtPath value.tree p = some id → Holds p id document
  | replaced {value : Value} {expectedKey : Option BsonValue}
      {context : Option EncryptedRecordContext} {document : MongoDocument} :
      binding.replacementDocumentFromBusinessValue codecs value expectedKey context = .ok document →
      fileIdFromJsonAtPath value.tree p = some id → Holds p id document
  | runtime {value inner : ρ} {fields : List (String × ρ)} {top : String} {rest : List String}
      {json : Tree} {expectedKey : Option BsonValue}
      {context : Option EncryptedRecordContext} {document : MongoDocument} :
      binding.runtimeDocumentFromBusinessValue codecs value expectedKey context = .ok document →
      codecs.runtimeObjectFields value = .ok fields → (fields.map Prod.fst).Nodup →
      p = top :: rest → (top, inner) ∈ fields → codecs.encodeUntypedWireJson inner = .ok json →
      fileIdFromJsonAtPath json rest = some id → Holds p id document
  | changed {server : Server BsonValue BsonValue} {old document : MongoDocument}
      {change : ServiceDbChange} {context : Option EncryptedRecordContext}
      {update : UpdateDocument} {field : String} {value : Value} :
      binding.validatedChangeUpdateWithContext codecs change context = .ok update →
      .set field value ∈ change.ops → splitPath field <+: p →
      fileIdFromJsonAtPath value.tree (p.drop (splitPath field).length) = some id →
      server.SetsWhole → server.applyAll old update.assignments = some document →
      Holds p id document
  | changedRuntime {server : Server BsonValue BsonValue} {old document : MongoDocument}
      {change : DbRuntimeChange ρ} {context : Option EncryptedRecordContext}
      {update : UpdateDocument} {field : String} {value : ρ} {json : Tree} :
      binding.runtimeChangeUpdateDocument codecs change context = .ok update →
      (field, value) ∈ change.setOps → codecs.encodeUntypedWireJson value = .ok json →
      splitPath field <+: p →
      fileIdFromJsonAtPath json (p.drop (splitPath field).length) = some id →
      server.SetsWhole → server.applyAll old update.assignments = some document →
      Holds p id document

/-- The cascade reads the file, and a write that takes it away puts it into the plan.
An upsert makes no plan at all, so it must leave the file where it is. -/
structure CascadeFinds (p : List String) (id : String) (document : MongoDocument) : Prop where
  reads : fileIdAtPath document p = some id
  deleted : ∀ documents, document ∈ documents →
    id ∈ (cascadePlanForDeletedDocuments documents binding.immutableFilePaths).fileIds
  replaced : ∀ replacement, fileIdAtPath replacement p = some id ∨
    id ∈ (cascadePlanForReplacement document replacement binding.immutableFilePaths).fileIds
  changed : ∀ (server : Server BsonValue BsonValue) (change : ServiceDbChange)
    (context : Option EncryptedRecordContext) (update : UpdateDocument) (new : MongoDocument),
    binding.validatedChangeUpdateWithContext codecs change context = .ok update →
    server.applyAll document update.assignments = some new →
    fileIdAtPath new p = some id ∨
      id ∈ (cascadePlanForChange document change
        (binding.immutableFilePathsForChange change)).fileIds ∧
      ∀ documents, document ∈ documents → id ∈ (cascadePlanForChangedDocuments documents change
        (binding.immutableFilePathsForChange change)).fileIds
  upserted : ∀ (server : Server BsonValue BsonValue) (change : ServiceDbChange)
    (context : Option EncryptedRecordContext) (update : UpdateDocument) (new : MongoDocument),
    binding.validatedChangeUpdateWithContext codecs change context = .ok update →
    server.applyAll document update.assignments = some new → fileIdAtPath new p = some id
  changedRuntime : ∀ (server : Server BsonValue BsonValue) (change : DbRuntimeChange ρ)
    (context : Option EncryptedRecordContext) (update : UpdateDocument) (new : MongoDocument),
    binding.runtimeChangeUpdateDocument codecs change context = .ok update →
    server.applyAll document update.assignments = some new →
    fileIdAtPath new p = some id ∨
      id ∈ (cascadePlanForChange document change.wireChange
        (binding.immutableFilePathsForChange change.wireChange)).fileIds

end

variable {path : String} {server : Server BsonValue BsonValue}

namespace DbCollectionMetadata

variable {ρ : Type} {codecs : DbCodecs ρ} {binding : DbCollectionMetadata} {top : String}
  {rest : List String} {id : String} {field : DbFieldMetadata}

theorem ne_mongoIdField (hfield : binding.fields.get? top = some field) : top ≠ mongoIdField := by
  rintro rfl
  rw [binding.id_undeclared] at hfield
  cases hfield

theorem storesAsIs_cons : binding.storesAsIs (top :: rest) = true ↔ ('.' ∈ top.toList ∧
      hasDateAt (binding.fieldWriteProjectionPlanForPath top) (rest ++ ["id"]) = false) ∧
      top ≠ binding.keyField := by
  simp only [storesAsIs, Bool.and_eq_true, decide_eq_true_eq, Bool.not_eq_true']
  tauto

/-! ## Documents -/

variable {context : Option EncryptedRecordContext}

/-- The file id in a document that a loop stored the field in. -/
theorem reads_stored {α : Type} {skip : String}
    {plaintext : String × α → Except ServiceDbError BsonValue} {fields : List (String × α)}
    {value : α} {json : Tree} {start document : MongoDocument}
    (hfield : binding.fields.get? top = some field)
    (hty : schemaProjectableDbTypeRef field.typeRef = false)
    (h : storeFields codecs binding context skip plaintext start fields = .ok document)
    (hnodup : (fields.map Prod.fst).Nodup) (hmem : (top, value) ∈ fields) (hskip : top ≠ skip)
    (hproject : ∀ plain, plaintext (top, value) = .ok plain →
      Projected codecs (binding.fieldWriteProjectionPlanForPath top) json plain)
    (hid : fileIdFromJsonAtPath json rest = some id) :
    fileIdAtPath document (top :: rest) = some id ↔
      '.' ∈ top.toList ∧
        hasDateAt (binding.fieldWriteProjectionPlanForPath top) (rest ++ ["id"]) = false := by
  obtain ⟨plain, stored, hplain, hstored, hget⟩ := storeFields_present h hnodup hmem hskip
  have hpath : ∃ first more, rest ++ ["id"] = first :: more := exists_cons_of_ne_nil (by simp)
  obtain ⟨first, more, hmore⟩ := hpath
  have hreads : fileIdAtPath document (top :: rest) = textAt stored (rest ++ ["id"]) := by
    rw [fileIdAtPath, hget, ← fileIdFromBsonAtPath_eq]
    rfl
  rw [hreads, hmore]
  rw [fileIdFromJsonAtPath_eq, hmore] at hid
  exact textAt_stored_iff hfield hty (hproject plain hplain) hstored hid

variable {document : MongoDocument}

/-- The key is stored under `_id` only. -/
theorem reads_absent {α : Type} {skip : String}
    {plaintext : String × α → Except ServiceDbError BsonValue} {fields : List (String × α)}
    {key : BsonValue} (hfield : binding.fields.get? top = some field)
    (h : storeFields codecs binding context skip plaintext
      ((∅ : MongoDocument).insert mongoIdField key) fields = .ok document)
    (habsent : ∀ field ∈ fields, field.1 = top → field.1 = skip) :
    fileIdAtPath document (top :: rest) = none := by
  have hget : document.get? top = none := by
    rw [storeFields_absent h habsent, get?_insert_of_ne _ _ (ne_mongoIdField hfield), get?_empty]
  rw [fileIdAtPath, hget]
  rfl

variable {object : List (String × Tree)}

/-- The fields of a business object, its key taken out. -/
theorem reads_businessFields {value : Tree}
    {key : BsonValue} (hfield : binding.fields.get? top = some field)
    (hty : schemaProjectableDbTypeRef field.typeRef = false)
    (h : binding.documentFromBusinessObjectWithKey codecs object key context = .ok document)
    (hnodup : (object.map Prod.fst).Nodup) (hkey : ∀ field ∈ object, field.1 ≠ binding.keyField)
    (hmem : top ≠ binding.keyField → (top, value) ∈ object)
    (hid : fileIdFromJsonAtPath value rest = some id) :
    fileIdAtPath document (top :: rest) = some id ↔ binding.storesAsIs (top :: rest) = true := by
  rw [storesAsIs_cons]
  by_cases hself : top = binding.keyField
  · have habsent : ∀ field ∈ object, field.1 = top → field.1 = mongoIdField := by
      intro field hmem heq
      exact absurd (heq.trans hself) (hkey field hmem)
    rw [reads_absent hfield h habsent]
    simp [hself]
  rw [reads_stored hfield hty h hnodup (hmem hself) (ne_mongoIdField hfield)
    (fun plain hplain => bsonFromBusinessValue_projected hplain) hid]
  exact (and_iff_left hself).symm

/-- An object with a file at a path has the field the path starts at. -/
theorem fileIdFromJsonAtPath_cons {value : Tree}
    (h : fileIdFromJsonAtPath value (top :: rest) = some id) :
    ∃ object inner, asObject value = some object ∧ (top, inner) ∈ object ∧
      fileIdFromJsonAtPath inner rest = some id := by
  rw [fileIdFromJsonAtPath] at h
  obtain ⟨object, hobject, h⟩ := Option.bind_eq_some_iff.mp h
  obtain ⟨inner, hinner, h⟩ := Option.bind_eq_some_iff.mp h
  refine ⟨object, inner, hobject, ?_, h⟩
  obtain ⟨before, after, hsplit, -⟩ := lookup_eq_some_iff.mp hinner
  rw [hsplit]
  exact mem_append_right _ (.head _)

variable {value : Value}

theorem nodup_of_asObject
    (h : asObject value.tree = some object) : (object.map Prod.fst).Nodup := by
  obtain ⟨tree, hdistinct⟩ := value
  cases tree with
  | object fields =>
    cases h
    exact (Json.Tree.distinct_object.mp hdistinct).1
  | _ => cases h

theorem nodup_filter {α : Type} {fields : List (String × α)} (h : (fields.map Prod.fst).Nodup)
    (keep : String × α → Bool) : ((fields.filter keep).map Prod.fst).Nodup :=
  h.sublist (filter_sublist.map _)

section

variable (hfield : binding.fields.get? top = some field)
variable (hty : schemaProjectableDbTypeRef field.typeRef = false)
include hfield hty

theorem reads_created {materialized : Tree}
    (h : binding.documentFromBusinessValue codecs value = .ok (document, materialized))
    (hid : fileIdFromJsonAtPath value.tree (top :: rest) = some id) :
    fileIdAtPath document (top :: rest) = some id ↔ binding.storesAsIs (top :: rest) = true := by
  obtain ⟨object, inner, hobject, hinner, hid⟩ := fileIdFromJsonAtPath_cons hid
  have hnodup := nodup_of_asObject hobject
  rw [documentFromBusinessValue, hobject] at h
  obtain ⟨u, -, h⟩ := bind_eq_ok.mp h
  split at h
  · cases h
  obtain ⟨keyBson, -, h⟩ := bind_eq_ok.mp h
  obtain ⟨context, -, h⟩ := bind_eq_ok.mp h
  obtain ⟨stored, hstored, h⟩ := bind_eq_ok.mp h
  obtain ⟨read, -, h⟩ := bind_eq_ok.mp h
  cases h
  refine reads_businessFields hfield hty hstored (nodup_filter hnodup _) ?_ ?_ hid
  · intro field hmem
    simpa using (mem_filter.mp hmem).2
  intro hself
  exact mem_filter.mpr ⟨hinner, by simpa using hself⟩

variable {expectedKey : Option BsonValue}

theorem reads_replaced
    (h : binding.replacementDocumentFromBusinessValue codecs value expectedKey context =
      .ok document) (hid : fileIdFromJsonAtPath value.tree (top :: rest) = some id) :
    fileIdAtPath document (top :: rest) = some id ↔ binding.storesAsIs (top :: rest) = true := by
  obtain ⟨object, inner, hobject, hinner, hid⟩ := fileIdFromJsonAtPath_cons hid
  have hnodup := nodup_of_asObject hobject
  rw [replacementDocumentFromBusinessValue, hobject] at h
  obtain ⟨u, -, h⟩ := bind_eq_ok.mp h
  obtain ⟨keyBson, -, h⟩ := bind_eq_ok.mp h
  obtain ⟨context', -, h⟩ := bind_eq_ok.mp h
  refine reads_businessFields hfield hty h (nodup_filter (nodup_filter hnodup _) _) ?_ ?_ hid
  · intro field hmem
    simpa using (mem_filter.mp hmem).2
  intro hself
  have hid : (top, inner) ∈ object.filter fun field => field.1 ≠ mongoIdField :=
    mem_filter.mpr ⟨hinner, by simpa using ne_mongoIdField hfield⟩
  exact mem_filter.mpr ⟨hid, by simpa using hself⟩

theorem reads_runtime {value inner : ρ} {fields : List (String × ρ)} {json : Tree}
    (h : binding.runtimeDocumentFromBusinessValue codecs value expectedKey context = .ok document)
    (hfields : codecs.runtimeObjectFields value = .ok fields)
    (hnodup : (fields.map Prod.fst).Nodup) (hmem : (top, inner) ∈ fields)
    (hjson : codecs.encodeUntypedWireJson inner = .ok json)
    (hid : fileIdFromJsonAtPath json rest = some id) :
    fileIdAtPath document (top :: rest) = some id ↔ binding.storesAsIs (top :: rest) = true := by
  obtain ⟨fields', hfields', h⟩ := bind_eq_ok.mp h
  rw [mapError_eq_ok, hfields] at hfields'
  cases hfields'
  obtain ⟨keyBson, -, h⟩ := bind_eq_ok.mp h
  obtain ⟨context', -, h⟩ := bind_eq_ok.mp h
  rw [storesAsIs_cons]
  by_cases hself : top = binding.keyField
  · rw [reads_absent hfield h (fun field _ heq => heq.trans hself)]
    simp [hself]
  have hproject : ∀ plain, bsonFromRuntimeBusinessValue codecs inner
      (binding.fieldWriteProjectionPlanForPath top) top = .ok plain →
      Projected codecs (binding.fieldWriteProjectionPlanForPath top) json plain := by
    intro plain hplain
    obtain ⟨-, -, hprojected⟩ := bsonFromRuntimeBusinessValue_projected hplain
    exact hprojected json hjson
  rw [reads_stored hfield hty h hnodup hmem hself hproject hid]
  exact (and_iff_left hself).symm

end

/-! ## Changes -/

variable {resolved : DbResolvedFieldPath} {old document : MongoDocument}
variable {assignments : List (Assignment BsonValue)}

/-- Nothing but a whole set is let through to an envelope. -/
theorem validateStorageFieldUse_envelope {use : DbFieldUse} {u : Unit}
    (hfield : binding.fields.get? resolved.topLevel = some field)
    (hty : schemaProjectableDbTypeRef field.typeRef = false)
    (h : binding.validateStorageFieldUse resolved use context = .ok u) :
    use ≠ .partialChange ∧
      (resolved.businessPath = resolved.topLevel ∨ resolved.mongoPath = resolved.topLevel) := by
  have hlane : field.ty.isRecoverableEnvelopeLane = true := by
    have : field.ty.storageLane = .recoverableEnvelope := if_neg (by simp [hty])
    simp [DbBoundaryValuePlan.isRecoverableEnvelopeLane, this]
  rw [validateStorageFieldUse, hfield] at h
  simp only [hlane, Bool.not_true, Bool.false_eq_true, if_false] at h
  split at h
  · split at h
    case isTrue huse =>
      simp only [Bool.or_eq_true, Bool.and_eq_true, decide_eq_true_eq] at huse
      obtain ⟨rfl, htop⟩ | ⟨⟨rfl, htop⟩, -⟩ := huse
      · exact ⟨DbFieldUse.noConfusion, htop⟩
      · exact ⟨DbFieldUse.noConfusion, htop⟩
    · cases h
  split at h
  case isTrue huse =>
    simp only [Bool.or_eq_true, Bool.and_eq_true, decide_eq_true_eq] at huse
    obtain ⟨rfl, htop⟩ := huse
    exact ⟨DbFieldUse.noConfusion, htop⟩
  split at h
  case isTrue huse =>
    simp only [Bool.or_eq_true, Bool.and_eq_true, decide_eq_true_eq] at huse
    obtain ⟨rfl, htop⟩ := huse
    exact ⟨DbFieldUse.noConfusion, htop⟩
  · cases h

theorem resolveBusinessFieldPath_eq_ok (h : binding.resolveBusinessFieldPath path = .ok resolved) :
    isReservedDbBusinessMetadataName (topLevel path) = false ∧
      resolved =
        ⟨path, topLevel path, binding.fieldPathPolicy.mongoPathForBusinessFieldPath path⟩ := by
  rw [resolveBusinessFieldPath, mapError_eq_ok] at h
  obtain ⟨hreserved, -, hresolved⟩ := DbFieldPathPolicy.resolveBusinessFieldPath_eq_ok h
  exact ⟨hreserved, hresolved⟩

/-- An assignment to an envelope sets the whole field, to an envelope. -/
theorem assigned_envelope {assignment : Assignment BsonValue}
    (hfield : binding.fields.get? top = some field)
    (hty : schemaProjectableDbTypeRef field.typeRef = false)
    (h : Assigned codecs binding assignment) (htop : topLevel assignment.path = top) :
    assignment.operator = .set ∧ (splitPath assignment.path).tail = [] ∧
      ∃ bytes, assignment.operand = .binary bytes := by
  have hresolve : ∀ {resolved}, binding.resolveBusinessFieldPath assignment.path = .ok resolved →
      binding.fields.get? resolved.topLevel = some field ∧ resolved.topLevel = top ∧
        resolved.businessPath = assignment.path ∧ resolved.mongoPath =
          binding.fieldPathPolicy.mongoPathForBusinessFieldPath assignment.path := by
    intro resolved hresolved
    obtain ⟨-, rfl⟩ := resolveBusinessFieldPath_eq_ok hresolved
    exact ⟨by rw [htop]; exact hfield, htop, rfl, rfl⟩
  have hset : assignment.operator = .set := by
    by_contra hoperator
    obtain ⟨resolved, hresolved, huse⟩ := h.partly hoperator
    exact (validateStorageFieldUse_envelope (hresolve hresolved).1 hty huse).1 rfl
  obtain ⟨context, resolved, plain, json, hresolved, huse, hprojected, hstored⟩ := h.whole hset
  obtain ⟨hdeclared, hresolvedTop, hbusiness, hmongo⟩ := hresolve hresolved
  have hpath : assignment.path = top := by
    obtain hwhole | hwhole := (validateStorageFieldUse_envelope hdeclared hty huse).2
    · rw [← hbusiness, hwhole, hresolvedTop]
    rw [hmongo, hresolvedTop, DbFieldPathPolicy.mongoPathForBusinessFieldPath] at hwhole
    split at hwhole
    · exact absurd hwhole.symm (ne_mongoIdField hfield)
    · exact hwhole
  have hdot : '.' ∉ top.toList := by
    rw [← htop]
    exact dot_not_mem_topLevel _
  rw [hpath] at hprojected ⊢
  refine ⟨hset, splitPath_tail_eq_nil_iff.mpr hdot, ?_⟩
  rw [fieldWriteProjectionPlanForPath_plain hdot hfield] at hprojected
  obtain ⟨ref, bytes, -, -, rfl⟩ | ⟨hschema, -⟩ := hprojected
  · exact ⟨bytes, encodeFieldStorage_of_not_string (fun text => BsonValue.noConfusion) hstored⟩
  have hlane : field.ty.storageLane = .recoverableEnvelope := if_neg (by simp [hty])
  exact absurd hlane (hschema _ rfl)

/-- A document in which an update assigned to a field with files has no file id there. -/
theorem reads_assigned (hserver : server.SetsWhole) (hfield : binding.fields.get? top = some field)
    (hty : schemaProjectableDbTypeRef field.typeRef = false)
    (hassigned : ∀ assignment ∈ assignments, Assigned codecs binding assignment)
    (hmem : ∃ assignment ∈ assignments, topLevel assignment.path = top)
    (h : server.applyAll old assignments = some document) :
    fileIdAtPath document (top :: rest) = none := by
  have hbinary : ∃ bytes, document.get? top = some (.binary bytes) := by
    refine Server.applyAll_establishes (P := fun value => ∃ bytes, value = some (.binary bytes)) h
      ?_ (.inr hmem)
    intro assignment hassignment htop before after heffect
    obtain ⟨hset, htail, bytes, hbytes⟩ :=
      assigned_envelope hfield hty (hassigned assignment hassignment) htop
    rw [hset, htail, hbytes, hserver] at heffect
    exact ⟨bytes, (Option.some.inj heffect).symm⟩
  obtain ⟨bytes, hbytes⟩ := hbinary
  rw [fileIdAtPath, hbytes]
  cases rest <;> rfl

theorem topLevel_of_below (h : splitPath path <+: top :: rest) : topLevel path = top := by
  obtain ⟨segments, hsegments⟩ := splitPath_eq path
  rw [hsegments, cons_prefix_cons] at h
  exact h.1

/-- An update leaves a dotted top-level name alone. -/
theorem fileIdAtPath_applyAll (hdot : '.' ∈ top.toList)
    (h : server.applyAll old assignments = some document) :
    fileIdAtPath document (top :: rest) = fileIdAtPath old (top :: rest) := by
  rw [fileIdAtPath, fileIdAtPath, Server.get?_applyAll h]
  intro assignment _ htop
  rw [← htop] at hdot
  exact dot_not_mem_topLevel _ hdot

end DbCollectionMetadata

/-! ## When the cascade finds the files -/

section

variable {ρ : Type} {codecs : DbCodecs ρ} {binding : DbCollectionMetadata} {p : List String}
  {id : String} {document : MongoDocument}

open DbCollectionMetadata

/-- A path that an assignment of the update touches starts at a plain name, and there
the update left an envelope. -/
theorem Holds.not_reads_changed {old : MongoDocument}
    {update : UpdateDocument} (hp : p ∈ binding.immutableFilePaths)
    (hassigned : ∀ assignment ∈ update.assignments, Assigned codecs binding assignment)
    (hmem : ∃ assignment ∈ update.assignments, assignment.path = path)
    (hbelow : splitPath path <+: p) (hserver : server.SetsWhole)
    (h : server.applyAll old update.assignments = some document) :
    fileIdAtPath document p = some id ↔ binding.storesAsIs p = true := by
  obtain ⟨top, rest, field, rfl, hfield, hty⟩ := mem_immutableFilePaths hp
  have htop := topLevel_of_below hbelow
  obtain ⟨assignment, hassignment, rfl⟩ := hmem
  rw [reads_assigned hserver hfield hty hassigned ⟨assignment, hassignment, htop⟩ h]
  refine iff_of_false (fun h => by cases h) fun h => ?_
  have hdot := (storesAsIs_cons.mp h).1.1
  rw [← htop] at hdot
  exact dot_not_mem_topLevel _ hdot

theorem Holds.reads_iff (hp : p ∈ binding.immutableFilePaths)
    (h : Holds codecs binding p id document) :
    fileIdAtPath document p = some id ↔ binding.storesAsIs p = true := by
  obtain ⟨top, rest, field, rfl, hfield, hty⟩ := mem_immutableFilePaths hp
  cases h with
  | created hdocument hid => exact reads_created hfield hty hdocument hid
  | replaced hdocument hid => exact reads_replaced hfield hty hdocument hid
  | runtime hdocument hfields hnodup hpath hmem hjson hid =>
    cases hpath
    exact reads_runtime hfield hty hdocument hfields hnodup hmem hjson hid
  | changed hupdate hset hpath hid hserver happly =>
    obtain ⟨hassigned, hpaths⟩ :=
      changeUpdateDocument_eq_ok (validatedChangeUpdateWithContext_eq_ok hupdate)
    refine not_reads_changed hp hassigned (hpaths _ ?_) hpath hserver happly
    exact mem_map.mpr ⟨_, hset, rfl⟩
  | changedRuntime hupdate hset hjson hpath hid hserver happly =>
    obtain ⟨hassigned, hpaths⟩ := runtimeChangeUpdateDocument_eq_ok hupdate
    refine not_reads_changed hp hassigned (hpaths _ (.inr ?_)) hpath hserver happly
    exact mem_map.mpr ⟨_, hset, rfl⟩

/-- The cascade finds a file exactly where the mapping stored it as it is: under a field
with a dot in its name, which the mapping does not recognise. -/
theorem cascadeFinds_iff (hp : p ∈ binding.immutableFilePaths)
    (hheld : Holds codecs binding p id document) :
    CascadeFinds codecs binding p id document ↔ binding.storesAsIs p = true := by
  constructor
  · intro hfinds
    exact (hheld.reads_iff hp).mp hfinds.reads
  intro hplain
  have hreads := (hheld.reads_iff hp).mpr hplain
  obtain ⟨top, rest, field, rfl, -, -⟩ := mem_immutableFilePaths hp
  have hdot := (storesAsIs_cons.mp hplain).1.1
  have hkept : ∀ {server : Server BsonValue BsonValue} {update : UpdateDocument}
      {new : MongoDocument}, server.applyAll document update.assignments = some new →
      fileIdAtPath new (top :: rest) = some id := by
    intro server update new happly
    rw [fileIdAtPath_applyAll hdot happly]
    exact hreads
  refine ⟨hreads, ?_, ?_, ?_, ?_, ?_⟩
  · intro documents hmem
    refine mem_orderedSet.mpr (mem_flatMap.mpr ⟨document, hmem, ?_⟩)
    exact mem_filterMap.mpr ⟨top :: rest, hp, hreads⟩
  · intro replacement
    by_cases hnew : fileIdAtPath replacement (top :: rest) = some id
    · exact .inl hnew
    · right
      refine mem_orderedSet.mpr (mem_filterMap.mpr ⟨top :: rest, hp, ?_⟩)
      simp [hreads, hnew]
  · intro server change context update new _ happly
    exact .inl (hkept happly)
  · intro server change context update new _ happly
    exact hkept happly
  · intro server change context update new _ happly
    exact .inl (hkept happly)

end

/-! ## A collection with one file -/

/-- Codecs that are good enough for the objects below. -/
def plainCodecs : DbCodecs Unit where
  fromBson
    | .document [(name, .string text)] => .ok (.object [(name, .string text)])
    | .string text => .ok (.string text)
    | _ => .error "unsupported"
  encodeEnvelope
    | _, .object [(_, .string text)] => .ok (text.toList.map fun c => UInt8.ofNat c.toNat)
    | _, _ => .error "unsupported"
  decodeEnvelope _ bytes :=
    .ok (.object [("id", .string (String.ofList (bytes.map fun b => Char.ofNat b.toNat)))])
  parseRfc3339Millis _ := .error "unsupported"
  formatEpochMillis _ := .error "unsupported"
  encryptString _ _ _ := .error "unsupported"
  decryptString _ _ _ := .error "unsupported"
  runtimeObjectFields _ := .error "unsupported"
  rejectCallbackCapabilityGraph _ _ := .ok ()
  encodeUntypedWireJson _ := .error "unsupported"
  encodeRuntimeEnvelope _ _ _ := .error "unsupported"

def immutableFile : DbFieldMetadata := ⟨.serviceSymbol ⟨"std.file", "ImmutableFile"⟩, .identity⟩

/-- Requests keyed by `key`, with one file under the given name. -/
def requests (name : String) (hname : name ≠ mongoIdField) (hkey : name ≠ "key") :
    DbCollectionMetadata where
  targetKey := "app.Request"
  typeName := "Request"
  keyField := "key"
  keyTypeRef := .builtin "string" []
  fields := (∅ : OrdMap String DbFieldMetadata).insert name immutableFile
  leases := ∅
  id_undeclared := by rw [get?_insert_of_ne _ _ hname.symm, get?_empty]
  key_typed := by
    intro field hfield
    rw [get?_insert_of_ne _ _ hkey.symm, get?_empty] at hfield
    cases hfield

theorem requests_immutableFilePaths {name : String} (hname : name ≠ mongoIdField)
    (hkey : name ≠ "key") : [name] ∈ (requests name hname hkey).immutableFilePaths := by
  rw [DbCollectionMetadata.immutableFilePaths, mem_dedup, mem_mergeSort, mem_flatMap]
  exact ⟨(name, immutableFile), mem_singleton_self _, mem_singleton_self _⟩

/-- A request with the file `file-1` under the given name. -/
def requestValue (name : String) (hkey : name ≠ "key") : Value where
  tree := .object [("key", .string "row"), (name, .object [("id", .string "file-1")])]
  distinct := by
    refine .object (by simpa using hkey.symm) ?_
    simp only [forall_mem_cons]
    exact ⟨.string, .object (by decide) (by simp [Json.Tree.Distinct.string]), by simp⟩

def requestFiles : DbCollectionMetadata := requests "requestFile" (by decide) (by decide)

def dottedFiles : DbCollectionMetadata := requests "request.file" (by decide) (by decide)

/-- What the two collections store. -/
def requestDocument : MongoDocument :=
  ((∅ : MongoDocument).insert "_id" (.string "row")).insert "requestFile"
    (.binary ("file-1".toList.map fun c => UInt8.ofNat c.toNat))

def dottedDocument : MongoDocument :=
  ((∅ : MongoDocument).insert "_id" (.string "row")).insert "request.file"
    (.document [("id", .string "file-1")])

theorem requestDocument_created :
    ∃ materialized, requestFiles.documentFromBusinessValue plainCodecs
      (requestValue "requestFile" (by decide)) = .ok (requestDocument, materialized) :=
  ⟨_, rfl⟩

theorem requestDocument_holds :
    Holds plainCodecs requestFiles ["requestFile"] "file-1" requestDocument := by
  obtain ⟨materialized, hcreated⟩ := requestDocument_created
  exact .created hcreated rfl

theorem dottedDocument_holds :
    Holds plainCodecs dottedFiles ["request.file"] "file-1" dottedDocument := by
  have hcreated : ∃ materialized, dottedFiles.documentFromBusinessValue plainCodecs
      (requestValue "request.file" (by decide)) = .ok (dottedDocument, materialized) := ⟨_, rfl⟩
  obtain ⟨materialized, hcreated⟩ := hcreated
  exact .created hcreated rfl

/-- The file of a plain field is lost to the cascade, that of a dotted one is found. -/
theorem cascadeFinds_iff_requests :
    ¬ CascadeFinds plainCodecs requestFiles ["requestFile"] "file-1" requestDocument ∧
      CascadeFinds plainCodecs dottedFiles ["request.file"] "file-1" dottedDocument := by
  constructor
  · refine mt (cascadeFinds_iff (requests_immutableFilePaths _ _) requestDocument_holds).mp ?_
    decide
  · refine (cascadeFinds_iff (requests_immutableFilePaths _ _) dottedDocument_holds).mpr ?_
    decide

/-- A request is created with a file; the file is not read back from the stored
document, and deleting the record leaves the file behind. -/
theorem requestFile_not_cascaded :
    ["requestFile"] ∈ requestFiles.immutableFilePaths ∧
      (∃ materialized, requestFiles.documentFromBusinessValue plainCodecs
        (requestValue "requestFile" (by decide)) = .ok (requestDocument, materialized)) ∧
      fileIdFromJsonAtPath (requestValue "requestFile" (by decide)).tree ["requestFile"] =
        some "file-1" ∧
      fileIdAtPath requestDocument ["requestFile"] ≠ some "file-1" ∧
      "file-1" ∉ (cascadePlanForDeletedDocuments [requestDocument]
        requestFiles.immutableFilePaths).fileIds := by
  refine ⟨requests_immutableFilePaths _ _, requestDocument_created, rfl, ?_, ?_⟩
  · intro hreads
    cases hreads
  · rw [cascadePlanForDeletedDocuments, mem_orderedSet, flatMap_singleton, mem_filterMap]
    rintro ⟨path, hpath, hreads⟩
    rw [DbCollectionMetadata.immutableFilePaths, mem_dedup, mem_mergeSort] at hpath
    obtain rfl := mem_singleton.mp hpath
    cases hreads

end Skiff.ServiceDb
