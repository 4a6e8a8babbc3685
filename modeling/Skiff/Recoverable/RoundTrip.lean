import Skiff.Recoverable.ReadsNodes
import Skiff.Recoverable.Bounds

/-!
# The canonical form is the only one

An envelope is written just if it is valid and fits, as the header and the canonical form of its
root. An envelope is read from just those bytes. So reading what was written gives the envelope in
canonical order, and writing what was read gives the bytes back.
-/

namespace Skiff.Recoverable

open RecoverableNode RecoverableState RecoverableEnvelope

variable {limits : RecoverableValidationLimits} {depth : Nat} {envelope : RecoverableEnvelope}
  {bytes : Bytes}

/-! ## Canonical order keeps the conditions -/

namespace RecoverableState

variable {N M : Type} {state : RecoverableState N} {f : N → M}

theorem keysFit_mapNodes :
    (state.mapNodes f).KeysFit limits depth ↔ state.KeysFit limits depth := by
  cases state with
  | map entries => simp only [mapNodes, KeysFit, List.forall_mem_map]
  | _ => exact .rfl

theorem keysFit_sort : state.sort.KeysFit limits depth ↔ state.KeysFit limits depth := by
  rcases state with _ | _ | _ | _ | _ | _ | items | entries | fields | (fields | node) | node | node
  case map => simp only [sort, KeysFit, mem_sortOn]
  all_goals exact .rfl

end RecoverableState

theorem validState_canon {node : RecoverableNode} :
    ValidState limits depth node.canon.state ↔ ValidState limits depth node.state := by
  have hrange : node.canon.state.InRange ↔ node.state.InRange := by
    rw [node.canon_eq, inRange_sort, inRange_mapNodes]
  have hdistinct : node.canon.state.Distinct ↔ node.state.Distinct := by
    rw [node.canon_eq, distinct_sort, distinct_mapNodes]
  have hkeys : node.canon.state.KeysFit limits depth ↔ node.state.KeysFit limits depth := by
    rw [node.canon_eq, keysFit_sort, keysFit_mapNodes]
  constructor
  · rintro ⟨h, h', h''⟩
    exact ⟨hrange.mp h, hdistinct.mp h', hkeys.mp h''⟩
  rintro ⟨h, h', h''⟩
  exact ⟨hrange.mpr h, hdistinct.mpr h', hkeys.mpr h''⟩

theorem kind_canon (node : RecoverableNode) : node.canon.state.kind = node.state.kind := by
  rw [node.canon_eq, kind_sort, kind_mapNodes]

theorem validAt_canon (depth : Nat) (node : RecoverableNode) :
    ValidAt limits depth node.canon ↔ ValidAt limits depth node := by
  have hkinds : Matches node.canon.valueKind node.canon.codeIdentity node.canon.state ↔
      Matches node.valueKind node.codeIdentity node.state := by
    rw [matches_iff_kind (kind_canon node), node.canon_eq]
  constructor
  · rintro ⟨hdepth, h, hstate⟩
    exact ⟨hdepth, hkinds.mp h, validState_canon.mp hstate⟩
  rintro ⟨hdepth, h, hstate⟩
  exact ⟨hdepth, hkinds.mpr h, validState_canon.mpr hstate⟩

theorem fitsAt_canon (depth : Nat) (node : RecoverableNode) :
    FitsAt limits depth node.canon ↔ FitsAt limits depth node := by
  rw [FitsAt, FitsAt, node.canon_eq, fits_sort, fits_mapNodes]

/-! ## What is written -/

/-- The bytes before those of the root. -/
def headerBytes (schemaVersion : String) : Bytes :=
  magic ++ binaryVersion :: stringBytes schemaVersion

/-- The envelope has a form within the limits. -/
structure Encodable (limits : RecoverableValidationLimits) (envelope : RecoverableEnvelope) :
    Prop where
  schema : envelope.schemaVersion = envelopeSchemaVersion
  valid : Everywhere (ValidAt limits) 0 envelope.root
  fits : Everywhere (FitsAt limits) 0 envelope.root
  nodes : envelope.root.count ≤ limits.maxNodes
  bytes : (headerBytes envelopeSchemaVersion ++ envelope.root.canon.bytes).length ≤
    limits.maxEncodedBytes

theorem encoderFinish_eq_ok {output : Bytes} :
    encoderFinish limits output = .ok bytes ↔
      output.length ≤ limits.maxEncodedBytes ∧ bytes = output := by
  rw [encoderFinish]
  split
  case isTrue h => exact iff_of_false invalid_ne_ok fun hfits => absurd hfits.1 (by omega)
  case isFalse h =>
    rw [Except.ok.injEq, eq_comm]
    exact (and_iff_right (by omega)).symm

theorem short_envelopeSchemaVersion : Short envelopeSchemaVersion := by
  rw [Short]
  decide +kernel

theorem toCanonicalBytes_eq_ok : envelope.toCanonicalBytes limits = .ok bytes ↔
    Encodable limits envelope ∧
      bytes = headerBytes envelopeSchemaVersion ++ envelope.root.canon.bytes := by
  simp only [toCanonicalBytes, checked_bind_eq_ok, validate_eq_ok,
    writeString_eq_ok, writeNode_eq_ok, encoderFinish_eq_ok]
  have hform : magic ++ binaryVersion :: (stringBytes envelopeSchemaVersion ++
      envelope.root.canon.bytes) =
        headerBytes envelopeSchemaVersion ++ envelope.root.canon.bytes := by
    rw [headerBytes, List.append_assoc, List.cons_append]
  constructor
  · rintro ⟨_, ⟨hschema, hvalid, hnodes⟩, _, ⟨-, rfl⟩, _, ⟨hfits, rfl⟩, hlength, rfl⟩
    rw [hschema, hform] at hlength ⊢
    exact ⟨⟨hschema, hvalid, hfits, hnodes, hlength⟩, rfl⟩
  rintro ⟨⟨hschema, hvalid, hfits, hnodes, hlength⟩, rfl⟩
  refine ⟨(), ⟨hschema, hvalid, hnodes⟩, _, ⟨?_, rfl⟩, _, ⟨hfits, rfl⟩, ?_⟩
  · rw [hschema]
    exact short_envelopeSchemaVersion
  rw [hschema, hform]
  exact ⟨hlength, rfl⟩

/-! ## What is read -/

section reads

variable {input : Bytes}

theorem expectMagic_exact : ExactLeaf input limits (expectMagic input) (fun _ => True)
    fun _ => magic ++ [binaryVersion] := by
  have hmagic : Reads input limits (readExact input "$" 4)
      fun result bytes cost => result.length = 4 ∧ bytes = result ∧ cost = 0 := by
    intro state hgood result next
    rw [readExact_eq_ok hgood]
    constructor
    · rintro ⟨hlength, htakes⟩
      exact ⟨_, _, ⟨hlength, rfl, rfl⟩, htakes⟩
    rintro ⟨_, _, ⟨hlength, rfl, rfl⟩, htakes⟩
    exact ⟨hlength, htakes⟩
  refine ((Reads.bind hmagic fun _ => Reads.guarded (Reads.bindLeaf readU8_exact fun _ =>
    Reads.guarded (Reads.pure _))).congr fun _ bytes cost => ?_).exact
  constructor
  · rintro ⟨_, _, _, _, _, ⟨-, rfl, rfl⟩, ⟨hmagic, version, _, -, ⟨hversion, -, rfl, rfl⟩, rfl⟩,
      rfl,
      rfl⟩
    rw [not_not.mp hmagic, not_not.mp hversion]
    exact ⟨trivial, rfl, rfl⟩
  rintro ⟨-, rfl, rfl⟩
  exact ⟨magic, magic, 0, [binaryVersion], 0, ⟨rfl, rfl, rfl⟩, ⟨not_not.mpr rfl, binaryVersion, [],
    trivial, ⟨not_not.mpr rfl, rfl, rfl, rfl⟩, rfl⟩, rfl, rfl⟩

/-- The input is a form that the decoder takes for the envelope. -/
structure Decodable (limits : RecoverableValidationLimits) (envelope : RecoverableEnvelope)
    (input : Bytes) : Prop where
  schema : envelope.schemaVersion = envelopeSchemaVersion
  readable : Everywhere (ReadableAt limits) 0 envelope.root
  valid : Everywhere (ValidAt limits) 0 envelope.root
  nodes : envelope.root.count ≤ limits.maxNodes
  form : input = headerBytes envelopeSchemaVersion ++ envelope.root.bytes

theorem good_start : Good input limits ⟨0, 0⟩ := ⟨Nat.zero_le _, Nat.zero_le _⟩

theorem readEnvelope_eq_ok : (∃ next, readEnvelope input limits (limits.maxDepth + 1) ⟨0, 0⟩ =
    (.ok envelope, next)) ↔ Decodable limits envelope input := by
  have hstart : Good input limits ⟨0, 0⟩ := good_start
  have hheader : ∀ version root : Bytes, (magic ++ [binaryVersion]) ++ (version ++ root) =
      (magic ++ binaryVersion :: version) ++ root := by simp
  constructor
  · rintro ⟨next, hread⟩
    rw [readEnvelope, expectMagic_exact.bind hstart] at hread
    obtain ⟨_, afterMagic, ⟨-, hmagic⟩, hread⟩ := hread
    have hgood := hmagic.good hstart
    obtain ⟨version, afterVersion, ⟨-, hversion⟩, hread⟩ := (readString_exact.bind hgood).mp hread
    split at hread
    case isTrue => cases (Prod.mk.inj hread).1
    case isFalse hschema =>
      obtain ⟨root, afterRoot, ⟨hreadable, hroot⟩, hread⟩ :=
        ((readNode_exact (Nat.add_zero _)).bind (hversion.good hgood)).mp hread
      obtain ⟨_, hend, hread⟩ := Mut.read_bind_eq_ok.mp hread
      obtain ⟨_, hvalid, hread⟩ := Mut.ofExcept_bind_eq_ok.mp hread
      obtain ⟨rfl, rfl⟩ := Mut.pure_eq_ok.mp hread
      obtain ⟨-, hvalid, hnodes⟩ := validate_eq_ok.mp hvalid
      obtain rfl := not_not.mp hschema
      have htakes := hmagic.append (hversion.append hroot)
      have hoffset := htakes.offset
      have hlength : next.offset = input.length := by
        by_contra hne
        rw [if_pos hne] at hend
        cases hend
      refine ⟨rfl, hreadable, hvalid, hnodes, ?_⟩
      rw [headerBytes, ← hheader]
      refine (List.IsPrefix.eq_of_length htakes.starts ?_).symm
      rw [List.length_drop]
      dsimp only at hoffset ⊢
      omega
  rintro ⟨hschema, hreadable, hvalid, hnodes, hform⟩
  obtain ⟨version, root⟩ := envelope
  obtain rfl : version = envelopeSchemaVersion := hschema
  have htakes : Takes input limits ⟨0, 0⟩ ((magic ++ [binaryVersion]) ++
      (stringBytes envelopeSchemaVersion ++ root.bytes)) (0 + (0 + root.count))
      ⟨input.length, root.count⟩ := by
    refine ⟨?_, ?_, by simp, hnodes⟩
    · rw [hheader, hform]
      exact List.prefix_rfl
    rw [hheader, hform]
    exact (Nat.zero_add _).symm
  obtain ⟨afterMagic, hmagic, htakes⟩ := htakes.split
  obtain ⟨afterVersion, hversion, hroot⟩ := htakes.split
  have hgood := hmagic.good hstart
  refine ⟨⟨input.length, root.count⟩, ?_⟩
  rw [readEnvelope, expectMagic_exact.bind hstart]
  refine ⟨(), afterMagic, ⟨trivial, hmagic⟩, (readString_exact.bind hgood).mpr
    ⟨_, afterVersion, ⟨short_envelopeSchemaVersion, hversion⟩, ?_⟩⟩
  rw [if_neg (not_not.mpr rfl)]
  refine ((readNode_exact (Nat.add_zero _)).bind (hversion.good hgood)).mpr
    ⟨root, _, ⟨hreadable, hroot⟩, Mut.read_bind_eq_ok.mpr ⟨(), if_neg (not_not.mpr rfl),
      Mut.ofExcept_bind_eq_ok.mpr ⟨(), validate_eq_ok.mpr ⟨rfl, hvalid, hnodes⟩, rfl⟩⟩⟩

theorem fromCanonicalBytes_eq_ok : fromCanonicalBytes input limits = .ok envelope ↔
    input.length ≤ limits.maxEncodedBytes ∧ Decodable limits envelope input := by
  rw [fromCanonicalBytes, ← readEnvelope_eq_ok]
  split
  case isTrue h => exact iff_of_false invalid_ne_ok fun hread => absurd hread.1 (by omega)
  case isFalse h =>
    rw [and_iff_right (by omega)]
    constructor
    · intro hread
      exact ⟨_, Prod.ext hread rfl⟩
    rintro ⟨next, hread⟩
    rw [hread]

end reads

/-! ## Both ways -/

/-- What was read is written as the bytes that it was read from. -/
theorem toCanonicalBytes_of_fromCanonicalBytes
    (h : fromCanonicalBytes bytes limits = .ok envelope) :
    envelope.toCanonicalBytes limits = .ok bytes := by
  obtain ⟨hlength, hdecodable⟩ := fromCanonicalBytes_eq_ok.mp h
  have hordered : Everywhere (fun _ node => node.state.Ordered) 0 envelope.root :=
    hdecodable.readable.mono fun _ _ hreadable => hreadable.state.ordered
  have hfits : Everywhere (FitsAt limits) 0 envelope.root :=
    hdecodable.readable.mono fun _ _ hreadable =>
      ⟨hreadable.variantIdentity, hreadable.codeIdentity, hreadable.state.fits⟩
  have hcanon := canon_of_ordered hordered
  refine toCanonicalBytes_eq_ok.mpr ⟨⟨hdecodable.schema, hdecodable.valid, hfits, hdecodable.nodes,
    ?_⟩, ?_⟩
  · rw [hcanon, ← hdecodable.form]
    exact hlength
  rw [hcanon]
  exact hdecodable.form

theorem Encodable.distinct (h : Encodable limits envelope) :
    Everywhere (fun _ node => node.state.Distinct) 0 envelope.root :=
  h.valid.mono fun _ _ hvalid => hvalid.state.distinct

/-- What was written is read as the envelope in canonical order. -/
theorem fromCanonicalBytes_of_toCanonicalBytes (h : envelope.toCanonicalBytes limits = .ok bytes) :
    fromCanonicalBytes bytes limits = .ok ⟨envelope.schemaVersion, envelope.root.canon⟩ := by
  obtain ⟨hencodable, rfl⟩ := toCanonicalBytes_eq_ok.mp h
  have hvalid : Everywhere (ValidAt limits) 0 envelope.root.canon :=
    (everywhere_canon validAt_canon _).mpr hencodable.valid
  have hfits : Everywhere (FitsAt limits) 0 envelope.root.canon :=
    (everywhere_canon fitsAt_canon _).mpr hencodable.fits
  have hordered := ordered_canon hencodable.distinct
  refine fromCanonicalBytes_eq_ok.mpr ⟨hencodable.bytes, hencodable.schema, ?_, hvalid, ?_, rfl⟩
  · refine ((hvalid.and hfits).and hordered).mono ?_
    rintro depth node ⟨⟨hvalid, hvariant, hcode, hfits⟩, hordered⟩
    exact ⟨hvalid.depth_le, (kind_eq_of_matches hvalid.kinds).symm, hvariant, hcode, hfits,
      hvalid.state.inRange, hordered⟩
  rw [count_canon]
  exact hencodable.nodes

variable {other : RecoverableEnvelope}

theorem Encodable.of_canon_eq (h : Encodable limits envelope)
    (hschema : other.schemaVersion = envelope.schemaVersion)
    (hcanon : other.root.canon = envelope.root.canon) : Encodable limits other := by
  refine ⟨hschema.trans h.schema, ?_, ?_, ?_, ?_⟩
  · rw [← everywhere_canon validAt_canon, hcanon, everywhere_canon validAt_canon]
    exact h.valid
  · rw [← everywhere_canon fitsAt_canon, hcanon, everywhere_canon fitsAt_canon]
    exact h.fits
  · rw [← count_canon, hcanon, count_canon]
    exact h.nodes
  rw [hcanon]
  exact h.bytes

/-- Two envelopes are written as the same bytes just if they are alike. -/
theorem toCanonicalBytes_eq_iff_alike (h : envelope.toCanonicalBytes limits = .ok bytes) :
    other.toCanonicalBytes limits = .ok bytes ↔
      other.schemaVersion = envelope.schemaVersion ∧ Alike envelope.root other.root := by
  obtain ⟨hencodable, rfl⟩ := toCanonicalBytes_eq_ok.mp h
  constructor
  · intro hother
    have hread := fromCanonicalBytes_of_toCanonicalBytes hother
    rw [fromCanonicalBytes_of_toCanonicalBytes h] at hread
    obtain ⟨hschema, hcanon⟩ := RecoverableEnvelope.mk.inj (Except.ok.inj hread)
    exact ⟨hschema.symm, alike_of_canon_eq hcanon⟩
  rintro ⟨hschema, halike⟩
  have hcanon := canon_eq_of_alike halike hencodable.distinct
  refine toCanonicalBytes_eq_ok.mpr ⟨hencodable.of_canon_eq hschema hcanon.symm, ?_⟩
  rw [hcanon]

/-- Envelopes have one form: what is written is read back up to the order of entries and fields,
what is read is written back byte for byte, and all else is refused within the input and the depth
limit. -/
theorem canonical_form_unique (limits : RecoverableValidationLimits) :
    (∀ envelope bytes, toCanonicalBytes limits envelope = .ok bytes →
      (∃ decoded, fromCanonicalBytes bytes limits = .ok decoded ∧
        decoded.schemaVersion = envelope.schemaVersion ∧ Alike envelope.root decoded.root) ∧
      ∀ other : RecoverableEnvelope, other.toCanonicalBytes limits = .ok bytes ↔
        other.schemaVersion = envelope.schemaVersion ∧ Alike envelope.root other.root) ∧
    (∀ bytes envelope, fromCanonicalBytes bytes limits = .ok envelope →
      envelope.toCanonicalBytes limits = .ok bytes) ∧
    (∀ bytes, (∀ envelope, toCanonicalBytes limits envelope ≠ .ok bytes) →
      ∃ error, fromCanonicalBytes bytes limits = .error error) ∧
    ∀ bytes levels, limits.maxDepth < levels →
      readEnvelope bytes limits levels = readEnvelope bytes limits (limits.maxDepth + 1) ∧
      (readEnvelope bytes limits levels ⟨0, 0⟩).2.offset ≤ bytes.length := by
  refine ⟨fun envelope bytes h => ⟨⟨_, fromCanonicalBytes_of_toCanonicalBytes h, rfl, ?_⟩,
    fun other => toCanonicalBytes_eq_iff_alike h⟩,
    fun bytes envelope => toCanonicalBytes_of_fromCanonicalBytes, fun bytes hnone => ?_,
    fun bytes levels hlevels => ⟨readEnvelope_levels hlevels, ?_⟩⟩
  · obtain ⟨hencodable, -⟩ := toCanonicalBytes_eq_ok.mp h
    exact alike_canon hencodable.distinct
  · cases hread : fromCanonicalBytes bytes limits with
    | ok envelope => exact absurd (toCanonicalBytes_of_fromCanonicalBytes hread) (hnone envelope)
    | error error => exact ⟨error, rfl⟩
  have hread : Within bytes (readEnvelope bytes limits levels) := readEnvelope_within
  have hwithin := hread ⟨0, 0⟩ (Nat.zero_le _)
  cases hread : readEnvelope bytes limits levels ⟨0, 0⟩ with
  | mk result next =>
    cases result with
    | ok envelope => exact hwithin.1 envelope next hread
    | error error => exact hwithin.2 error next hread

/-- A map whose entries are not in canonical order is read back with the keys in order. -/
theorem canonical_form_unique_map : ∃ decoded, fromCanonicalBytes
      (headerBytes envelopeSchemaVersion ++ [7, 0, 0, 2, 0, 0, 0, 0, 1, 0, 0, 0, 97, 1, 0, 0, 1,
        0, 1, 0, 0, 0, 98, 0, 0, 0]) ⟨3, 1, 80⟩ = .ok decoded ∧
    decoded.schemaVersion = envelopeSchemaVersion ∧
    Alike ⟨.map, .none, .none, .map [(.string "b", ⟨.null, .none, .none, .null⟩),
      (.string "a", ⟨.bool, .none, .none, .bool true⟩)]⟩ decoded.root :=
  ((canonical_form_unique ⟨3, 1, 80⟩).1 ⟨envelopeSchemaVersion, ⟨.map, .none, .none,
    .map [(.string "b", ⟨.null, .none, .none, .null⟩),
      (.string "a", ⟨.bool, .none, .none, .bool true⟩)]⟩⟩ _ (by decide +kernel)).1

end Skiff.Recoverable
