import Skiff.Recoverable.Validates

/-!
# What the decoder accepts

`Takes` says that a run of the decoder has moved over given bytes and counted given nodes. Each
reader is exact: it returns a value just if the input goes on with the canonical form of the value
and the value fits. A node is read just if it is in canonical order at every depth.
-/

namespace Skiff.Recoverable

open Skiff.Runtime (utf8 fromUtf8)
open Wire (leBytes leNat)
open RecoverableMapKey List Wire Ne

variable {input : Bytes} {limits : RecoverableValidationLimits}

/-- The decoder is within its input and its node limit. -/
structure Good (input : Bytes) (limits : RecoverableValidationLimits) (state : DecoderState) :
    Prop where
  offset : state.offset ≤ input.length
  nodes : state.nodeCount ≤ limits.maxNodes

/-- From one state to the other the decoder has moved over `bytes` and counted `cost` nodes. -/
structure Takes (input : Bytes) (limits : RecoverableValidationLimits) (state : DecoderState)
    (bytes : Bytes) (cost : Nat) (next : DecoderState) : Prop where
  starts : bytes <+: input.drop state.offset
  offset : next.offset = state.offset + bytes.length
  nodes : next.nodeCount = state.nodeCount + cost
  nodes_le : next.nodeCount ≤ limits.maxNodes

namespace Takes

variable {state middle next : DecoderState} {first second : Bytes} {m n : Nat}

theorem good (h : Takes input limits state first n next) (hgood : Good input limits state) :
    Good input limits next := by
  have hle := List.IsPrefix.length_le h.starts
  rw [length_drop] at hle
  have hoffset := hgood.offset
  exact ⟨by have := h.offset; omega, h.nodes_le⟩

theorem nil_iff (hgood : Good input limits state) :
    Takes input limits state [] 0 next ↔ next = state := by
  constructor
  · rintro ⟨-, hoffset, hnodes, -⟩
    cases next
    cases state
    simp_all
  rintro rfl
  exact ⟨ nil_prefix, rfl, rfl, hgood.nodes⟩

theorem append (h : Takes input limits state first m middle)
    (h' : Takes input limits middle second n next) :
    Takes input limits state (first ++ second) (m + n) next := by
  refine ⟨?_, ?_, ?_, h'.nodes_le⟩
  · obtain ⟨rest, hrest⟩ := h.starts
    have hsecond := h'.starts
    have hdrop : input.drop middle.offset = rest := by
      rw [h.offset, ← drop_drop, ← hrest, drop_left]
    rw [hdrop] at hsecond
    rw [← hrest]
    exact (prefix_append_right_inj first).mpr hsecond
  · rw [h'.offset, h.offset, length_append, Nat.add_assoc]
  · rw [h'.nodes, h.nodes, Nat.add_assoc]

theorem split (h : Takes input limits state (first ++ second) (m + n) next) :
    ∃ middle, Takes input limits state first m middle ∧
      Takes input limits middle second n next := by
  have hnodes := h.nodes
  have hle := h.nodes_le
  refine ⟨⟨state.offset + first.length, state.nodeCount + m⟩, ⟨?_, rfl, rfl, ?_⟩, ?_, ?_, ?_, hle⟩
  · exact (prefix_append first second).trans h.starts
  · dsimp only
    omega
  · obtain ⟨rest, hrest⟩ := h.starts
    refine ⟨rest, ?_⟩
    rw [← drop_drop, ← hrest, append_assoc, drop_left]
  · rw [h.offset, length_append, Nat.add_assoc]
  · rw [hnodes, Nat.add_assoc]

end Takes

/-- The reader returns a value just if it fits and the input goes on with its form. -/
def Exact {α : Type} (input : Bytes) (limits : RecoverableValidationLimits) (read : DecodeM α)
    (F : α → Prop) (form : α → Bytes) (cost : α → Nat) : Prop :=
  ∀ state, Good input limits state → ∀ a next,
    read state = (.ok a, next) ↔ F a ∧ Takes input limits state (form a) (cost a) next

/-- A reader that counts no nodes. -/
def ExactLeaf {α : Type} (input : Bytes) (limits : RecoverableValidationLimits) (read : DecodeM α)
    (F : α → Prop) (form : α → Bytes) : Prop :=
  Exact input limits read F form fun _ => 0

/-- The reader returns a value just if the input goes on with bytes that `R` allows for it. -/
def Reads {α : Type} (input : Bytes) (limits : RecoverableValidationLimits) (read : DecodeM α)
    (R : α → Bytes → Nat → Prop) : Prop :=
  ∀ state, Good input limits state → ∀ a next,
    read state = (.ok a, next) ↔ ∃ bytes cost, R a bytes cost ∧
      Takes input limits state bytes cost next

section

variable {α β : Type} {read : DecodeM α} {F : α → Prop} {form : α → Bytes} {size : α → Nat}
  {f : α → DecodeM β} {R : β → Bytes → Nat → Prop} {S : α → β → Bytes → Nat → Prop}
  {state next : DecoderState}

theorem Exact.bind (h : Exact input limits read F form size) (hgood : Good input limits state)
    {b : β} : (read >>= f) state = (.ok b, next) ↔
      ∃ a middle, (F a ∧ Takes input limits state (form a) (size a) middle) ∧
        f a middle = (.ok b, next) := by
  simp only [Mut.bind_eq_ok, h state hgood]

theorem Exact.reads (h : Exact input limits read F form size) :
    Reads input limits read fun a bytes cost => F a ∧ bytes = form a ∧ cost = size a := by
  intro state hgood a next
  rw [h state hgood]
  constructor
  · rintro ⟨hF, htakes⟩
    exact ⟨_, _, ⟨hF, rfl, rfl⟩, htakes⟩
  rintro ⟨_, _, ⟨hF, rfl, rfl⟩, htakes⟩
  exact ⟨hF, htakes⟩

namespace Reads

theorem exact (h : Reads input limits read fun a bytes cost =>
    F a ∧ bytes = form a ∧ cost = size a) : Exact input limits read F form size := by
  intro state hgood a next
  rw [h state hgood]
  constructor
  · rintro ⟨_, _, ⟨hF, rfl, rfl⟩, htakes⟩
    exact ⟨hF, htakes⟩
  rintro ⟨hF, htakes⟩
  exact ⟨_, _, ⟨hF, rfl, rfl⟩, htakes⟩

theorem congr {R' : β → Bytes → Nat → Prop} {read : DecodeM β} (h : Reads input limits read R)
    (hR : ∀ b bytes cost, R b bytes cost ↔ R' b bytes cost) : Reads input limits read R' := by
  intro state hgood b next
  simp only [h state hgood, hR]

theorem pure (b : β) : Reads input limits (Pure.pure b)
    fun result bytes cost => result = b ∧ bytes = [] ∧ cost = 0 := by
  intro state hgood result next
  rw [Mut.pure_eq_ok]
  constructor
  · rintro ⟨rfl, rfl⟩
    exact ⟨[], 0, ⟨rfl, rfl, rfl⟩, (Takes.nil_iff hgood).mpr rfl⟩
  rintro ⟨_, _, ⟨rfl, rfl, rfl⟩, htakes⟩
  exact ⟨rfl, (Takes.nil_iff hgood).mp htakes⟩

theorem refuse (path message : String) : Reads input limits (refuse path message : DecodeM β)
    fun _ _ _ => False := by
  intro state hgood result next
  constructor
  · intro h
    cases (Prod.mk.inj h).1
  rintro ⟨_, _, hfalse, _⟩
  exact hfalse.elim

theorem bind {R' : α → Bytes → Nat → Prop} (h : Reads input limits read R')
    (hf : ∀ a, Reads input limits (f a) (S a)) :
    Reads input limits (read >>= f) fun b bytes cost => ∃ a first m rest n,
      R' a first m ∧ S a b rest n ∧ bytes = first ++ rest ∧ cost = m + n := by
  intro state hgood b next
  simp only [Mut.bind_eq_ok, h state hgood]
  constructor
  · rintro ⟨a, middle, ⟨first, m, hR, htakes⟩, hread⟩
    obtain ⟨rest, n, hS, htakes'⟩ := (hf a middle (htakes.good hgood) b next).mp hread
    exact ⟨_, _, ⟨a, first, m, rest, n, hR, hS, rfl, rfl⟩, htakes.append htakes'⟩
  rintro ⟨_, _, ⟨a, first, m, rest, n, hR, hS, rfl, rfl⟩, htakes⟩
  obtain ⟨middle, hfirst, hsecond⟩ := htakes.split
  exact ⟨a, middle, ⟨first, m, hR, hfirst⟩,
    (hf a middle (hfirst.good hgood) b next).mpr ⟨rest, n, hS, hsecond⟩⟩

theorem map {R' : α → Bytes → Nat → Prop} (h : Reads input limits read R') (g : α → β) :
    Reads input limits (read >>= fun a => Pure.pure (g a)) fun b bytes cost =>
      ∃ a, R' a bytes cost ∧ b = g a := by
  intro state hgood b next
  simp only [Mut.bind_eq_ok, Mut.pure_eq_ok, h state hgood]
  constructor
  · rintro ⟨a, _, ⟨bytes, cost, hR, htakes⟩, rfl, rfl⟩
    exact ⟨bytes, cost, ⟨a, hR, rfl⟩, htakes⟩
  rintro ⟨bytes, cost, ⟨a, hR, rfl⟩, htakes⟩
  exact ⟨a, next, ⟨bytes, cost, hR, htakes⟩, rfl, rfl⟩

theorem bindExact (h : Exact input limits read F form size)
    (hf : ∀ a, Reads input limits (f a) (S a)) :
    Reads input limits (read >>= f) fun b bytes cost => ∃ a rest n,
      F a ∧ S a b rest n ∧ bytes = form a ++ rest ∧ cost = size a + n := by
  refine (h.reads.bind hf).congr fun b bytes cost => ?_
  constructor
  · rintro ⟨a, _, _, rest, n, ⟨hF, rfl, rfl⟩, hS, hbytes, hcost⟩
    exact ⟨a, rest, n, hF, hS, hbytes, hcost⟩
  rintro ⟨a, rest, n, hF, hS, hbytes, hcost⟩
  exact ⟨a, _, _, rest, n, ⟨hF, rfl, rfl⟩, hS, hbytes, hcost⟩

theorem bindLeaf (h : ExactLeaf input limits read F form)
    (hf : ∀ a, Reads input limits (f a) (S a)) :
    Reads input limits (read >>= f) fun b bytes cost => ∃ a rest,
      F a ∧ S a b rest cost ∧ bytes = form a ++ rest := by
  refine (bindExact h hf).congr fun b bytes cost => ?_
  simp only [Nat.zero_add]
  constructor
  · rintro ⟨a, rest, n, hF, hS, hbytes, rfl⟩
    exact ⟨a, rest, hF, hS, hbytes⟩
  rintro ⟨a, rest, hF, hS, hbytes⟩
  exact ⟨a, rest, cost, hF, hS, hbytes, rfl⟩

theorem ofExcept {x : Checked α} (hf : ∀ a, Reads input limits (f a) (S a)) :
    Reads input limits (Mut.ofExcept x >>= f) fun b bytes cost =>
      ∃ a, x = .ok a ∧ S a b bytes cost := by
  intro state hgood b next
  rw [Mut.ofExcept_bind_eq_ok]
  constructor
  · rintro ⟨a, hx, hread⟩
    obtain ⟨bytes, cost, hS, htakes⟩ := (hf a state hgood b next).mp hread
    exact ⟨bytes, cost, ⟨a, hx, hS⟩, htakes⟩
  rintro ⟨bytes, cost, ⟨a, hx, hS⟩, htakes⟩
  exact ⟨a, hx, (hf a state hgood b next).mpr ⟨bytes, cost, hS, htakes⟩⟩

theorem guarded {condition : Prop} [Decidable condition] {path message : String}
    {read : DecodeM β} (h : Reads input limits read R) :
    Reads input limits (if condition then Skiff.Recoverable.refuse path message else read)
      fun b bytes cost => ¬ condition ∧ R b bytes cost := by
  by_cases hcondition : condition
  · rw [if_pos hcondition]
    exact (refuse path message).congr fun _ _ _ => by simp [hcondition]
  rw [if_neg hcondition]
  exact h.congr fun _ _ _ => by simp [hcondition]

end Reads

end

variable {path : String} {state next : DecoderState}

/-! ## Bytes -/

theorem readExact_eq_ok {length : Nat} {bytes : Bytes} (hgood : Good input limits state) :
    readExact input path length state = (.ok bytes, next) ↔
      bytes.length = length ∧ Takes input limits state bytes 0 next := by
  rw [readExact]
  split
  case isTrue hshort =>
    constructor
    · intro h
      cases (Prod.mk.inj h).1
    rintro ⟨rfl, htakes⟩
    have hle := List.IsPrefix.length_le htakes.starts
    rw [length_drop] at hle
    have hoffset := hgood.offset
    omega
  case isFalse hlong =>
    have hlength : ((input.drop state.offset).take length).length = length := by
      rw [length_take, length_drop]
      omega
    constructor
    · intro h
      obtain ⟨hbytes, rfl⟩ := Prod.mk.inj h
      cases hbytes
      refine ⟨hlength, take_prefix _ _, ?_, rfl, hgood.nodes⟩
      rw [hlength]
    rintro ⟨rfl, htakes⟩
    obtain ⟨rest, hrest⟩ := htakes.starts
    have hbytes : (input.drop state.offset).take bytes.length = bytes := by
      rw [← hrest, take_left]
    have hnext : next = { state with offset := state.offset + bytes.length } := by
      obtain ⟨offset, nodeCount⟩ := next
      rw [DecoderState.mk.injEq]
      exact ⟨htakes.offset, htakes.nodes⟩
    rw [hbytes, hnext]

theorem readU8_exact : ExactLeaf input limits (readU8 input path) (fun _ => True)
    fun byte => [byte] := by
  intro state hgood byte next
  rw [readU8, Mut.bind_eq_ok]
  constructor
  · rintro ⟨bytes, middle, hread, hbyte⟩
    obtain ⟨hlength, htakes⟩ := (readExact_eq_ok hgood).mp hread
    obtain ⟨rfl, rfl⟩ := Mut.pure_eq_ok.mp hbyte
    obtain ⟨first, rfl⟩ := length_eq_one_iff.mp hlength
    exact ⟨trivial, htakes⟩
  rintro ⟨-, htakes⟩
  exact ⟨[byte], next, (readExact_eq_ok hgood).mpr ⟨rfl, htakes⟩, rfl⟩

theorem readLen_exact : ExactLeaf input limits (readLen input path) (· < 2 ^ 32) (leBytes 4) := by
  intro state hgood length next
  rw [readLen, Mut.bind_eq_ok]
  constructor
  · rintro ⟨bytes, middle, hread, hreturn⟩
    obtain ⟨hlength, htakes⟩ := (readExact_eq_ok hgood).mp hread
    obtain ⟨rfl, rfl⟩ := Mut.pure_eq_ok.mp hreturn
    have hlt : leNat bytes < 256 ^ 4 := hlength ▸ leNat_lt bytes
    have hbytes : leBytes 4 (leNat bytes) = bytes := hlength ▸ leBytes_leNat bytes
    exact ⟨hlt, hbytes.symm ▸ htakes⟩
  rintro ⟨hlt, htakes⟩
  refine ⟨leBytes 4 length, next, (readExact_eq_ok hgood).mpr ⟨length_leBytes 4 _, htakes⟩, ?_⟩
  have hback : leNat (leBytes 4 length) = length := leNat_leBytes hlt
  rw [hback]
  rfl

theorem readU64_exact : ExactLeaf input limits (readU64 input path) (fun _ => True)
    fun bits => leBytes 8 bits.toNat := by
  intro state hgood bits next
  rw [readU64, Mut.bind_eq_ok]
  constructor
  · rintro ⟨bytes, middle, hread, hreturn⟩
    obtain ⟨hlength, htakes⟩ := (readExact_eq_ok hgood).mp hread
    obtain ⟨rfl, rfl⟩ := Mut.pure_eq_ok.mp hreturn
    have hlt : leNat bytes < 2 ^ 64 := by
      have hbound := leNat_lt bytes
      rw [hlength] at hbound
      exact hbound
    have hbytes : leBytes 8 (leNat bytes) = bytes := hlength ▸ leBytes_leNat bytes
    have hform : leBytes 8 (BitVec.ofNat 64 (leNat bytes)).toNat = bytes := by
      rw [BitVec.toNat_ofNat, Nat.mod_eq_of_lt hlt, hbytes]
    refine ⟨trivial, ?_⟩
    dsimp only
    rw [hform]
    exact htakes
  rintro ⟨-, htakes⟩
  refine ⟨_, next, (readExact_eq_ok hgood).mpr ⟨length_leBytes 8 _, htakes⟩, ?_⟩
  have hback : leNat (leBytes 8 bits.toNat) = bits.toNat := leNat_leBytes bits.isLt
  rw [hback, BitVec.ofNat_toNat, BitVec.setWidth_eq]
  rfl

theorem readBytes_exact : ExactLeaf input limits (readBytes input path)
    (fun bytes => bytes.length < 2 ^ 32) rawBytes := by
  intro state hgood bytes next
  rw [readBytes, readLen_exact.bind hgood]
  constructor
  · rintro ⟨length, middle, ⟨hlt, hlength⟩, hread⟩
    obtain ⟨rfl, htakes⟩ := (readExact_eq_ok (hlength.good hgood)).mp hread
    exact ⟨hlt, hlength.append htakes⟩
  rintro ⟨hlt, htakes⟩
  obtain ⟨middle, hlength, hbytes⟩ := Takes.split (m := 0) (n := 0) htakes
  exact ⟨bytes.length, middle, ⟨hlt, hlength⟩,
    (readExact_eq_ok (hlength.good hgood)).mpr ⟨rfl, hbytes⟩⟩

theorem readString_exact : ExactLeaf input limits (readString input path) Short stringBytes := by
  intro state hgood text next
  rw [readString, readBytes_exact.bind hgood]
  constructor
  · rintro ⟨bytes, middle, ⟨hlt, htakes⟩, hreturn⟩
    cases htext : Skiff.Runtime.fromUtf8 bytes with
    | none =>
      rw [htext] at hreturn
      cases hreturn
    | some other =>
      rw [htext] at hreturn
      obtain ⟨rfl, rfl⟩ := Mut.pure_eq_ok.mp hreturn
      obtain rfl := Skiff.Runtime.fromUtf8_eq_some.mp htext
      exact ⟨hlt, htakes⟩
  rintro ⟨hshort, htakes⟩
  refine ⟨utf8 text, next, ⟨hshort, htakes⟩, ?_⟩
  rw [Skiff.Runtime.fromUtf8_utf8]
  rfl

/-! ## Identities -/

/-- A reader that takes a tag and goes on by it. -/
theorem Reads.tagged {β : Type} {f : UInt8 → DecodeM β} {R : β → Bytes → Nat → Prop}
    (hR : ∀ b cost, ¬ R b [] cost)
    (hf : ∀ tag, Reads input limits (f tag) fun b rest cost => R b (tag :: rest) cost) :
    Reads input limits (readU8 input path >>= f) R := by
  refine (Reads.bindLeaf readU8_exact hf).congr fun b bytes cost => ?_
  constructor
  · rintro ⟨tag, rest, -, hrest, rfl⟩
    exact hrest
  intro hbytes
  cases bytes with
  | nil => exact absurd hbytes (hR b cost)
  | cons tag rest => exact ⟨tag, rest, trivial, hbytes, rfl⟩

theorem exactLeaf_of_tagged {β : Type} {f : UInt8 → DecodeM β} {F : β → Prop} {form : β → Bytes}
    (hform : ∀ b, form b ≠ []) (hf : ∀ tag, Reads input limits (f tag) fun b rest cost =>
      F b ∧ form b = tag :: rest ∧ cost = 0) :
    ExactLeaf input limits (readU8 input path >>= f) F form := by
  refine (Reads.tagged (fun b cost h => hform b h.2.1.symm) fun tag => ?_).exact
  exact (hf tag).congr fun b rest cost => by rw [eq_comm (a := form b)]

theorem readVariantIdentity_exact : ExactLeaf input limits (readVariantIdentity input path)
    RecoverableVariantIdentity.Fits variantBytes := by
  refine exactLeaf_of_tagged (by rintro (_ | ⟨_, _⟩) <;> exact cons_ne_nil _ _) fun tag => ?_
  split
  case h_1 =>
    refine (Reads.pure _).congr fun variant rest cost => ?_
    cases variant <;> simp [variantBytes, RecoverableVariantIdentity.Fits]
  case h_2 =>
    refine (Reads.bindLeaf readString_exact fun union =>
      readString_exact.reads.map _).congr fun variant rest cost => ?_
    cases variant with
    | none => simp [variantBytes]
    | unionBranch union branch =>
      simp [variantBytes, RecoverableVariantIdentity.Fits]
      grind
  case h_3 h0 h1 =>
    refine (Reads.refuse _ _).congr fun variant rest cost => ?_
    cases variant <;> simp [variantBytes, symm h0, symm h1]

theorem readPackage_exact : ExactLeaf input limits (readPackage input path)
    PackageFits packageBytes := by
  refine exactLeaf_of_tagged (by rintro (_ | _) <;> exact cons_ne_nil _ _) fun tag => ?_
  split
  case h_1 =>
    refine (Reads.pure _).congr fun package rest cost => ?_
    cases package <;> simp [packageBytes, PackageFits]
  case h_2 =>
    refine (Reads.bindLeaf readString_exact fun name =>
      readString_exact.reads.map _).congr fun package rest cost => ?_
    rcases package with _ | ⟨name, version⟩
    · simp [packageBytes]
    simp [packageBytes, PackageFits]
    grind
  case h_3 h0 h1 =>
    refine (Reads.refuse _ _).congr fun package rest cost => ?_
    cases package <;> simp [packageBytes, symm h0, symm h1]

theorem readNativeOwner_exact : ExactLeaf input limits (readNativeOwner input path)
    NativeAdapterOwner.Fits nativeOwnerBytes := by
  refine exactLeaf_of_tagged (by rintro (_ | ⟨_, _, _⟩) <;> exact cons_ne_nil _ _) fun tag => ?_
  split
  case h_1 =>
    refine (Reads.pure _).congr fun owner rest cost => ?_
    cases owner <;> simp [nativeOwnerBytes, NativeAdapterOwner.Fits]
  case h_2 =>
    refine (Reads.bindLeaf readString_exact fun artifactIdentity =>
      Reads.bindLeaf readString_exact fun buildId =>
      readPackage_exact.reads.map _).congr fun owner rest cost => ?_
    cases owner with
    | builtin => simp [nativeOwnerBytes]
    | artifact artifactIdentity buildId package =>
      simp [nativeOwnerBytes, NativeAdapterOwner.Fits]
      grind
  case h_3 h0 h1 =>
    refine (Reads.refuse _ _).congr fun owner rest cost => ?_
    cases owner <;> simp [nativeOwnerBytes, symm h0, symm h1]

theorem readLocalConcreteOwner_exact : ExactLeaf input limits (readLocalConcreteOwner input path)
    LocalConcreteOwner.Fits localOwnerBytes := by
  refine exactLeaf_of_tagged (by rintro (_ | _) <;> exact cons_ne_nil _ _) fun tag => ?_
  split
  case h_1 =>
    refine (Reads.pure _).congr fun owner rest cost => ?_
    cases owner <;> simp [localOwnerBytes, LocalConcreteOwner.Fits]
  case h_2 =>
    refine (readString_exact.reads.map _).congr fun owner rest cost => ?_
    cases owner with
    | service => simp [localOwnerBytes]
    | package packageId =>
      simp [localOwnerBytes, LocalConcreteOwner.Fits]
      grind
  case h_3 h0 h1 =>
    refine (Reads.refuse _ _).congr fun owner rest cost => ?_
    cases owner <;> simp [localOwnerBytes, symm h0, symm h1]

theorem readCodeIdentity_exact : ExactLeaf input limits (readCodeIdentity input path)
    RecoverableCodeIdentity.Fits codeBytes := by
  refine exactLeaf_of_tagged
    (by rintro (_ | ⟨_, _⟩ | ⟨_, _, _, _⟩) <;> exact cons_ne_nil _ _) fun tag => ?_
  split
  case h_1 =>
    refine (Reads.pure _).congr fun code rest cost => ?_
    cases code <;> simp [codeBytes, RecoverableCodeIdentity.Fits]
  case h_2 =>
    refine (Reads.bindLeaf readLocalConcreteOwner_exact fun owner =>
      readString_exact.reads.map _).congr fun code rest cost => ?_
    cases code with
    | none | nativeAdapter => simp [codeBytes]
    | localConcrete owner identity =>
      simp [codeBytes, RecoverableCodeIdentity.Fits]
      grind
  case h_3 =>
    refine (Reads.bindLeaf readString_exact fun adapterIdentity =>
      Reads.bindLeaf readString_exact fun adapterSchemaVersion =>
      Reads.bindLeaf readNativeOwner_exact fun owner =>
      readString_exact.reads.map _).congr fun code rest cost => ?_
    cases code with
    | none | localConcrete => simp [codeBytes]
    | nativeAdapter adapterIdentity adapterSchemaVersion owner nativeTypeIdentity =>
      simp [codeBytes, RecoverableCodeIdentity.Fits]
      grind
  case h_4 h0 h1 h2 =>
    refine (Reads.refuse _ _).congr fun code rest cost => ?_
    cases code <;> simp [codeBytes, symm h0, symm h1, symm h2]

/-- The levels left and the depth make up the depths from `0` to the limit. -/
theorem readMapKey_exact {levels depth : Nat} (hlevels : levels + depth = limits.maxDepth + 1) :
    ExactLeaf input limits (readMapKey input limits path levels depth)
      (Fits limits depth) mapKeyBytes := by
  induction levels generalizing depth with
  | zero =>
    refine ((Reads.refuse _ _).congr fun key bytes cost => ?_).exact
    have hdepth : ¬ depth ≤ limits.maxDepth := by omega
    cases key <;> simp [Fits, hdepth]
  | succ levels ih =>
    have hdepth : depth ≤ limits.maxDepth := by omega
    have hvalidate : ∀ f : Unit → DecodeM RecoverableMapKey,
        ExactLeaf input limits (f ()) (Fits limits depth) mapKeyBytes →
        ExactLeaf input limits (Mut.ofExcept (validateRecoverableDepth limits path depth) >>= f)
          (Fits limits depth) mapKeyBytes := by
      intro f hf
      refine ((Reads.ofExcept fun _ => hf.reads).congr fun key bytes cost => ?_).exact
      simp [validateRecoverableDepth_eq_ok, hdepth]
    refine hvalidate _ ?_
    refine exactLeaf_of_tagged (by rintro (_ | ⟨_, _⟩) <;> exact cons_ne_nil _ _) fun tag => ?_
    split
    case h_1 =>
      refine (readString_exact.reads.map _).congr fun key rest cost => ?_
      cases key with
      | string value =>
        simp [mapKeyBytes, Fits, hdepth]
        grind
      | nominalRepresentation => simp [mapKeyBytes]
    case h_2 =>
      refine (Reads.bindLeaf readString_exact fun identity =>
        (ih (by omega)).reads.map _).congr fun key rest cost => ?_
      cases key with
      | string => simp [mapKeyBytes]
      | nominalRepresentation identity value =>
        simp [mapKeyBytes, Fits, hdepth]
        grind
    case h_3 h0 h1 =>
      refine (Reads.refuse _ _).congr fun key rest cost => ?_
      cases key <;> simp [mapKeyBytes, symm h0, symm h1]

end Skiff.Recoverable
