import Skiff.WebSocket.MemberScans

/-!
# The members that the scanners find

For a text that is read as an object the member scanners return its keys with the texts of
their values, or nothing. They return nothing only if a key occurs twice or a key contains
an escaped pair of surrogates.
-/

namespace Skiff.WebSocket

open Json List

/-- The grammar of the parser without escaped pairs of surrogates. -/
def unpaired : JsonGrammar := { accepted with surrogatePair := false }

theorem spanText_append (text rest : List UInt8) : spanText (text ++ rest) rest = text := by
  rw [spanText, length_append, Nat.add_sub_cancel, take_left]

/-! ## Strings -/

theorem decodeJsonLoop_plain {byte : UInt8} {tail : List UInt8} {len : Nat} (htail : tail ≠ [])
    (hbackslash : byte ≠ 0x5c) (hcontrol : ¬ byte < 0x20) (hlen : utf8SequenceLen byte = some len)
    (fuel : Nat) (out : List UInt8) : decodeJsonLoop (fuel + 1) out (byte :: tail) =
      decodeJsonLoop fuel (out ++ (byte :: tail).take len) ((byte :: tail).drop len) := by
  obtain ⟨next, rest, rfl⟩ := exists_cons_of_ne_nil htail
  rw [decodeJsonLoop, if_neg hbackslash, if_neg hcontrol, hlen]

variable {digits rest : List UInt8} {value chars : List UInt8}

theorem decodeJsonLoop_unicode {n : Nat} (hex : HexDigits accepted digits n) (fuel : Nat)
    (out : List UInt8) : decodeJsonLoop (fuel + 1) out (0x5c :: 0x75 :: (digits ++ rest)) =
      (charFromU32 n).bind fun c => decodeJsonLoop fuel (out ++ String.utf8EncodeChar c) rest := by
  have hread : lexHex (digits ++ rest) = .ok (n, rest) := lexHex_eq_ok.mpr ⟨digits, rfl, hex⟩
  have hsimple : simpleEscape 0x75 = none := rfl
  rw [decodeJsonLoop, if_pos rfl, hsimple]
  dsimp only
  rw [if_pos rfl, hread]
  dsimp only
  cases charFromU32 n <;> rfl

variable {g : JsonGrammar} {value source rest : List UInt8}

/-- A string is decoded to what it says, unless it contains an escaped pair of surrogates. -/
theorem decodeJsonLoop_of_reads (hle : g.Le accepted) (h : ReadsChars g value source rest)
    (hrest : rest = []) {fuel : Nat} (hfuel : source.length < fuel) (out : List UInt8) :
    decodeJsonLoop fuel out source = some (out ++ value) ∧ ReadsChars unpaired value source rest ∨
      g.surrogatePair = true ∧ decodeJsonLoop fuel out source = none := by
  induction h generalizing fuel out with
  | close rest =>
    subst hrest
    obtain ⟨n, rfl⟩ := exists_fuel hfuel
    refine .inl ⟨?_, .close []⟩
    rw [decodeJsonLoop, append_nil]
  | @unescaped c value source rest plain h ih =>
    obtain ⟨n, rfl⟩ := exists_fuel hfuel
    obtain ⟨first, others, hbytes, hlen, -⟩ := utf8EncodeChar_takes c
    have hfirst := plainByte_of_unescaped plain first (by rw [hbytes]; exact mem_cons_self)
    have htail : others ++ source ≠ [] := by
      obtain ⟨b, text, rfl, -⟩ := h.consumes
      simp
    have hstep : decodeJsonLoop (n + 1) out (String.utf8EncodeChar c ++ source) =
        decodeJsonLoop n (out ++ String.utf8EncodeChar c) source := by
      rw [hbytes, cons_append, decodeJsonLoop_plain htail hfirst.2.1 hfirst.2.2 hlen,
        take_succ_cons, take_left, drop_succ_cons, drop_left]
    have hlength : source.length < n := by
      rw [hbytes, length_append, length_cons] at hfuel
      omega
    obtain ⟨hvalue, hread⟩ | ⟨hpair, hnone⟩ := ih hrest hlength (out ++ String.utf8EncodeChar c)
    · refine .inl ⟨?_, .unescaped plain hread⟩
      rw [hstep, hvalue, append_assoc]
    · exact .inr ⟨hpair, hstep.trans hnone⟩
  | @escape b decoded value source rest simple h ih =>
    obtain ⟨n, rfl⟩ := exists_fuel hfuel
    have hstep : decodeJsonLoop (n + 1) out (0x5c :: b :: source) =
        decodeJsonLoop n (out ++ [decoded]) source := by
      rw [decodeJsonLoop, if_pos rfl, simple]
    have hlength : source.length < n := by
      simp only [length_cons] at hfuel
      omega
    obtain ⟨hvalue, hread⟩ | ⟨hpair, hnone⟩ := ih hrest hlength (out ++ [decoded])
    · refine .inl ⟨?_, .escape simple hread⟩
      rw [hstep, hvalue, append_assoc]
      rfl
    · exact .inr ⟨hpair, hstep.trans hnone⟩
  | @unicode digits m value source rest hex scalar h ih =>
    obtain ⟨n, rfl⟩ := exists_fuel hfuel
    have hstep : decodeJsonLoop (n + 1) out (0x5c :: 0x75 :: (digits ++ source)) =
        decodeJsonLoop n (out ++ String.utf8EncodeChar (Char.ofNat m)) source := by
      rw [decodeJsonLoop_unicode (hex.mono hle), charFromU32,
        if_pos (isValidChar_of_scalar scalar (hexDigits_lt hex))]
      rfl
    have hlength : source.length < n := by
      simp only [length_cons, length_append] at hfuel
      omega
    obtain ⟨hvalue, hread⟩ | ⟨hpair, hnone⟩ :=
      ih hrest hlength (out ++ String.utf8EncodeChar (Char.ofNat m))
    · refine .inl ⟨?_, .unicode (hex.mono hle) scalar hread⟩
      rw [hstep, hvalue, append_assoc]
    · exact .inr ⟨hpair, hstep.trans hnone⟩
  | @pair first second m m' value source rest allowed hex high hex' low h ih =>
    obtain ⟨n, rfl⟩ := exists_fuel hfuel
    have hinvalid : ¬ m.isValidChar := by
      unfold highSurrogate at high
      simp only [Bool.and_eq_true, decide_eq_true_eq] at high
      unfold Nat.isValidChar
      omega
    refine .inr ⟨allowed, ?_⟩
    rw [decodeJsonLoop_unicode (hex.mono hle), charFromU32, if_neg hinvalid]
    rfl
  | lone allowed _ _ _ _ => cases hle.loneSurrogate allowed

theorem readsChars_body
    (h : ReadsChars g value source rest) : ∃ body, source = body ++ 0x22 :: rest := by
  induction h with
  | close => exact ⟨[], rfl⟩
  | @unescaped c _ _ _ _ _ ih =>
    obtain ⟨body, rfl⟩ := ih
    exact ⟨String.utf8EncodeChar c ++ body, by simp⟩
  | @escape b _ _ _ _ _ _ ih =>
    obtain ⟨body, rfl⟩ := ih
    exact ⟨0x5c :: b :: body, rfl⟩
  | @unicode digits _ _ _ _ _ _ _ ih | @lone digits _ _ _ _ _ _ _ _ ih =>
    obtain ⟨body, rfl⟩ := ih
    exact ⟨0x5c :: 0x75 :: (digits ++ body), by simp⟩
  | @pair first second _ _ _ _ _ _ _ _ _ _ _ ih =>
    obtain ⟨body, rfl⟩ := ih
    exact ⟨0x5c :: 0x75 :: (first ++ 0x5c :: 0x75 :: (second ++ body)), by simp⟩

theorem getLast?_of_reads
    (h : ReadsChars g value chars []) : (0x22 :: chars).getLast? = some 0x22 := by
  obtain ⟨body, rfl⟩ := readsChars_body h
  rw [← cons_append]
  exact getLast?_concat

theorem decodeJsonString_of_reads (hle : g.Le accepted) (h : ReadsChars g value chars []) :
    decodeJsonString (0x22 :: chars) = some value ∧ ReadsChars unpaired value chars [] ∨
      g.surrogatePair = true ∧ decodeJsonString (0x22 :: chars) = none := by
  rw [decodeJsonString, if_pos ⟨rfl, getLast?_of_reads h⟩]
  have hfuel : chars.length < (0x22 :: chars).length + 1 := by
    rw [length_cons]
    omega
  exact decodeJsonLoop_of_reads hle h rfl hfuel []

theorem unpaired_le : unpaired.Le accepted := by
  constructor <;> decide

theorem accepted_le : accepted.Le accepted := by
  constructor <;> exact id

/-- An escaped pair of surrogates stands for a character that is not ASCII. -/
theorem unpaired_of_ascii
    (h : ReadsChars accepted value source rest) (hascii : ∀ b ∈ value, b.toNat < 0x80) :
    ReadsChars unpaired value source rest := by
  induction h with
  | close rest => exact .close rest
  | unescaped plain _ ih => exact .unescaped plain (ih fun b hb => hascii b (mem_append_right _ hb))
  | escape simple _ ih => exact .escape simple (ih fun b hb => hascii b (.tail _ hb))
  | unicode hex scalar _ ih =>
    exact .unicode hex scalar (ih fun b hb => hascii b (mem_append_right _ hb))
  | @pair first second m n value source rest _ _ high _ low _ _ =>
    have hcode : (Char.ofNat (pairCode m n)).toNat = pairCode m n :=
      toNat_ofNat (isValidChar_pair high low)
    have hpair : 0x10000 ≤ pairCode m n := by
      unfold pairCode
      omega
    have hwide : 0x7f < (Char.ofNat (pairCode m n)).toNat := by omega
    obtain ⟨first, others, hbytes, hstarts, -⟩ := utf8EncodeChar_wide hwide
    have hfirst := hascii first (by rw [hbytes]; exact mem_cons_self)
    obtain ⟨hlow, -⟩ | ⟨hlow, -⟩ | ⟨hlow, -⟩ := hstarts <;> omega
  | lone allowed _ _ _ _ => cases allowed

/-! ## Values -/

variable {scanNumber : List UInt8 → List UInt8}

theorem scanValueSpan_number (hpass : PassesNumbers scanNumber)
    {lexeme rest : List UInt8} (h : IsNumber lexeme) (hrest : HeadNot numeralByte rest) :
    scanValueSpan scanNumber (lexeme ++ rest) = some rest := by
  have hskip : skipWs (lexeme ++ rest) = lexeme ++ rest :=
    skipWs_eq_of_reads (.done _) (Reads.number (g := accepted) h rest)
  have hscan := hpass lexeme rest h hrest
  obtain ⟨first, others, rfl, hfirst⟩ := h.cons
  rw [cons_append] at hskip hscan ⊢
  have hne := ne_of_number_head hfirst
  have hopen : (first = 0x7b || first = 0x5b) = false := by
    simp [hne 0x7b (by decide) rfl, hne 0x5b (by decide) rfl]
  have hnumber : (first = 0x2d || isDigit first) = true := by simpa using hfirst
  have hshorter : rest.length < (first :: (others ++ rest)).length := by
    rw [length_cons, length_append]
    omega
  rw [scanValueSpan, hskip]
  dsimp only
  rw [hopen, if_neg (by decide), if_neg (hne _ (by decide) rfl), if_neg (hne _ (by decide) rfl),
    if_neg (hne _ (by decide) rfl), if_neg (hne _ (by decide) rfl), if_pos hnumber, hscan,
    if_pos hshorter]

/-- A value ends for the scanner where it ends in the grammar. -/
theorem scanValueSpan_of_reads
    (hpass : PassesNumbers scanNumber) {node : LexNode} {source rest : List UInt8}
    (h : Reads g (.value node) source rest) (hrest : HeadNot numeralByte rest) :
    scanValueSpan scanNumber source = some rest := by
  have hskip : skipWs source = source := skipWs_eq_of_reads (.done source) h
  cases h with
  | name h =>
    rw [scanValueSpan, hskip]
    cases h with
    | isTrue | isFalse | isNull => rfl
  | number h => exact scanValueSpan_number hpass h hrest
  | string h =>
    rw [scanValueSpan, hskip]
    exact scanStringSpan_of_reads h
  | emptyArray ws =>
    rw [scanValueSpan, hskip]
    change scanContainer 0 false (0x5b :: _) = _
    rw [scanContainer_open (.inr rfl), scanContainer_ws ws, scanContainer_close (.inr rfl),
      if_pos rfl]
  | array ws h =>
    rw [scanValueSpan, hskip]
    change scanContainer 0 false (0x5b :: _) = _
    rw [scanContainer_open (.inr rfl), scanContainer_ws ws, passed h 0, if_pos rfl]
  | emptyObject ws =>
    rw [scanValueSpan, hskip]
    change scanContainer 0 false (0x7b :: _) = _
    rw [scanContainer_open (.inl rfl), scanContainer_ws ws, scanContainer_close (.inl rfl),
      if_pos rfl]
  | object ws h =>
    rw [scanValueSpan, hskip]
    change scanContainer 0 false (0x7b :: _) = _
    rw [scanContainer_open (.inl rfl), scanContainer_ws ws, passed h 0, if_pos rfl]

/-! ## Members -/

/-- The key of a member and the text of its value. -/
def memberText (member : LexMember) : List UInt8 × List UInt8 := (member.key, member.source)

def Ascii (key : List UInt8) : Prop := ∀ b ∈ key, b.toNat < 0x80

/-- No key occurs twice, and none was seen before. -/
def Fresh (seen : List (List UInt8)) (members : List LexMember) : Prop :=
  (members.map LexMember.key).Nodup ∧ ∀ member ∈ members, member.key ∉ seen

variable {members : List LexMember}

theorem fresh_cons {seen : List (List UInt8)} {member : LexMember} :
    Fresh seen (member :: members) ↔ member.key ∉ seen ∧ Fresh (member.key :: seen) members := by
  simp only [Fresh, map_cons, nodup_cons, mem_cons, mem_map, forall_eq_or_imp,
    not_or, not_exists, not_and]
  constructor
  · rintro ⟨⟨hkey, hnodup⟩, hseen, hall⟩
    exact ⟨hseen, hnodup, fun other hother => ⟨hkey other hother, hall other hother⟩⟩
  rintro ⟨hseen, hnodup, hall⟩
  exact ⟨⟨fun other hother => (hall other hother).1, hnodup⟩, hseen,
    fun other hother => (hall other hother).2⟩

theorem scanKey_of_reads {key source colon : List UInt8}
    (h : ReadsChars accepted key source colon) :
    scanKey (0x22 :: source) = some (key, colon) ∨
      scanKey (0x22 :: source) = none ∧ ¬ Ascii key := by
  obtain ⟨text, rfl, halone⟩ := h.alone
  have htext := halone []
  rw [append_nil] at htext
  have hskip : skipWs (0x22 :: (text ++ colon)) = 0x22 :: (text ++ colon) :=
    skipWs_of_tight (tight_cons rfl)
  have hspan : spanText (0x22 :: (text ++ colon)) colon = 0x22 :: text :=
    spanText_append (0x22 :: text) colon
  rw [scanKey, hskip, scanStringSpan_of_reads h]
  dsimp only
  rw [hspan]
  obtain ⟨hvalue, -⟩ | ⟨-, hnone⟩ := decodeJsonString_of_reads accepted_le htext
  · rw [hvalue]
    exact .inl rfl
  rw [hnone]
  refine .inr ⟨rfl, fun hascii => ?_⟩
  have hread := unpaired_of_ascii htext hascii
  obtain ⟨hvalue, -⟩ | ⟨hpair, -⟩ := decodeJsonString_of_reads unpaired_le hread
  · rw [hnone] at hvalue
    cases hvalue
  · cases hpair

section loop

variable {scanNumber : List UInt8 → List UInt8} (hpass : PassesNumbers scanNumber)

include hpass

theorem scanMemberValue_of_reads {g : JsonGrammar} {node : LexNode}
    {colon next text after : List UInt8} (beforeColon : ReadsWs colon (0x3a :: next))
    (afterColon : ReadsWs next (text ++ after)) (h : Reads g (.value node) (text ++ after) after)
    (hafter : HeadNot numeralByte after) :
    scanMemberValue scanNumber colon = some (text, after) := by
  rw [scanMemberValue, skipWs_eq beforeColon (tight_cons rfl)]
  dsimp only
  rw [if_neg (not_not.mpr rfl), skipWs_eq_of_reads afterColon h,
    scanValueSpan_of_reads hpass h hafter, Option.map_some, spanText_append]

/-- What the loop finds in what stands between the braces of an object. -/
def Found (scanNumber : List UInt8 → List UInt8) : Part → List UInt8 → Prop
  | .members members, source => ∀ (fuel : Nat) (seen : List (List UInt8)), source.length < fuel →
      membersLoop scanNumber fuel seen source = some (members.map memberText) ∧ Fresh seen members ∨
        membersLoop scanNumber fuel seen source = none ∧
          ¬ ((∀ member ∈ members, Ascii member.key) ∧ Fresh seen members)
  | _, _ => True

theorem found {part : Part} {source rest : List UInt8} (h : Reads accepted part source rest) :
    Found scanNumber part source := by
  induction h with
  | @lastMember key text node source colon next after rest hkey beforeColon afterColon h afterValue
      ih =>
    intro fuel seen hfuel
    obtain ⟨n, rfl⟩ := exists_fuel hfuel
    rw [membersLoop]
    obtain hscan | ⟨hscan, hwide⟩ := scanKey_of_reads hkey
    · rw [hscan]
      dsimp only
      by_cases hseen : key ∈ seen
      · rw [if_pos hseen]
        refine .inr ⟨rfl, fun hall => ?_⟩
        exact (fresh_cons.mp hall.2).1 hseen
      rw [if_neg hseen, scanMemberValue_of_reads hpass beforeColon afterColon h
        (headNot_numeral afterValue rfl)]
      dsimp only
      rw [skipWs_eq afterValue (tight_cons rfl)]
      exact .inl ⟨rfl, fresh_cons.mpr ⟨hseen, nodup_nil, by simp⟩⟩
    rw [hscan]
    exact .inr ⟨rfl, fun hall => hwide (hall.1 _ (.head _))⟩
  | @member key text node members source colon next after comma inner rest hkey beforeColon
      afterColon
      h afterValue afterComma compact h' ih ih' =>
      intro fuel seen hfuel
      obtain ⟨n, rfl⟩ := exists_fuel hfuel
      obtain rfl := compact rfl
      have hlt := hkey.consumes.length_lt
      have hle := beforeColon.suffix_tail.length_le
      have hle' := afterColon.suffix.length_le
      have hlt' := h.consumes.length_lt
      have hle'' := afterValue.suffix_tail.length_le
      rw [length_cons] at hfuel
      rw [membersLoop]
      obtain hscan | ⟨hscan, hwide⟩ := scanKey_of_reads hkey
      · rw [hscan]
        dsimp only
        by_cases hseen : key ∈ seen
        · rw [if_pos hseen]
          refine .inr ⟨rfl, fun hall => ?_⟩
          exact (fresh_cons.mp hall.2).1 hseen
        rw [if_neg hseen, scanMemberValue_of_reads hpass beforeColon afterColon h
          (headNot_numeral afterValue rfl)]
        dsimp only
        rw [skipWs_eq afterValue (tight_cons rfl)]
        dsimp only
        rw [if_pos rfl]
        obtain ⟨hloop, hfresh⟩ | ⟨hloop, hnot⟩ := ih' n (key :: seen) (by omega)
        · rw [hloop]
          exact .inl ⟨rfl, fresh_cons.mpr ⟨hseen, hfresh⟩⟩
        rw [hloop]
        refine .inr ⟨rfl, fun hall => hnot ⟨?_, (fresh_cons.mp hall.2).2⟩⟩
        exact fun member hmember => hall.1 member (.tail _ hmember)
      rw [hscan]
      exact .inr ⟨rfl, fun hall => hwide (hall.1 _ (.head _))⟩
  | _ => trivial

end loop

/-- The members of the object that a text is read as. -/
def ObjectText (source : List UInt8) (members : List LexMember) : Prop :=
  ∃ inner body, ReadsWs source (0x7b :: inner) ∧ ReadsWs inner body ∧
    (members = [] ∧ body = [0x7d] ∨ Reads accepted (.members members) body [])

/-- The scanners return the members of an object, or nothing; and they return them where its
keys are ASCII and differ. -/
theorem topLevelMembers_of_object (hpass : PassesNumbers scanNumber) {source : List UInt8}
    (h : ObjectText source members) :
    topLevelMembers scanNumber source = some (members.map memberText) ∧
        (members.map LexMember.key).Nodup ∨
      topLevelMembers scanNumber source = none ∧
        ¬ ((∀ member ∈ members, Ascii member.key) ∧ (members.map LexMember.key).Nodup) := by
  obtain ⟨inner, body, hws, hws', hbody⟩ := h
  rw [topLevelMembers, skipWs_eq hws (tight_cons rfl)]
  dsimp only
  rw [if_neg (not_not.mpr rfl)]
  obtain ⟨rfl, rfl⟩ | hmembers := hbody
  · rw [skipWs_eq hws' (tight_cons rfl)]
    exact .inl ⟨rfl, nodup_nil⟩
  obtain ⟨first, others, hfirst, -, -, hclose⟩ := reads_head hmembers
  have hle := hws'.suffix.length_le
  rw [skipWs_eq_of_reads hws' hmembers, if_neg (by rw [hfirst]; simpa using hclose)]
  obtain ⟨hloop, hfresh⟩ | ⟨hloop, hnot⟩ := found hpass hmembers (inner.length + 1) [] (by omega)
  · exact .inl ⟨hloop, hfresh.1⟩
  · exact .inr ⟨hloop, fun hall => hnot ⟨hall.1, hall.2, by simp⟩⟩

end Skiff.WebSocket
