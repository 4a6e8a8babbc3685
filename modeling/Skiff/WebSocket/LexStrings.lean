import Mathlib.Algebra.Group.Nat.Defs
import Skiff.Data.Mut
import Skiff.Data.Utf8
import Skiff.WebSocket.LexNode

/-!
# Tokens of the lexical parser

The parser reads the tokens of one grammar, `accepted`: no whitespace after a comma inside
an object or after the text, a plus sign for the first digit of an escape, and no lone
surrogates. Each token function is compared with the grammar in both directions.
-/

namespace Skiff.WebSocket

open Json List Option

/-- The grammar that the parser reads. -/
def accepted : JsonGrammar := ⟨false, false, true, false, true⟩

/-! ## Whitespace -/

theorem readsWs_skipWs (source : List UInt8) : ReadsWs source (skipWs source) := by
  induction source with
  | nil => exact .done _
  | cons b rest ih =>
    rw [skipWs, dropWhile_cons]
    split
    case isTrue hws => exact .more hws ih
    · exact .done _

/-- The source does not start with whitespace. -/
def Tight (source : List UInt8) : Prop := ∀ b rest, source = b :: rest → isWs b = false

theorem tight_cons {b : UInt8} {rest : List UInt8} (h : isWs b = false) : Tight (b :: rest) := by
  intro b' rest' heq
  cases heq
  exact h

theorem skipWs_of_tight {source : List UInt8} (h : Tight source) : skipWs source = source := by
  cases source with
  | nil => rfl
  | cons b rest => rw [skipWs, dropWhile_cons, h b rest rfl]; rfl

variable {source rest : List UInt8} {piece : Option (List UInt8)}

theorem skipWs_eq (h : ReadsWs source rest) (htight : Tight rest) : skipWs source = rest := by
  induction h with
  | done => exact skipWs_of_tight htight
  | more hws _ ih => rw [skipWs, dropWhile_cons, if_pos hws]; exact ih htight

theorem readsWs_trans {source middle rest : List UInt8} (h : ReadsWs source middle)
    (h' : ReadsWs middle rest) : ReadsWs source rest := by
  induction h with
  | done => exact h'
  | more hws _ ih => exact .more hws (ih h')

/-! ## Escapes -/

variable {n : Nat}

theorem hexDigit?_lt {b : UInt8} (h : hexDigit? b = some n) : b.toNat < 0x80 ∧ n < 16 := by
  unfold hexDigit? at h
  split at h
  case isTrue hb =>
    simp [UInt8.le_iff_toNat_le] at hb
    cases h
    constructor <;> omega
  split at h
  case isTrue hb =>
    simp [UInt8.le_iff_toNat_le] at hb
    cases h
    constructor <;> omega
  split at h
  case isTrue hb =>
    simp [UInt8.le_iff_toNat_le] at hb
    cases h
    constructor <;> omega
  · cases h

variable {digits : List UInt8}

theorem hexValue_digits (h : hexValue digits = some n) :
    ∀ b ∈ digits, ∃ value, hexDigit? b = some value := by
  have hfold : ∀ (digits : List UInt8) (start n : Nat),
      digits.foldlM (fun value digit => (hexDigit? digit).map (16 * value + ·)) start = some n →
      ∀ b ∈ digits, ∃ value, hexDigit? b = some value := by
    intro digits
    induction digits with
    | nil => intro _ _ _ b hb; cases hb
    | cons d rest ih =>
      intro start n h b hb
      rw [foldlM_cons, bind_eq_bind, bind_eq_some_iff] at h
      obtain ⟨next, hnext, hrest⟩ := h
      obtain ⟨value, hvalue, -⟩ := map_eq_some_iff.mp hnext
      obtain rfl | hb := mem_cons.mp hb
      · exact ⟨value, hvalue⟩
      · exact ih next n hrest b hb
  exact hfold digits 0 n h

theorem hexValue_ascii (h : hexValue digits = some n) : ∀ b ∈ digits, b.toNat < 0x80 := by
  intro b hb
  obtain ⟨value, hvalue⟩ := hexValue_digits h b hb
  exact (hexDigit?_lt hvalue).1

theorem isUtf8_ascii {bytes : List UInt8} (h : ∀ b ∈ bytes, b.toNat < 0x80) :
    isUtf8 bytes = true := by
  apply validateUTF8_iff.mpr
  refine ⟨bytes.map fun b => Char.ofNat b.toNat, ?_⟩
  rw [flatMap_map]
  induction bytes with
  | nil => rfl
  | cons b rest ih =>
    rw [flatMap_cons, ← ih fun b' hb' => h b' (mem_cons_of_mem _ hb')]
    have hb := h b (.head _)
    have hvalid : b.toNat.isValidChar := by
      unfold Nat.isValidChar
      omega
    have htoNat : (Char.ofNat b.toNat).toNat = b.toNat := toNat_ofNat hvalid
    rw [utf8EncodeChar_ascii (by omega), htoNat, UInt8.ofNat_toNat]
    rfl

theorem fromStrRadix16_iff (h : digits.length = 4) :
    fromStrRadix16 digits = some n ↔ hexValue digits = some n ∨
      ∃ others, digits = 0x2b :: others ∧ hexValue others = some n := by
  cases digits with
  | nil => cases h
  | cons first rest =>
    rw [fromStrRadix16]
    by_cases hsign : first = 0x2b
    · rw [if_pos hsign, hsign, if_neg (by rintro rfl; cases h)]
      constructor
      · intro hvalue
        exact .inr ⟨rest, rfl, hvalue⟩
      rintro (hvalue | ⟨others, heq, hvalue⟩)
      · exact absurd hvalue (by simp [hexValue, hexDigit?])
      rw [(cons.inj heq).2]
      exact hvalue
    rw [if_neg hsign]
    constructor
    · exact .inl
    rintro (hvalue | ⟨others, heq, -⟩)
    · exact hvalue
    · exact absurd (cons.inj heq).1 hsign

theorem lexHex_eq_ok :
    lexHex source = .ok (n, rest) ↔
      ∃ digits, source = digits ++ rest ∧ HexDigits accepted digits n := by
  unfold lexHex
  constructor
  · intro h
    dsimp only at h
    split at h
    case isTrue hfour =>
      rw [Bool.and_eq_true, decide_eq_true_eq] at hfour
      split at h
      case h_1 value hvalue =>
        cases h
        refine ⟨source.take 4, (take_append_drop 4 source).symm, hfour.1, ?_⟩
        obtain hhex | hsigned := (fromStrRadix16_iff hfour.1).mp hvalue
        · exact .inl hhex
        · exact .inr ⟨rfl, hsigned⟩
      · cases h
    · cases h
  rintro ⟨digits, rfl, hfour, hvalue⟩
  have htake : (digits ++ rest).take 4 = digits := by rw [← hfour, take_left]
  have hdrop : (digits ++ rest).drop 4 = rest := by rw [← hfour, drop_left]
  have hradix : fromStrRadix16 digits = some n := by
    rw [fromStrRadix16_iff hfour]
    obtain hhex | ⟨-, hsigned⟩ := hvalue
    · exact .inl hhex
    · exact .inr hsigned
  have hutf8 : isUtf8 digits = true := by
    apply isUtf8_ascii
    obtain hhex | ⟨-, others, rfl, hhex⟩ := hvalue
    · exact hexValue_ascii hhex
    intro b hb
    obtain rfl | hb := mem_cons.mp hb
    · decide
    · exact hexValue_ascii hhex b hb
  rw [htake, hdrop]
  simp [hfour, hutf8, hradix]

/-! ## Strings -/

theorem isValidChar_of_scalar (h : highSurrogate n = false ∧ lowSurrogate n = false)
    (hlt : n < 0x10000) : n.isValidChar := by
  unfold highSurrogate lowSurrogate at h
  simp at h
  unfold Nat.isValidChar
  omega

theorem isValidChar_pair {m n : Nat} (h : highSurrogate m = true) (h' : lowSurrogate n = true) :
    (pairCode m n).isValidChar := by
  unfold highSurrogate at h
  unfold lowSurrogate at h'
  simp at h h'
  unfold Nat.isValidChar pairCode
  omega

theorem hexValue_lt (h : hexValue digits = some n) : n < 16 ^ digits.length := by
  have hfold : ∀ (digits : List UInt8) (start bound n : Nat), start < bound →
      digits.foldlM (fun value digit => (hexDigit? digit).map (16 * value + ·)) start = some n →
      n < bound * 16 ^ digits.length := by
    intro digits
    induction digits with
    | nil =>
      intro start bound n hlt h
      cases h
      simpa using hlt
    | cons d rest ih =>
      intro start bound n hlt h
      rw [foldlM_cons, bind_eq_bind, bind_eq_some_iff] at h
      obtain ⟨next, hnext, hrest⟩ := h
      obtain ⟨value, hvalue, rfl⟩ := map_eq_some_iff.mp hnext
      have hdigit := (hexDigit?_lt hvalue).2
      have hstep := ih _ (bound * 16) n (by omega) hrest
      rw [length_cons, pow_succ', ← Nat.mul_assoc]
      exact hstep
  have hbound := hfold digits 0 1 n (by omega) h
  rwa [Nat.one_mul] at hbound

theorem hexDigits_lt {g : JsonGrammar} (h : HexDigits g digits n) : n < 0x10000 := by
  obtain ⟨hfour, hvalue | ⟨-, others, rfl, hvalue⟩⟩ := h
  · have hlt := hexValue_lt hvalue
    rw [hfour] at hlt
    omega
  have hlt := hexValue_lt hvalue
  have hthree : others.length = 3 := by simpa using hfour
  rw [hthree] at hlt
  omega

/-- A `\u` escape reads one piece of a string. -/
theorem lexUnicodeEscape_sound {source next : List UInt8}
    (h : lexUnicodeEscape source = .ok (piece, next)) : ∃ bytes, piece = some bytes ∧
      next.length < source.length ∧ ∀ {value rest : List UInt8},
        ReadsChars accepted value next rest →
        ReadsChars accepted (bytes ++ value) (0x5c :: 0x75 :: source) rest := by
  unfold lexUnicodeEscape at h
  obtain ⟨⟨m, middle⟩, hfirst, hrest⟩ := bind_eq_ok.mp h
  clear h
  obtain ⟨first, rfl, hm⟩ := lexHex_eq_ok.mp hfirst
  dsimp only at hrest
  have hlength := hm.1
  split at hrest
  case isTrue hhigh =>
    split at hrest
    · cases hrest
    case isFalse hescape =>
      obtain ⟨⟨n, after⟩, hsecond, hlast⟩ := bind_eq_ok.mp hrest
      obtain ⟨second, hmiddle, hn⟩ := lexHex_eq_ok.mp hsecond
      have hsource : middle = 0x5c :: 0x75 :: (second ++ after) := by
        rw [← take_append_drop 2 middle, not_not.mp hescape, hmiddle]
        rfl
      dsimp only at hlast
      split at hlast
      · cases hlast
      case isFalse hlow =>
        have hlow : lowSurrogate n = true := by simpa using hlow
        rw [pushChar, charFromU32, if_pos (isValidChar_pair hhigh hlow)] at hlast
        cases hlast
        rw [hsource]
        refine ⟨_, rfl, ?_, fun hchars => .pair rfl hm hhigh hn hlow hchars⟩
        simp only [length_append, length_cons]
        omega
  case isFalse hhigh =>
    split at hrest
    · cases hrest
    case isFalse hlow =>
      have hscalar : highSurrogate m = false ∧ lowSurrogate m = false :=
        ⟨Bool.eq_false_iff.mpr hhigh, Bool.eq_false_iff.mpr hlow⟩
      rw [pushChar, charFromU32, if_pos (isValidChar_of_scalar hscalar (hexDigits_lt hm))] at hrest
      cases hrest
      refine ⟨_, rfl, ?_, fun hchars => .unicode hm hscalar hchars⟩
      rw [length_append]
      omega

theorem utf8SequenceLen_pos {byte : UInt8} {len : Nat} (h : utf8SequenceLen byte = some len) :
    0 < len := by
  unfold utf8SequenceLen at h
  split at h
  · cases h; decide
  split at h
  · cases h; decide
  split at h
  · cases h; decide
  split at h
  · cases h; decide
  · cases h

theorem utf8SequenceLen_of_starts {first : UInt8} {length : Nat} (h : Starts first length) :
    utf8SequenceLen first = some length := by
  unfold utf8SequenceLen
  simp only [UInt8.le_iff_toNat_le, UInt8.reduceToNat, Bool.and_eq_true, decide_eq_true_eq]
  obtain ⟨hlow, hhigh, rfl⟩ | ⟨hlow, hhigh, rfl⟩ | ⟨hlow, hhigh, rfl⟩ := h
  · rw [if_neg (show ¬ first.toNat ≤ 0x7f by omega), if_pos ⟨hlow, hhigh⟩]
  · rw [if_neg (show ¬ first.toNat ≤ 0x7f by omega),
      if_neg (show ¬ (0xc2 ≤ first.toNat ∧ first.toNat ≤ 0xdf) by omega), if_pos ⟨hlow, hhigh⟩]
  rw [if_neg (show ¬ first.toNat ≤ 0x7f by omega),
    if_neg (show ¬ (0xc2 ≤ first.toNat ∧ first.toNat ≤ 0xdf) by omega),
    if_neg (show ¬ (0xe0 ≤ first.toNat ∧ first.toNat ≤ 0xef) by omega), if_pos ⟨hlow, hhigh⟩]

/-- The bytes of a character as a round of the loop takes them. -/
theorem utf8EncodeChar_takes (c : Char) : ∃ first others,
    String.utf8EncodeChar c = first :: others ∧
    utf8SequenceLen first = some (others.length + 1) ∧
    (c.toNat ≤ 0x7f ∧ first.toNat = c.toNat ∨ 0x7f < c.toNat ∧ 0x80 ≤ first.toNat) := by
  by_cases hascii : c.toNat ≤ 0x7f
  · have hfirst : (UInt8.ofNat c.toNat).toNat = c.toNat := by
      rw [UInt8.toNat_ofNat']
      omega
    refine ⟨_, [], utf8EncodeChar_ascii hascii, ?_, .inl ⟨hascii, hfirst⟩⟩
    rw [utf8SequenceLen, if_pos]
    · rfl
    rw [UInt8.le_iff_toNat_le, hfirst]
    exact hascii
  obtain ⟨first, others, hbytes, hstarts, -⟩ := utf8EncodeChar_wide (Nat.not_le.mp hascii)
  refine ⟨first, others, hbytes, utf8SequenceLen_of_starts hstarts, .inr ⟨Nat.not_le.mp hascii, ?_⟩⟩
  obtain ⟨hlow, -⟩ | ⟨hlow, -⟩ | ⟨hlow, -⟩ := hstarts <;> omega

/-- Valid UTF-8 of the length that its first byte tells is one character. -/
theorem slice_is_char {byte : UInt8} {others : List UInt8}
    (hlen : utf8SequenceLen byte = some (others.length + 1))
    (hvalid : isUtf8 (byte :: others) = true) :
    ∃ c, byte :: others = String.utf8EncodeChar c := by
  obtain ⟨cs, hcs⟩ := validateUTF8_iff.mp hvalid
  cases cs with
  | nil => cases hcs
  | cons c cs =>
    obtain ⟨first, rest, hbytes, hfirst, -⟩ := utf8EncodeChar_takes c
    rw [flatMap_cons, hbytes] at hcs
    obtain ⟨rfl, hothers⟩ := cons.inj hcs
    change others = rest ++ cs.flatMap String.utf8EncodeChar at hothers
    rw [hfirst] at hlen
    have hsame : rest.length = others.length := by simpa using hlen
    rw [hothers, length_append] at hsame
    have hnil : cs.flatMap String.utf8EncodeChar = [] := length_eq_zero_iff.mp (by omega)
    exact ⟨c, by rw [hbytes, hothers, hnil, append_nil]⟩

theorem unescaped_of_first {c : Char} {first : UInt8} {others : List UInt8}
    (hbytes : first :: others = String.utf8EncodeChar c) (hquote : first ≠ 0x22)
    (hbackslash : first ≠ 0x5c) (hcontrol : ¬ first ≤ 0x1f) : Unescaped c := by
  obtain ⟨first', others', hbytes', -, hrange⟩ := utf8EncodeChar_takes c
  obtain ⟨rfl, -⟩ := cons.inj (hbytes.trans hbytes')
  rw [UInt8.le_iff_toNat_le] at hcontrol
  have hcontrol : 0x1f < first.toNat := Nat.not_le.mp hcontrol
  obtain ⟨hascii, heq⟩ | ⟨hwide, -⟩ := hrange
  · refine ⟨by omega, ?_, ?_⟩
    · rintro rfl
      exact hquote (UInt8.toNat_inj.mp heq)
    rintro rfl
    exact hbackslash (UInt8.toNat_inj.mp heq)
  refine ⟨by omega, ?_, ?_⟩
  · rintro rfl
    exact absurd hwide (by decide)
  rintro rfl
  exact absurd hwide (by decide)

/-- One round of the loop over a string reads its end or one piece of it. -/
theorem lexStringStep_sound {source next : List UInt8}
    (h : lexStringStep source = .ok (piece, next)) :
    next.length < source.length ∧
      (piece = none ∧ source = 0x22 :: next ∨ ∃ bytes, piece = some bytes ∧
        ∀ {value rest : List UInt8}, ReadsChars accepted value next rest →
          ReadsChars accepted (bytes ++ value) source rest) := by
  unfold lexStringStep at h
  split at h
  · cases h
  case h_2 byte rest =>
    split at h
    case isTrue hquote =>
      cases h
      exact ⟨Nat.lt_succ_self _, .inl ⟨rfl, hquote ▸ rfl⟩⟩
    case isFalse hquote =>
    split at h
    case isTrue hbackslash =>
      subst hbackslash
      split at h
      · cases h
      case h_2 escaped rest =>
        split at h
        case h_1 decoded hdecoded =>
          cases h
          refine ⟨?_, .inr ⟨_, rfl, fun hchars => .escape hdecoded hchars⟩⟩
          simp only [length_cons]
          omega
        · split at h
          case isTrue hu =>
            subst hu
            obtain ⟨bytes, rfl, hlt, hreads⟩ := lexUnicodeEscape_sound h
            refine ⟨?_, .inr ⟨bytes, rfl, hreads⟩⟩
            simp only [length_cons]
            omega
          · cases h
    case isFalse hbackslash =>
      split at h
      · cases h
      case isFalse hcontrol =>
        split at h
        · cases h
        case h_2 len hlen =>
          dsimp only at h
          split at h
          case isTrue hslice =>
            rw [Bool.and_eq_true, decide_eq_true_eq] at hslice
            cases h
            have hpos := utf8SequenceLen_pos hlen
            obtain ⟨n, rfl⟩ : ∃ n, len = n + 1 := ⟨len - 1, by omega⟩
            rw [take_succ_cons] at hslice ⊢
            have htake : (rest.take n).length = n := by simpa using hslice.1
            obtain ⟨c, hc⟩ := slice_is_char (htake.symm ▸ hlen) hslice.2
            have hplain := unescaped_of_first hc hquote hbackslash hcontrol
            have hsplit : byte :: rest = String.utf8EncodeChar c ++
              (byte :: rest).drop (n + 1) := by
              rw [← hc, drop_succ_cons, cons_append, take_append_drop]
            refine ⟨?_, .inr ⟨_, rfl, ?_⟩⟩
            · rw [length_drop, length_cons]
              omega
            intro value rest' hchars
            rw [hc, hsplit]
            exact .unescaped hplain hchars
          · cases h

theorem lexed_eq_ok {α : Type} {result : Except LexError α} {a : α} :
    lexed result = .ok a ↔ result = .ok a := by
  cases result <;> simp [lexed, Except.mapError]

theorem lexed_eq_error {α : Type} {result : Except LexError α} {error : Option LexError} :
    lexed result = .error error ↔ ∃ e, result = .error e ∧ error = some e := by
  cases result <;> simp [lexed, Except.mapError, eq_comm]

theorem lexStringLoop_sound {fuel : Nat} {value source result rest : List UInt8}
    (h : lexStringLoop fuel value source = .ok (result, rest)) :
    ∃ more, result = value ++ more ∧ ReadsChars accepted more source rest := by
  induction fuel generalizing value source with
  | zero => cases h
  | succ fuel ih =>
    obtain ⟨⟨piece, next⟩, hstep, hnext⟩ := bind_eq_ok.mp h
    obtain ⟨-, ⟨rfl, rfl⟩ | ⟨bytes, rfl, hreads⟩⟩ := lexStringStep_sound (lexed_eq_ok.mp hstep)
    · cases hnext
      exact ⟨[], (append_nil _).symm, .close _⟩
    dsimp only at hnext
    split at hnext
    · cases hnext
    obtain ⟨more, rfl, hmore⟩ := ih hnext
    exact ⟨bytes ++ more, append_assoc _ _ _, hreads hmore⟩

theorem parseLexString_sound {source value rest : List UInt8} {budget after : LexBudget}
    (h : parseLexString source budget = .ok (value, rest, after)) :
    ∃ chars, source = 0x22 :: chars ∧ ReadsChars accepted value chars rest := by
  unfold parseLexString at h
  split at h
  · cases h
  case h_2 byte chars =>
    split at h
    · cases h
    case isFalse hquote =>
      obtain ⟨next, -, hloop⟩ := bind_eq_ok.mp h
      obtain ⟨⟨result, rest'⟩, hresult, hpure⟩ := bind_eq_ok.mp hloop
      obtain ⟨rfl, heq⟩ := Prod.mk.inj (Except.ok.inj hpure)
      cases heq
      obtain ⟨more, rfl, hmore⟩ := lexStringLoop_sound hresult
      exact ⟨chars, not_not.mp hquote ▸ rfl, hmore⟩

/-! ## Strings that the parser reads -/

theorem lexUnicodeEscape_scalar (hex : HexDigits accepted digits n)
    (hscalar : highSurrogate n = false ∧ lowSurrogate n = false) (source : List UInt8) :
    lexUnicodeEscape (digits ++ source) =
      .ok (some (String.utf8EncodeChar (Char.ofNat n)), source) := by
  have hfirst : lexHex (digits ++ source) = .ok (n, source) := lexHex_eq_ok.mpr ⟨digits, rfl, hex⟩
  rw [lexUnicodeEscape, hfirst]
  change (if highSurrogate n = true then _ else if lowSurrogate n = true then _ else _) = _
  rw [hscalar.1, hscalar.2, pushChar, charFromU32,
    if_pos (isValidChar_of_scalar hscalar (hexDigits_lt hex))]
  rfl

theorem lexUnicodeEscape_pair {first second : List UInt8} {m n : Nat}
    (hex : HexDigits accepted first m) (hhigh : highSurrogate m = true)
    (hex' : HexDigits accepted second n) (hlow : lowSurrogate n = true) (source : List UInt8) :
    lexUnicodeEscape (first ++ 0x5c :: 0x75 :: (second ++ source)) =
      .ok (some (String.utf8EncodeChar (Char.ofNat (pairCode m n))), source) := by
  have hfirst : lexHex (first ++ 0x5c :: 0x75 :: (second ++ source)) =
      .ok (m, 0x5c :: 0x75 :: (second ++ source)) := lexHex_eq_ok.mpr ⟨first, rfl, hex⟩
  have hsecond : lexHex (second ++ source) = .ok (n, source) := lexHex_eq_ok.mpr ⟨second, rfl, hex'⟩
  rw [lexUnicodeEscape, hfirst]
  change (if highSurrogate m = true then
    (lexHex (second ++ source) >>= fun result => _) else _) = _
  rw [if_pos hhigh, hsecond]
  change (if (!lowSurrogate n) = true then _ else _) = _
  rw [hlow, pushChar, charFromU32, if_pos (isValidChar_pair hhigh hlow)]
  rfl

theorem lexStringStep_unescaped {c : Char} (h : Unescaped c) (source : List UInt8) :
    lexStringStep (String.utf8EncodeChar c ++ source) =
      .ok (some (String.utf8EncodeChar c), source) := by
  have hvalid : isUtf8 (String.utf8EncodeChar c) = true :=
    validateUTF8_iff.mpr ⟨[c], (flatMap_singleton _ _).symm⟩
  obtain ⟨first, others, hbytes, hlen, hrange⟩ := utf8EncodeChar_takes c
  have hplain : first ≠ 0x22 ∧ first ≠ 0x5c ∧ 0x1f < first.toNat := by
    obtain ⟨hcontrol, hquote, hbackslash⟩ := h
    obtain ⟨hascii, heq⟩ | ⟨hwide, hfirst⟩ := hrange
    · refine ⟨?_, ?_, by omega⟩
      · rintro rfl
        exact hquote (Char.toNat_inj.mp heq.symm)
      rintro rfl
      exact hbackslash (Char.toNat_inj.mp heq.symm)
    refine ⟨?_, ?_, by omega⟩
    · rintro rfl
      exact absurd hfirst (by decide)
    rintro rfl
    exact absurd hfirst (by decide)
  have hcontrol : ¬ first ≤ 0x1f := by
    rw [UInt8.le_iff_toNat_le]
    exact Nat.not_le.mpr hplain.2.2
  rw [hbytes] at hvalid ⊢
  rw [cons_append, lexStringStep.eq_def]
  dsimp only
  rw [if_neg hplain.1, if_neg hplain.2.1, if_neg hcontrol, hlen]
  dsimp only
  rw [take_succ_cons, take_left, drop_succ_cons, drop_left, hvalid]
  simp

/-- A computation that has a result with a property, or stops at the budget. -/
def Finishes {α : Type} (result : Lexed α) (p : α → Prop) : Prop :=
  (∃ a, result = .ok a ∧ p a) ∨ result = .error (some .budget)

namespace Finishes

theorem ok {α : Type} {a : α} {p : α → Prop} (h : p a) : Finishes (.ok a) p := .inl ⟨a, rfl, h⟩

theorem bind {α β : Type} {result : Lexed α} {f : α → Lexed β} {p : α → Prop} {q : β → Prop}
    (h : Finishes result p) (h' : ∀ a, p a → Finishes (f a) q) : Finishes (result >>= f) q := by
  obtain ⟨a, rfl, ha⟩ | rfl := h
  · exact h' a ha
  · exact .inr rfl

theorem node (budget : LexBudget) : Finishes (lexed budget.node) fun _ => True := by
  unfold LexBudget.node
  split
  · exact .inr rfl
  · exact .ok trivial

theorem enter (budget : LexBudget) : Finishes (lexed budget.enter) fun _ => True := by
  unfold LexBudget.enter
  split
  · exact .inr rfl
  split
  · exact .inr rfl
  · exact .ok trivial

end Finishes

theorem lexStringLoop_round {fuel : Nat} {bytes source next start : List UInt8}
    {p : List UInt8 × List UInt8 → Prop} (hstep : lexStringStep source = .ok (some bytes, next))
    (hrest : Finishes (lexStringLoop fuel (start ++ bytes) next) p) :
    Finishes (lexStringLoop (fuel + 1) start source) p := by
  rw [lexStringLoop, hstep]
  change Finishes (if _ then _ else lexStringLoop fuel (start ++ bytes) next) p
  split
  · exact .inr rfl
  · exact hrest

/-- What the grammar reads as a string, the loop reads too, unless it is too long. -/
theorem lexStringLoop_complete {value source rest : List UInt8}
    (h : ReadsChars accepted value source rest) {fuel : Nat} (hfuel : source.length < fuel)
    (start : List UInt8) :
    Finishes (lexStringLoop fuel start source) (· = (start ++ value, rest)) := by
  induction h generalizing fuel start with
  | close rest =>
    obtain ⟨n, rfl⟩ := exists_fuel hfuel
    rw [append_nil]
    exact .ok rfl
  | @unescaped c value source rest hplain _ ih =>
    obtain ⟨n, rfl⟩ := exists_fuel hfuel
    refine lexStringLoop_round (lexStringStep_unescaped hplain source) ?_
    rw [← append_assoc]
    apply ih
    obtain ⟨first, others, hbytes, -, -⟩ := utf8EncodeChar_takes c
    rw [hbytes, length_append, length_cons] at hfuel
    omega
  | @escape b decoded value source rest hsimple _ ih =>
    obtain ⟨n, rfl⟩ := exists_fuel hfuel
    have hstep : lexStringStep (0x5c :: b :: source) = .ok (some [decoded], source) := by
      rw [lexStringStep.eq_def]
      dsimp only
      rw [if_neg (by decide), if_pos rfl, hsimple]
    refine lexStringLoop_round hstep ?_
    rw [append_cons start decoded value]
    apply ih
    simp only [length_cons] at hfuel
    omega
  | @unicode digits m value source rest hex hscalar _ ih =>
    obtain ⟨n, rfl⟩ := exists_fuel hfuel
    have hstep : lexStringStep (0x5c :: 0x75 :: (digits ++ source)) =
        .ok (some (String.utf8EncodeChar (Char.ofNat m)), source) :=
      lexUnicodeEscape_scalar hex hscalar source
    refine lexStringLoop_round hstep ?_
    rw [← append_assoc]
    apply ih
    simp only [length_cons, length_append] at hfuel
    omega
  | @pair first second m m' value source rest _ hex hhigh hex' hlow _ ih =>
    obtain ⟨n, rfl⟩ := exists_fuel hfuel
    have hstep : lexStringStep (0x5c :: 0x75 :: (first ++ 0x5c :: 0x75 :: (second ++ source))) =
        .ok (some (String.utf8EncodeChar (Char.ofNat (pairCode m m'))), source) :=
      lexUnicodeEscape_pair hex hhigh hex' hlow source
    refine lexStringLoop_round hstep ?_
    rw [← append_assoc]
    apply ih
    simp only [length_cons, length_append] at hfuel
    omega
  | lone hallowed _ _ _ _ => cases hallowed

theorem parseLexString_complete {value chars rest : List UInt8}
    (h : ReadsChars accepted value chars rest) (budget : LexBudget) :
    Finishes (parseLexString (0x22 :: chars) budget) fun result =>
      result.1 = value ∧ result.2.1 = rest := by
  refine (Finishes.node budget).bind fun next _ => ?_
  refine (lexStringLoop_complete h (Nat.lt_succ_self _) []).bind ?_
  rintro _ rfl
  exact .ok ⟨rfl, rfl⟩

end Skiff.WebSocket
