import Skiff.WebSocket.FrameSyntax
import Skiff.WebSocket.MemberSpans

/-!
# The member scanners and the grammar

What the grammar reads, the scanners pass over: a string, an array, an object and a number
each end for them where they end in the grammar. A reading does not depend on what follows
it, so that the text of a member can be read by itself.
-/

namespace Skiff.Json

open WebSocket List

variable {g : JsonGrammar}

/-! ## Readings by themselves -/

variable {source rest : List UInt8}

theorem ReadsWs.alone (h : ReadsWs source rest) :
    ∃ text, source = text ++ rest ∧ ∀ rest', ReadsWs (text ++ rest') rest' := by
  induction h with
  | done => exact ⟨[], rfl, fun rest' => .done rest'⟩
  | @more b _ _ ws _ ih =>
    obtain ⟨text, rfl, hall⟩ := ih
    exact ⟨b :: text, rfl, fun rest' => .more ws (hall rest')⟩

theorem ReadsWs.alone_cons {b : UInt8} (h : ReadsWs source (b :: rest)) :
    ∃ text, source = text ++ rest ∧ ∀ rest', ReadsWs (text ++ rest') (b :: rest') := by
  obtain ⟨text, rfl, hall⟩ := h.alone
  refine ⟨text ++ [b], by simp, fun rest' => ?_⟩
  rw [append_assoc]
  exact hall (b :: rest')

theorem ReadsChars.alone {value source rest : List UInt8} (h : ReadsChars g value source rest) :
    ∃ text, source = text ++ rest ∧ ∀ rest', ReadsChars g value (text ++ rest') rest' := by
  induction h with
  | close => exact ⟨[0x22], rfl, fun rest' => .close rest'⟩
  | @unescaped c _ _ _ plain _ ih =>
    obtain ⟨text, rfl, hall⟩ := ih
    refine ⟨String.utf8EncodeChar c ++ text, (append_assoc _ _ _).symm, fun rest' => ?_⟩
    rw [append_assoc]
    exact .unescaped plain (hall rest')
  | @escape b _ _ _ _ simple _ ih =>
    obtain ⟨text, rfl, hall⟩ := ih
    exact ⟨0x5c :: b :: text, rfl, fun rest' => .escape simple (hall rest')⟩
  | @unicode digits _ _ _ _ hex scalar _ ih =>
    obtain ⟨text, rfl, hall⟩ := ih
    refine ⟨0x5c :: 0x75 :: (digits ++ text), by simp, fun rest' => ?_⟩
    simp only [cons_append, append_assoc]
    exact .unicode hex scalar (hall rest')
  | @pair first second _ _ _ _ _ allowed hex high hex' low _ ih =>
    obtain ⟨text, rfl, hall⟩ := ih
    refine ⟨0x5c :: 0x75 :: (first ++ 0x5c :: 0x75 :: (second ++ text)), by simp, fun rest' => ?_⟩
    simp only [cons_append, append_assoc]
    exact .pair allowed hex high hex' low (hall rest')
  | @lone digits _ _ _ _ allowed hex surrogate _ ih =>
    obtain ⟨text, rfl, hall⟩ := ih
    refine ⟨0x5c :: 0x75 :: (digits ++ text), by simp, fun rest' => ?_⟩
    simp only [cons_append, append_assoc]
    exact .lone allowed hex surrogate (hall rest')

theorem Reads.alone {part : Part} (h : Reads g part source rest) :
    ∃ text, source = text ++ rest ∧ ∀ rest', Reads g part (text ++ rest') rest' := by
  induction h with
  | name h rest => exact ⟨_, rfl, fun rest' => .name h rest'⟩
  | number h rest => exact ⟨_, rfl, fun rest' => .number h rest'⟩
  | string h =>
    obtain ⟨text, rfl, hall⟩ := h.alone
    exact ⟨0x22 :: text, rfl, fun rest' => .string (hall rest')⟩
  | emptyArray ws =>
    obtain ⟨text, rfl, hall⟩ := ws.alone_cons
    exact ⟨0x5b :: text, rfl, fun rest' => .emptyArray (hall rest')⟩
  | array ws _ ih =>
    obtain ⟨text, rfl, hall⟩ := ih
    obtain ⟨text', rfl, hall'⟩ := ws.alone
    refine ⟨0x5b :: (text' ++ text), by simp, fun rest' => ?_⟩
    simp only [cons_append, append_assoc]
    exact .array (hall' _) (hall rest')
  | emptyObject ws =>
    obtain ⟨text, rfl, hall⟩ := ws.alone_cons
    exact ⟨0x7b :: text, rfl, fun rest' => .emptyObject (hall rest')⟩
  | object ws _ ih =>
    obtain ⟨text, rfl, hall⟩ := ih
    obtain ⟨text', rfl, hall'⟩ := ws.alone
    refine ⟨0x7b :: (text' ++ text), by simp, fun rest' => ?_⟩
    simp only [cons_append, append_assoc]
    exact .object (hall' _) (hall rest')
  | lastItem _ ws ih =>
    obtain ⟨text, rfl, hall⟩ := ws.alone_cons
    obtain ⟨text', rfl, hall'⟩ := ih
    refine ⟨text' ++ text, by simp, fun rest' => ?_⟩
    rw [append_assoc]
    exact .lastItem (hall' _) (hall rest')
  | item _ ws ws' _ ih ih' =>
    obtain ⟨items, rfl, hitems⟩ := ih'
    obtain ⟨text', rfl, hall'⟩ := ws'.alone
    obtain ⟨text, rfl, hall⟩ := ws.alone_cons
    obtain ⟨item, rfl, hitem⟩ := ih
    refine ⟨item ++ (text ++ (text' ++ items)), by simp, fun rest' => ?_⟩
    simp only [append_assoc]
    exact .item (hitem _) (hall _) (hall' _) (hitems rest')
  | @lastMember _ text _ _ _ _ _ _ hkey beforeColon afterColon _ afterValue ih =>
    obtain ⟨close, rfl, hclose⟩ := afterValue.alone_cons
    obtain ⟨value, heq, hvalue⟩ := ih
    obtain rfl := append_cancel_right heq
    obtain ⟨space, rfl, hspace⟩ := afterColon.alone
    obtain ⟨colon, rfl, hcolon⟩ := beforeColon.alone_cons
    obtain ⟨key, rfl, hkey'⟩ := hkey.alone
    refine ⟨0x22 :: (key ++ (colon ++ (space ++ (text ++ close)))), by simp, fun rest' => ?_⟩
    simp only [cons_append, append_assoc]
    exact .lastMember (hkey' _) (hcolon _) (hspace _) (hvalue _) (hclose rest')
  | @member _ text _ _ _ _ _ _ _ _ _ hkey beforeColon afterColon _ afterValue afterComma compact _
      ih ih' =>
      obtain ⟨members, rfl, hmembers⟩ := ih'
      obtain ⟨space', rfl, hspace'⟩ := afterComma.alone
      obtain ⟨comma, rfl, hcomma⟩ := afterValue.alone_cons
      obtain ⟨value, heq, hvalue⟩ := ih
      obtain rfl := append_cancel_right heq
      obtain ⟨space, rfl, hspace⟩ := afterColon.alone
      obtain ⟨colon, rfl, hcolon⟩ := beforeColon.alone_cons
      obtain ⟨key, rfl, hkey'⟩ := hkey.alone
      refine ⟨0x22 :: (key ++ (colon ++ (space ++ (text ++ (comma ++ (space' ++ members)))))),
        by simp, fun rest' => ?_⟩
      simp only [cons_append, append_assoc]
      refine .member (hkey' _) (hcolon _) (hspace _) (hvalue _) (hcomma _) (hspace' _) ?_
        (hmembers rest')
      intro hcompact
      have hnil : space' = [] := by simpa using compact hcompact
      rw [hnil]
      rfl

theorem Reads.text {part : Part} {text rest : List UInt8} (h : Reads g part (text ++ rest) rest) :
    Reads g part text [] := by
  obtain ⟨text', heq, hall⟩ := h.alone
  obtain rfl := append_cancel_right heq
  have hread := hall []
  rwa [append_nil] at hread

end Skiff.Json

namespace Skiff.WebSocket

open Json

/-! ## Strings -/

/-- A byte that a string scanner passes over by itself. -/
def PlainByte (b : UInt8) : Prop := b ≠ 0x22 ∧ b ≠ 0x5c ∧ ¬ b < 0x20

variable {bytes : List UInt8}

theorem scanStringBody_append (h : ∀ b ∈ bytes, PlainByte b)
    (rest : List UInt8) : scanStringBody (bytes ++ rest) = scanStringBody rest := by
  induction bytes with
  | nil => rfl
  | cons b bytes ih =>
    obtain ⟨hquote, hbackslash, hcontrol⟩ := h b (.head _)
    rw [List.cons_append, scanStringBody.eq_def]
    dsimp only
    rw [if_neg hquote, if_neg hbackslash, if_neg hcontrol]
    exact ih fun b' hb' => h b' (.tail _ hb')

theorem scanContainer_string (h : ∀ b ∈ bytes, PlainByte b) (depth : Nat) (rest : List UInt8) :
    scanContainer depth true (bytes ++ rest) = scanContainer depth true rest := by
  induction bytes with
  | nil => rfl
  | cons b bytes ih =>
    obtain ⟨hquote, hbackslash, -⟩ := h b (.head _)
    rw [List.cons_append, scanContainer.eq_def]
    dsimp only
    rw [if_neg hbackslash, decide_eq_true hquote]
    exact ih fun b' hb' => h b' (.tail _ hb')

variable {b : UInt8}

theorem plainByte_of_hexDigit {value : Nat} (h : hexDigit? b = some value) : PlainByte b := by
  unfold hexDigit? at h
  have hrange : 0x30 ≤ b.toNat ∧ b.toNat ≤ 0x39 ∨ 0x41 ≤ b.toNat ∧ b.toNat ≤ 0x46 ∨
      0x61 ≤ b.toNat ∧ b.toNat ≤ 0x66 := by
    simp only [Bool.and_eq_true, decide_eq_true_eq, UInt8.le_iff_toNat_le, UInt8.reduceToNat] at h
    split at h
    case isTrue hb => exact .inl hb
    split at h
    case isTrue hb => exact .inr (.inr hb)
    split at h
    case isTrue hb => exact .inr (.inl hb)
    · cases h
  refine ⟨?_, ?_, ?_⟩
  · rintro rfl
    revert hrange
    decide
  · rintro rfl
    revert hrange
    decide
  simp only [UInt8.lt_iff_toNat_lt, UInt8.reduceToNat]
  omega

theorem plainByte_of_hexDigits {g : JsonGrammar} {digits : List UInt8} {n : Nat}
    (h : HexDigits g digits n) : ∀ b ∈ digits, PlainByte b := by
  intro b hb
  obtain ⟨-, hvalue | ⟨-, others, rfl, hvalue⟩⟩ := h
  · obtain ⟨value, hdigit⟩ := hexValue_digits hvalue b hb
    exact plainByte_of_hexDigit hdigit
  obtain rfl | hb := List.mem_cons.mp hb
  · exact ⟨by decide, by decide, by decide⟩
  obtain ⟨value, hdigit⟩ := hexValue_digits hvalue b hb
  exact plainByte_of_hexDigit hdigit

theorem plainByte_of_unescaped {c : Char} (h : Unescaped c) :
    ∀ b ∈ String.utf8EncodeChar c, PlainByte b := by
  intro b hb
  obtain ⟨hquote, hbackslash⟩ := unescaped_bytes h b hb
  refine ⟨hquote, hbackslash, ?_⟩
  simp only [UInt8.lt_iff_toNat_lt, UInt8.reduceToNat]
  by_cases hascii : c.toNat ≤ 0x7f
  · rw [utf8EncodeChar_ascii hascii, List.mem_singleton] at hb
    have hvalue : b.toNat = c.toNat := by
      rw [hb, UInt8.toNat_ofNat']
      omega
    have hlow := h.1
    omega
  obtain ⟨first, others, hbytes, hstarts, hothers⟩ := utf8EncodeChar_wide (Nat.not_le.mp hascii)
  rw [hbytes] at hb
  obtain rfl | hb := List.mem_cons.mp hb
  · obtain ⟨hlow, -⟩ | ⟨hlow, -⟩ | ⟨hlow, -⟩ := hstarts <;> omega
  have hlow := hothers b hb
  omega

section strings

variable {g : JsonGrammar} {value source rest : List UInt8}

theorem scanStringBody_of_reads (h : ReadsChars g value source rest) :
    scanStringBody source = some rest := by
  induction h with
  | close rest => rw [scanStringBody.eq_def]; exact if_pos rfl
  | unescaped plain _ ih => rw [scanStringBody_append (plainByte_of_unescaped plain), ih]
  | escape _ _ ih => exact ih
  | @unicode _ _ _ source _ hex _ _ ih | @lone _ _ _ source _ _ hex _ _ ih =>
    rw [← ih, ← scanStringBody_append (plainByte_of_hexDigits hex) source]
    rfl
  | @pair _ _ _ _ _ source _ _ hex _ hex' _ _ ih =>
    rw [← ih, ← scanStringBody_append (plainByte_of_hexDigits hex') source]
    exact scanStringBody_append (plainByte_of_hexDigits hex) _

theorem scanStringSpan_of_reads (h : ReadsChars g value source rest) :
    scanStringSpan (0x22 :: source) = some rest := by
  rw [scanStringSpan, if_pos rfl]
  exact scanStringBody_of_reads h

theorem scanContainer_of_chars (h : ReadsChars g value source rest) (depth : Nat) :
    scanContainer depth true source = scanContainer depth false rest := by
  induction h with
  | close rest => rw [scanContainer.eq_def]; exact if_neg (by decide)
  | unescaped plain _ ih => rw [scanContainer_string (plainByte_of_unescaped plain), ih]
  | escape _ _ ih => exact ih
  | @unicode _ _ _ source _ hex _ _ ih | @lone _ _ _ source _ _ hex _ _ ih =>
    rw [← ih, ← scanContainer_string (plainByte_of_hexDigits hex) depth source]
    rfl
  | @pair _ _ _ _ _ source _ _ hex _ hex' _ _ ih =>
    rw [← ih, ← scanContainer_string (plainByte_of_hexDigits hex') depth source]
    exact scanContainer_string (plainByte_of_hexDigits hex) depth _

end strings

/-! ## Arrays and objects -/

/-- A byte between the brackets and strings of an array or an object. -/
def BetweenByte (b : UInt8) : Prop :=
  b ≠ 0x22 ∧ (b = 0x7b || b = 0x5b) = false ∧ (b = 0x7d || b = 0x5d) = false

theorem scanContainer_between (h : BetweenByte b) (depth : Nat) (rest : List UInt8) :
    scanContainer depth false (b :: rest) = scanContainer depth false rest := by
  rw [scanContainer.eq_def]
  dsimp only
  rw [if_neg h.1, h.2.1, h.2.2]
  rfl

theorem scanContainer_append (h : ∀ b ∈ bytes, BetweenByte b) (depth : Nat) (rest : List UInt8) :
    scanContainer depth false (bytes ++ rest) = scanContainer depth false rest := by
  induction bytes with
  | nil => rfl
  | cons b bytes ih =>
    rw [List.cons_append, scanContainer_between (h b List.mem_cons_self)]
    exact ih fun b' hb' => h b' (.tail _ hb')

variable {source rest : List UInt8}

theorem scanContainer_ws (h : ReadsWs source rest) (depth : Nat) :
    scanContainer depth false source = scanContainer depth false rest := by
  induction h with
  | done => rfl
  | @more b _ _ ws _ ih =>
    rw [scanContainer_between, ih]
    simp only [isWs, Bool.or_eq_true, decide_eq_true_eq] at ws
    obtain ((rfl | rfl) | rfl) | rfl := ws
    · exact ⟨by decide, rfl, rfl⟩
    · exact ⟨by decide, rfl, rfl⟩
    · exact ⟨by decide, rfl, rfl⟩
    · exact ⟨by decide, rfl, rfl⟩

theorem numeralByte_cases (h : numeralByte b = true) :
    0x30 ≤ b.toNat ∧ b.toNat ≤ 0x39 ∨ b = 0x2e ∨ b = 0x65 ∨ b = 0x45 ∨ b = 0x2b ∨ b = 0x2d := by
  simp only [numeralByte, isDigit, Bool.or_eq_true, Bool.and_eq_true, decide_eq_true_eq,
    UInt8.le_iff_toNat_le, UInt8.reduceToNat] at h
  obtain ((((h | h) | h) | h) | h) | h := h
  · exact .inl h
  · exact .inr (.inl h)
  · exact .inr (.inr (.inl h))
  · exact .inr (.inr (.inr (.inl h)))
  · exact .inr (.inr (.inr (.inr (.inl h))))
  · exact .inr (.inr (.inr (.inr (.inr h))))

theorem between_of_numeral (h : numeralByte b = true) : BetweenByte b := by
  obtain hdigit | rfl | rfl | rfl | rfl | rfl := numeralByte_cases h
  · have hne : ∀ c : UInt8, c.toNat < 0x30 ∨ 0x39 < c.toNat → b ≠ c := by
      rintro c hc rfl
      omega
    refine ⟨hne _ (by decide), ?_, ?_⟩
    · simp [hne 0x7b (by decide), hne 0x5b (by decide)]
    · simp [hne 0x7d (by decide), hne 0x5d (by decide)]
  · exact ⟨by decide, rfl, rfl⟩
  · exact ⟨by decide, rfl, rfl⟩
  · exact ⟨by decide, rfl, rfl⟩
  · exact ⟨by decide, rfl, rfl⟩
  · exact ⟨by decide, rfl, rfl⟩

/-- How the scanner passes over a part inside an array or an object: a value leaves the depth as
it was, and the rest of a container ends with its closing bracket. -/
def Passed : Part → List UInt8 → List UInt8 → Prop
  | .value _, source, rest => ∀ depth,
      scanContainer (depth + 1) false source = scanContainer (depth + 1) false rest
  | _, source, rest => ∀ depth, scanContainer (depth + 1) false source =
      if depth = 0 then some rest else scanContainer depth false rest

theorem scanContainer_close (hb : b = 0x7d ∨ b = 0x5d) (depth : Nat) (rest : List UInt8) :
    scanContainer (depth + 1) false (b :: rest) =
      if depth = 0 then some rest else scanContainer depth false rest := by
  obtain rfl | rfl := hb
  · rw [scanContainer.eq_def]
    rfl
  rw [scanContainer.eq_def]
  rfl

theorem scanContainer_open (hb : b = 0x7b ∨ b = 0x5b) (depth : Nat) (rest : List UInt8) :
    scanContainer depth false (b :: rest) = scanContainer (depth + 1) false rest := by
  obtain rfl | rfl := hb
  · rw [scanContainer.eq_def]
    rfl
  rw [scanContainer.eq_def]
  rfl

theorem scanContainer_quote (depth : Nat) (rest : List UInt8) :
    scanContainer depth false (0x22 :: rest) = scanContainer depth true rest := by
  rw [scanContainer.eq_def]
  rfl

theorem passed {g : JsonGrammar} {part : Part}
    (h : Reads g part source rest) : Passed part source rest := by
  have hclose : ∀ {b : UInt8} {source rest : List UInt8}, b = 0x7d ∨ b = 0x5d →
      ReadsWs source (b :: rest) → ∀ depth, scanContainer (depth + 1) false source =
        if depth = 0 then some rest else scanContainer depth false rest := by
    intro b source rest hb ws depth
    rw [scanContainer_ws ws, scanContainer_close hb]
  have hbetween : ∀ {b : UInt8} {source rest : List UInt8}, BetweenByte b →
      ReadsWs source (b :: rest) → ∀ depth,
        scanContainer depth false source = scanContainer depth false rest := by
    intro b source rest hb ws depth
    rw [scanContainer_ws ws, scanContainer_between hb]
  have hcolon : BetweenByte 0x3a := ⟨by decide, rfl, rfl⟩
  have hcomma : BetweenByte 0x2c := ⟨by decide, rfl, rfl⟩
  induction h with
  | name h rest =>
    intro depth
    apply scanContainer_append
    intro b hb
    cases h <;> simp only [List.mem_cons, List.not_mem_nil, or_false] at hb
    · obtain rfl | rfl | rfl | rfl := hb <;> exact ⟨by decide, rfl, rfl⟩
    · obtain rfl | rfl | rfl | rfl | rfl := hb <;> exact ⟨by decide, rfl, rfl⟩
    · obtain rfl | rfl | rfl | rfl := hb <;> exact ⟨by decide, rfl, rfl⟩
  | number h rest =>
    intro depth
    exact scanContainer_append (fun b hb => between_of_numeral (h.bytes b hb)) _ rest
  | string h =>
    intro depth
    rw [scanContainer_quote]
    exact scanContainer_of_chars h _
  | emptyArray ws =>
    intro depth
    rw [scanContainer_open (.inr rfl), hclose (.inr rfl) ws, if_neg (Nat.succ_ne_zero depth)]
  | array ws _ ih =>
    intro depth
    rw [scanContainer_open (.inr rfl), scanContainer_ws ws, ih, if_neg (Nat.succ_ne_zero depth)]
  | emptyObject ws =>
    intro depth
    rw [scanContainer_open (.inl rfl), hclose (.inl rfl) ws, if_neg (Nat.succ_ne_zero depth)]
  | object ws _ ih =>
    intro depth
    rw [scanContainer_open (.inl rfl), scanContainer_ws ws, ih, if_neg (Nat.succ_ne_zero depth)]
  | lastItem _ ws ih =>
    intro depth
    rw [ih, hclose (.inr rfl) ws]
  | item _ ws ws' _ ih ih' =>
    intro depth
    rw [ih, hbetween hcomma ws, scanContainer_ws ws', ih']
  | lastMember hkey beforeColon afterColon _ afterValue ih =>
    intro depth
    rw [scanContainer_quote, scanContainer_of_chars hkey, hbetween hcolon beforeColon,
      scanContainer_ws afterColon, ih, hclose (.inl rfl) afterValue]
  | member hkey beforeColon afterColon _ afterValue afterComma _ _ ih ih' =>
    intro depth
    rw [scanContainer_quote, scanContainer_of_chars hkey, hbetween hcolon beforeColon,
      scanContainer_ws afterColon, ih, hbetween hcomma afterValue, scanContainer_ws afterComma, ih']

/-! ## Values -/

/-- The scanner ends a number where nothing follows that could stand in one. -/
def PassesNumbers (scanNumber : List UInt8 → List UInt8) : Prop :=
  ∀ lexeme rest, IsNumber lexeme → HeadNot numeralByte rest → scanNumber (lexeme ++ rest) = rest

theorem dropWhile_of_headNot {p : UInt8 → Bool} {source : List UInt8} (h : HeadNot p source) :
    source.dropWhile p = source := by
  cases source with
  | nil => rfl
  | cons b rest =>
    rw [List.dropWhile_cons, h b rest rfl]
    rfl

theorem passesNumbers_bytes : PassesNumbers scanNumberBytes := by
  intro lexeme rest hlexeme hrest
  rw [scanNumberBytes, List.dropWhile_append_of_pos (hlexeme.bytes)]
  exact dropWhile_of_headNot hrest

theorem dropWhile_digits {digits rest : List UInt8} (h : IsDigits digits)
    (hrest : HeadNot isDigit rest) : (digits ++ rest).dropWhile isDigit = rest := by
  rw [List.dropWhile_append_of_pos h.2]
  exact dropWhile_of_headNot hrest

theorem passesNumbers_parts : PassesNumbers scanNumberParts := by
  intro lexeme rest hlexeme hrest
  obtain ⟨sign, integer, fraction, exponent, rfl, hsign, hinteger, -, hfraction, hexponent⟩ :=
    hlexeme
  have hdigit : HeadNot isDigit rest := hrest.mono fun b hb => by simp [numeralByte, hb]
  have hexponentHead : HeadNot (fun b => isDigit b || b = 0x2e) (exponent ++ rest) := by
    refine .exponent hexponent (hrest.mono fun b hb => ?_)
    simp only [numeralByte, Bool.or_eq_true] at hb ⊢
    exact .inl (.inl (.inl (.inl hb)))
  have hafterFraction : (if (fraction ++ (exponent ++ rest)).head? = some 0x2e then
      (fraction ++ (exponent ++ rest)).tail.dropWhile isDigit
      else fraction ++ (exponent ++ rest)) = exponent ++ rest := by
    obtain rfl | ⟨digits, rfl, hdigits⟩ := hfraction
    · rw [List.nil_append, if_neg]
      intro hhead
      obtain ⟨others, heq⟩ := List.head?_eq_some_iff.mp hhead
      have hpoint := hexponentHead _ _ heq
      simp at hpoint
    rw [List.cons_append, List.head?_cons, if_pos rfl, List.tail_cons]
    exact dropWhile_digits hdigits (hexponentHead.mono fun b hb => by simp [hb])
  simp only [List.append_assoc]
  rw [scanNumberParts, lexSign_minus hsign hinteger]
  dsimp only
  rw [dropWhile_digits hinteger (.fraction hfraction hexponentHead), hafterFraction]
  obtain rfl | ⟨e, sign, digits, rfl, he, hsign, hdigits⟩ := hexponent
  · rw [List.nil_append, if_neg]
    rintro (hhead | hhead)
    · obtain ⟨others, heq⟩ := List.head?_eq_some_iff.mp hhead
      exact absurd (hrest _ _ heq) (by decide)
    obtain ⟨others, heq⟩ := List.head?_eq_some_iff.mp hhead
    exact absurd (hrest _ _ heq) (by decide)
  rw [List.cons_append, List.append_assoc, if_pos (by simpa using he), List.tail_cons,
    lexSign_exponent hsign hdigits]
  exact dropWhile_digits hdigits hdigit

theorem numeralByte_of_ws (h : isWs b = true) : numeralByte b = false := by
  cases hnumeral : numeralByte b with
  | false => rfl
  | true =>
    simp only [isWs, Bool.or_eq_true, decide_eq_true_eq] at h
    obtain ((rfl | rfl) | rfl) | rfl := h <;> cases hnumeral

/-- What follows the value of a member could not stand in a number. -/
theorem headNot_numeral (h : ReadsWs source (b :: rest))
    (hb : numeralByte b = false) : HeadNot numeralByte source := by
  cases h with
  | done => exact .cons hb rest
  | more ws _ => exact .cons (numeralByte_of_ws ws) _

end Skiff.WebSocket
