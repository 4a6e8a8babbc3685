import Mathlib.Algebra.Order.Field.Power
import Mathlib.Data.List.TakeWhile
import Mathlib.Tactic.NormNum
import Mathlib.Tactic.Positivity
import Mathlib.Tactic.Ring
import Skiff.WebSocket.LexNumbers
import Skiff.WebSocket.MemberSpans

/-!
# Safe integers

A number lexeme stands for a power of ten of its digits. `parse_safe_integer` finds the safe
integer that it stands for, or that there is none, by the exact digits; but it reads over the sign
of the exponent, so a lexeme with a negative one is taken for another number, and it does not return
for an exponent at the end of the range of an `i128`.
-/

namespace Skiff.WebSocket

open Json List

/-! ## Decimal digits -/

section Digits

variable {digits others : List UInt8}

def AllDigits (digits : List UInt8) : Prop := ∀ d ∈ digits, isDigit d = true

theorem digit_bounds {d : UInt8} (h : isDigit d = true) : 0x30 ≤ d.toNat ∧ d.toNat ≤ 0x39 := by
  simp only [isDigit, Bool.and_eq_true, decide_eq_true_eq, UInt8.le_iff_toNat_le] at h
  exact h

theorem digitsValue_append (digits others : List UInt8) :
    digitsValue (digits ++ others) =
      digitsValue digits * 10 ^ others.length + digitsValue others := by
  induction others using reverseRecOn with
  | nil => simp [digitsValue]
  | append_singleton rest d ih =>
    have hsnoc (ds : List UInt8) :
        digitsValue (ds ++ [d]) = 10 * digitsValue ds + (d.toNat - 0x30) := by
      rw [digitsValue, foldl_append]
      rfl
    rw [← append_assoc, hsnoc, hsnoc, ih, length_append, length_singleton]
    ring

theorem digitsValue_zeros (h : ∀ d ∈ digits, d = 0x30) : digitsValue digits = 0 := by
  induction digits using reverseRecOn with
  | nil => rfl
  | append_singleton rest d ih =>
    rw [digitsValue_append, ih fun e he => h e (mem_append_left _ he), h d (by simp)]
    rfl

theorem digitsValue_trimZeros (digits : List UInt8) :
    digitsValue (trimZeros digits) = digitsValue digits := by
  have hzeros : ∀ d ∈ digits.takeWhile (· = 0x30), d = 0x30 := by
    intro d hd
    simpa using mem_takeWhile_imp hd
  have hsplit := digitsValue_append (digits.takeWhile (· = 0x30)) (trimZeros digits)
  rw [show digits.takeWhile _ ++ trimZeros digits = digits from takeWhile_append_dropWhile,
    digitsValue_zeros hzeros, Nat.zero_mul, Nat.zero_add] at hsplit
  exact hsplit.symm

theorem digitsValue_lt (h : AllDigits digits) : digitsValue digits < 10 ^ digits.length := by
  induction digits using reverseRecOn with
  | nil => exact Nat.one_pos
  | append_singleton rest d ih =>
    have hrest := ih fun e he => h e (mem_append_left _ he)
    have hd : digitsValue [d] < 10 := by
      have hdigit := digit_bounds (h d (by simp))
      show 10 * 0 + (d.toNat - 0x30) < 10
      omega
    rw [digitsValue_append, length_append, length_singleton, pow_succ]
    omega

/-- Digits that do not start with a zero stand for a number with as many digits. -/
theorem le_digitsValue (h : AllDigits digits) (hsome : digits ≠ [])
    (hhead : digits.head? ≠ some 0x30) :
    10 ^ (digits.length - 1) ≤ digitsValue digits := by
  obtain ⟨d, rest, rfl⟩ := exists_cons_of_ne_nil hsome
  have hd : 1 ≤ digitsValue [d] := by
    have hdigit := digit_bounds (h d (.head _))
    have hne : d.toNat ≠ 0x30 := fun heq => hhead (congrArg some (UInt8.toNat_inj.mp heq))
    show 1 ≤ 10 * 0 + (d.toNat - 0x30)
    omega
  have happend := digitsValue_append [d] rest
  rw [singleton_append] at happend
  rw [happend, length_cons, Nat.add_sub_cancel]
  exact le_trans (Nat.le_mul_of_pos_left _ hd) (Nat.le_add_right _ _)

theorem trimZeros_digits (h : AllDigits digits) : AllDigits (trimZeros digits) :=
  fun d hd => h d (dropWhile_subset _ hd)

theorem trimZeros_ne_nil (hsome : ¬digits.all (· = 0x30)) : trimZeros digits ≠ [] :=
  fun hnil => hsome (all_eq_true.mpr (dropWhile_eq_nil_iff.mp hnil))

theorem head_trimZeros (digits : List UInt8) : (trimZeros digits).head? ≠ some 0x30 := by
  intro hhead
  have hnot := head?_dropWhile_not (fun d : UInt8 => decide (d = 0x30)) digits
  rw [show dropWhile _ digits = trimZeros digits from rfl, hhead] at hnot
  simp at hnot

theorem digitsValue_pos (h : AllDigits digits) (hsome : ¬digits.all (· = 0x30)) :
    0 < digitsValue digits := by
  rw [← digitsValue_trimZeros]
  exact lt_of_lt_of_le (Nat.pow_pos (by omega))
    (le_digitsValue (trimZeros_digits h) (trimZeros_ne_nil hsome) (head_trimZeros digits))

end Digits

/-! ## Numerals -/

structure Exponent where
  mark : UInt8
  sign : List UInt8
  digits : List UInt8
  mark_eq : mark = 0x65 ∨ mark = 0x45
  sign_eq : sign = [] ∨ sign = [0x2b] ∨ sign = [0x2d]
  isDigits : IsDigits digits

/-- The parts of a number lexeme. -/
structure Numeral where
  negative : Bool
  integer : List UInt8
  fraction : List UInt8
  exponent : Option Exponent
  integer_digits : IsDigits integer
  fraction_digits : AllDigits fraction

namespace Numeral

variable (numeral : Numeral)

def exponentText : List UInt8 :=
  numeral.exponent.elim [] fun exponent => exponent.mark :: (exponent.sign ++ exponent.digits)

def fractionText : List UInt8 := if numeral.fraction = [] then [] else 0x2e :: numeral.fraction

def text : List UInt8 :=
  (if numeral.negative then [0x2d] else []) ++
    (numeral.integer ++ (numeral.fractionText ++ numeral.exponentText))

def coefficient : List UInt8 := numeral.integer ++ numeral.fraction

def mantissa : Int :=
  if numeral.negative then -(digitsValue numeral.coefficient) else digitsValue numeral.coefficient

/-- The exponent without its sign. -/
def exponentDigits : List UInt8 := numeral.exponent.elim [0x30] Exponent.digits

def exponentNegative : Bool := numeral.exponent.any fun exponent => exponent.sign = [0x2d]

/-- The mantissa with the point where the exponent puts it. -/
def scaled (exponent : Int) : ℚ := numeral.mantissa * 10 ^ (exponent - numeral.fraction.length)

/-- The exact value. -/
def value : ℚ :=
  numeral.scaled (if numeral.exponentNegative then -digitsValue numeral.exponentDigits
    else digitsValue numeral.exponentDigits)

end Numeral

theorem exists_numeral {lexeme : List UInt8} (h : IsNumber lexeme) :
    ∃ numeral : Numeral, numeral.text = lexeme := by
  obtain ⟨sign, integer, fraction, exponent, rfl, hsign, hinteger, -, hfraction, hexponent⟩ := h
  have hnegative : (if decide (sign = [0x2d]) then [0x2d] else ([] : List UInt8)) = sign := by
    obtain rfl | rfl := hsign <;> rfl
  obtain ⟨digits, hdigits, hpoint⟩ : ∃ digits, AllDigits digits ∧
      (if digits = [] then [] else 0x2e :: digits) = fraction := by
    obtain rfl | ⟨digits, rfl, hsome, hall⟩ := hfraction
    · exact ⟨[], fun _ hmem => absurd hmem not_mem_nil, if_pos rfl⟩
    · exact ⟨digits, hall, if_neg hsome⟩
  obtain ⟨parts, hparts⟩ : ∃ parts : Option Exponent,
      parts.elim [] (fun parts => parts.mark :: (parts.sign ++ parts.digits)) = exponent := by
    obtain rfl | ⟨mark, sign, digits, rfl, hmark, hsigned, hall⟩ := hexponent
    · exact ⟨none, rfl⟩
    · exact ⟨some ⟨mark, sign, digits, hmark, hsigned, hall⟩, rfl⟩
  refine ⟨⟨sign = [0x2d], integer, digits, parts, hinteger, hdigits⟩, ?_⟩
  rw [← hpoint, ← hparts]
  exact congrArg (· ++ _) hnegative

theorem span_digits {digits rest : List UInt8} (h : AllDigits digits)
    (hrest : HeadNot isDigit rest) :
    (digits ++ rest).takeWhile isDigit = digits ∧ (digits ++ rest).dropWhile isDigit = rest := by
  rw [takeWhile_append_of_pos h, dropWhile_append_of_pos h]
  cases rest with
  | nil => exact ⟨append_nil _, rfl⟩
  | cons b rest =>
    have hb := hrest b rest rfl
    rw [takeWhile_cons, dropWhile_cons, hb]
    exact ⟨append_nil _, rfl⟩

namespace Numeral

variable (numeral : Numeral)

theorem head_exponentText {b : UInt8} {rest : List UInt8}
    (h : numeral.exponentText = b :: rest) : b = 0x65 ∨ b = 0x45 := by
  unfold exponentText at h
  cases hexponent : numeral.exponent with
  | none =>
    rw [hexponent] at h
    cases h
  | some exponent =>
    rw [hexponent] at h
    cases h
    exact exponent.mark_eq

theorem headNot_exponentText : HeadNot isDigit numeral.exponentText := by
  intro b rest h
  obtain rfl | rfl := numeral.head_exponentText h <;> rfl

/-- The lexeme is split into its parts, without the sign of the exponent. -/
theorem splitNumberLexeme_text :
    splitNumberLexeme numeral.text = some (numeral.negative, numeral.coefficient,
      numeral.exponentDigits, numeral.fraction.length) := by
  obtain ⟨hsome, hdigits⟩ := numeral.integer_digits
  have hsign : decide (numeral.text.head? = some 0x2d) = numeral.negative ∧
      (if numeral.text.head? = some 0x2d then numeral.text.tail else numeral.text) =
        numeral.integer ++ (numeral.fractionText ++ numeral.exponentText) := by
    obtain ⟨d, rest, hinteger⟩ := exists_cons_of_ne_nil hsome
    have hd := digit_bounds (hdigits d (hinteger ▸ (.head _)))
    have hne : d ≠ 0x2d := fun heq => absurd hd.1 (by rw [heq]; decide)
    cases hnegative : numeral.negative <;> simp [text, hnegative, hinteger, hne]
  have hinteger : HeadNot isDigit (numeral.fractionText ++ numeral.exponentText) := by
    unfold fractionText
    split
    · exact numeral.headNot_exponentText
    · exact HeadNot.cons rfl _
  obtain ⟨htake, hdrop⟩ := span_digits hdigits hinteger
  obtain ⟨hfirst, hrest⟩ := span_digits numeral.fraction_digits numeral.headNot_exponentText
  unfold splitNumberLexeme
  simp only [hsign, htake, hdrop, hsome, if_false]
  cases hexponent : numeral.exponent with
  | none =>
    have htext : numeral.exponentText = [] := by rw [exponentText, hexponent]; rfl
    have hdigits : numeral.exponentDigits = [0x30] := by rw [exponentDigits, hexponent]; rfl
    rw [htext] at hfirst hrest
    by_cases hnil : numeral.fraction = []
    · simp [fractionText, htext, hnil, hdigits, coefficient]
    rw [append_nil] at hfirst hrest
    simp [fractionText, htext, hnil, hdigits, coefficient, hfirst, hrest]
  | some exponent =>
    have htext : numeral.exponentText = exponent.mark :: (exponent.sign ++ exponent.digits) := by
      rw [exponentText, hexponent]
      rfl
    have hdigits : numeral.exponentDigits = exponent.digits := by
      rw [exponentDigits, hexponent]
      rfl
    have hmark : exponent.mark ≠ 0x2e ∧ (exponent.mark = 0x65 ∨ exponent.mark = 0x45) :=
      ⟨by obtain h | h := exponent.mark_eq <;> rw [h] <;> decide, exponent.mark_eq⟩
    obtain ⟨signed, hsigned, hlast⟩ : ∃ signed, exponent.sign ++ exponent.digits = signed ∧
        (if signed.head? = some 0x2b ∨ signed.head? = some 0x2d then signed.tail else signed) =
          exponent.digits := by
      refine ⟨_, rfl, ?_⟩
      obtain h | h | h := exponent.sign_eq
      · obtain ⟨d, rest, hcons⟩ := exists_cons_of_ne_nil exponent.isDigits.1
        have hd := digit_bounds (exponent.isDigits.2 d (hcons ▸ (.head _)))
        have hplus : d ≠ 0x2b := fun heq => absurd hd.1 (by rw [heq]; decide)
        have hminus : d ≠ 0x2d := fun heq => absurd hd.1 (by rw [heq]; decide)
        simp [h, hcons, hplus, hminus]
      · simp [h]
      · simp [h]
    have htakes := (span_digits exponent.isDigits.2 (HeadNot.nil isDigit)).1
    rw [append_nil] at htakes
    have hall : (∃ _ : 0 < exponent.digits.length, isDigit exponent.digits[0] = true) ∧
        ∀ d ∈ exponent.digits, isDigit d = true :=
      ⟨⟨length_pos_of_ne_nil exponent.isDigits.1, exponent.isDigits.2 _ (getElem_mem _)⟩,
        exponent.isDigits.2⟩
    rw [hsigned] at htext
    rw [head?_eq_getElem?] at hlast
    rw [htext] at hfirst hrest
    by_cases hnil : numeral.fraction = []
    · simpa [fractionText, htext, hnil, hmark, hlast, htakes, hdigits, coefficient] using hall
    simpa [fractionText, htext, hnil, hfirst, hrest, hmark, hlast, htakes, hdigits, coefficient]
      using hall

end Numeral

/-! ## Exact scaling -/

section Scaling

variable {digits : List UInt8}

/-- The digits found are those of the safe value that the scaled number is. -/
theorem exactDigits_iff (h : AllDigits digits) (hsome : ¬digits.all (· = 0x30)) (scale : Int)
    {value : Nat} (hvalue : value ≤ 9007199254740991) :
    (∃ found, exactDigits digits scale = .ok (some found) ∧ digitsValue found = value) ↔
      (digitsValue digits : ℚ) * 10 ^ scale = value := by
  have hpos := digitsValue_pos h hsome
  unfold exactDigits
  by_cases hscale : 0 ≤ scale
  · obtain ⟨k, rfl⟩ := Int.eq_ofNat_of_zero_le hscale
    have hexact : ((digitsValue digits : ℚ) * 10 ^ (k : Int) = value) ↔
        digitsValue digits * 10 ^ k = value := by
      rw [zpow_natCast]
      exact_mod_cast Iff.rfl
    have hle := le_digitsValue (trimZeros_digits h) (trimZeros_ne_nil hsome) (head_trimZeros digits)
    rw [digitsValue_trimZeros] at hle
    have hlarge : 16 < (trimZeros digits).length + k → digitsValue digits * 10 ^ k ≠ value := by
      intro hlength heq
      have hpow : 10 ^ 16 ≤ 10 ^ ((trimZeros digits).length - 1 + k) :=
        Nat.pow_le_pow_right (by omega) (by omega)
      rw [pow_add] at hpow
      have hmul := Nat.mul_le_mul_right (10 ^ k) hle
      omega
    rw [hexact, if_pos hscale]
    dsimp only
    split_ifs with hover hmany
    · refine ⟨fun ⟨_, hfound, _⟩ => (by cases hfound), fun heq => absurd heq (hlarge ?_)⟩
      unfold i128Max at hover
      omega
    · exact ⟨fun ⟨_, hfound, _⟩ => (by cases hfound), fun heq => absurd heq (hlarge (by omega))⟩
    have hfound : digitsValue (trimZeros digits ++ replicate k 0x30) =
        digitsValue digits * 10 ^ k := by
      rw [digitsValue_append, digitsValue_trimZeros, length_replicate,
        digitsValue_zeros fun d hd => eq_of_mem_replicate hd, Nat.add_zero]
    simp [hfound]
  obtain ⟨k, rfl⟩ : ∃ k : Nat, scale = -k := ⟨(-scale).toNat, by omega⟩
  have hexact : ((digitsValue digits : ℚ) * 10 ^ (-(k : Int)) = value) ↔
      digitsValue digits = value * 10 ^ k := by
    rw [zpow_neg, zpow_natCast, mul_inv_eq_iff_eq_mul₀ (by positivity)]
    exact_mod_cast Iff.rfl
  rw [hexact, if_neg hscale, neg_neg, Int.toNat_natCast]
  dsimp only
  split_ifs with hshort hremoved
  · refine ⟨fun ⟨_, hfound, _⟩ => (by cases hfound), fun heq => ?_⟩
    have hlt := lt_trans (digitsValue_lt h) (Nat.pow_lt_pow_right (by omega) hshort)
    have hvalue : value ≠ 0 := by rintro rfl; omega
    have hle := Nat.le_mul_of_pos_left (10 ^ k) (Nat.pos_of_ne_zero hvalue)
    omega
  all_goals
    have hsplit := digitsValue_append (digits.take (digits.length - k))
      (digits.drop (digits.length - k))
    rw [take_append_drop, length_drop, Nat.sub_sub_self (by omega)] at hsplit
  · refine ⟨fun ⟨_, hfound, _⟩ => (by cases hfound), fun heq => ?_⟩
    have hdrop : AllDigits (digits.drop (digits.length - k)) := fun d hd => h d (mem_of_mem_drop hd)
    have hlt := digitsValue_lt hdrop
    rw [length_drop, Nat.sub_sub_self (by omega)] at hlt
    have hnonzero := digitsValue_pos hdrop (by simpa using hremoved)
    have hmod := congrArg (· % 10 ^ k) (hsplit.symm.trans heq)
    rw [Nat.mul_add_mod_self_right, Nat.mod_eq_of_lt hlt, Nat.mul_mod_left] at hmod
    omega
  have hzeros : ∀ d ∈ digits.drop (digits.length - k), d = 0x30 := by simpa using hremoved
  rw [digitsValue_zeros hzeros, Nat.add_zero] at hsplit
  simp [digitsValue_trimZeros, hsplit]

end Scaling

/-! ## Peer ids -/

/-- No number has the key of another one: a digit is no sign. -/
theorem canonicalKey_injective {m n : Int}
    (h : (OpaquePeerId.safeInteger m).canonicalKey = (OpaquePeerId.safeInteger n).canonicalKey) :
    m = n := by
  have hsign (k l : Nat) : toString k ≠ "-" ++ toString l := by
    intro heq
    have hminus : '-' ∈ (toString k).toList := by simp [heq]
    cases isDigit_of_mem_toString hminus
  have htext : m.repr = n.repr := String.append_right_inj _ |>.mp h
  cases m with
  | ofNat k =>
    cases n with
    | ofNat l => exact congrArg _ (toString_injective htext)
    | negSucc l => exact absurd htext (hsign _ _)
  | negSucc k =>
    cases n with
    | ofNat l => exact absurd htext.symm (hsign _ _)
    | negSucc l =>
      have hnat := toString_injective (String.append_right_inj _ |>.mp htext)
      rw [Nat.succ.inj hnat]

/-- A number is a safe integer. -/
def Safe (value : ℚ) : Prop := ∃ n : Int, value = n ∧ |n| ≤ javascriptMaxSafeInteger

theorem safeInteger_eq_some {negative : Bool} {digits : List UInt8} {n : Int} :
    safeInteger negative digits = some n ↔
      (if negative then -(digitsValue digits : Int) else digitsValue digits) = n ∧
        |n| ≤ javascriptMaxSafeInteger := by
  unfold safeInteger parseI128 javascriptMaxSafeInteger i128Max
  rw [abs_le]
  by_cases hnil : digits = []
  · subst hnil
    cases negative <;> simp [digitsValue] <;> omega
  simp only [hnil, if_false]
  split_ifs with hmax hnegative <;> simp <;> omega

namespace Numeral

variable (numeral : Numeral)

theorem coefficient_digits : AllDigits numeral.coefficient := by
  intro d hd
  obtain h | h := mem_append.mp hd
  · exact numeral.integer_digits.2 d h
  · exact numeral.fraction_digits d h

theorem exponentDigits_ne_nil : numeral.exponentDigits ≠ [] := by
  unfold exponentDigits
  cases numeral.exponent with
  | none => exact cons_ne_nil _ _
  | some exponent => exact exponent.isDigits.1

theorem coefficient_length_le : numeral.coefficient.length ≤ numeral.text.length := by
  have hpoint : numeral.fraction.length ≤ numeral.fractionText.length := by
    unfold fractionText
    split <;> simp_all
  unfold coefficient text
  simp only [length_append]
  omega

theorem scaled_eq_iff (exponent : Int) (n : Int) : numeral.scaled exponent = n ↔
    ∃ k : Nat,
      (digitsValue numeral.coefficient : ℚ) * 10 ^ (exponent - numeral.fraction.length) = k ∧
      (if numeral.negative then -(k : Int) else k) = n := by
  have hpos : 0 ≤ (digitsValue numeral.coefficient : ℚ) *
      10 ^ (exponent - numeral.fraction.length) :=
    mul_nonneg (Nat.cast_nonneg _) (zpow_nonneg (by norm_num) _)
  unfold scaled mantissa
  cases numeral.negative with
  | false =>
    simp only [Bool.false_eq_true, if_false, Int.cast_natCast]
    constructor
    · intro h
      rw [h] at hpos ⊢
      obtain ⟨k, rfl⟩ := Int.eq_ofNat_of_zero_le (Int.cast_nonneg_iff.mp hpos)
      exact ⟨k, rfl, rfl⟩
    rintro ⟨k, h, rfl⟩
    exact h
  | true =>
    simp only [if_true, Int.cast_neg, Int.cast_natCast, neg_mul]
    constructor
    · intro h
      rw [neg_eq_iff_eq_neg, ← Int.cast_neg] at h
      rw [h] at hpos ⊢
      obtain ⟨k, hk⟩ := Int.eq_ofNat_of_zero_le (Int.cast_nonneg_iff.mp hpos)
      exact ⟨k, by rw [hk]; rfl, by omega⟩
    rintro ⟨k, h, rfl⟩
    rw [h, Int.cast_neg]
    rfl

/-- The exponent is read without its sign, and everything else exactly. -/
theorem parseSafeInteger_text (hlength : numeral.text.length < 2 ^ 63) (n : Int) :
    parseSafeInteger numeral.text = .ok (some n) ↔
      numeral.scaled (digitsValue numeral.exponentDigits) = n ∧ |n| ≤ javascriptMaxSafeInteger := by
  unfold parseSafeInteger
  rw [numeral.splitNumberLexeme_text, scaled_eq_iff]
  dsimp only
  by_cases hzero : numeral.coefficient.all (· = 0x30)
  · rw [if_pos hzero]
    have hvalue : digitsValue numeral.coefficient = 0 := digitsValue_zeros (by simpa using hzero)
    rw [hvalue, Nat.cast_zero, zero_mul]
    simp only [Except.ok.injEq, Option.some.injEq]
    constructor
    · rintro rfl
      exact ⟨⟨0, rfl, by simp⟩, by decide⟩
    rintro ⟨⟨k, hk, rfl⟩, -⟩
    rw [Nat.cast_eq_zero.mp hk.symm]
    simp
  have hmagnitude (k : Nat)
      (hsafe : |if numeral.negative then -(k : Int) else k| ≤ javascriptMaxSafeInteger) :
      k ≤ 9007199254740991 := by
    unfold javascriptMaxSafeInteger at hsafe
    split at hsafe <;> rw [abs_le] at hsafe <;> omega
  rw [if_neg hzero]
  unfold parseI128
  rw [if_neg numeral.exponentDigits_ne_nil]
  by_cases hmax : (digitsValue numeral.exponentDigits : Int) ≤ i128Max
  · rw [if_pos hmax]
    have hfound : ((exactDigits numeral.coefficient
        (digitsValue numeral.exponentDigits - numeral.fraction.length)).map
          fun digits => digits.bind (safeInteger numeral.negative)) = .ok (some n) ↔
        ∃ found, exactDigits numeral.coefficient
          (digitsValue numeral.exponentDigits - numeral.fraction.length) = .ok (some found) ∧
            safeInteger numeral.negative found = some n := by
      cases exactDigits numeral.coefficient
          (digitsValue numeral.exponentDigits - numeral.fraction.length) with
      | error => simp [Except.map]
      | ok found => cases found <;> simp [Except.map]
    rw [hfound]
    simp only [safeInteger_eq_some]
    constructor
    · rintro ⟨found, hexact, rfl, hsafe⟩
      have hscaled := exactDigits_iff numeral.coefficient_digits hzero
        (digitsValue numeral.exponentDigits - numeral.fraction.length) (hmagnitude _ hsafe)
      exact ⟨⟨_, hscaled.mp ⟨found, hexact, rfl⟩, rfl⟩, hsafe⟩
    rintro ⟨⟨k, hk, rfl⟩, hsafe⟩
    have hscaled := exactDigits_iff numeral.coefficient_digits hzero
      (digitsValue numeral.exponentDigits - numeral.fraction.length) (hmagnitude _ hsafe)
    obtain ⟨found, hexact, rfl⟩ := hscaled.mpr hk
    exact ⟨found, hexact, rfl, hsafe⟩
  rw [if_neg hmax]
  refine ⟨fun h => (by cases h), ?_⟩
  rintro ⟨⟨k, hk, rfl⟩, hsafe⟩
  obtain ⟨j, hj⟩ : ∃ j : Nat,
      (digitsValue numeral.exponentDigits : Int) - numeral.fraction.length = (16 + j : Nat) := by
    have hfraction := numeral.coefficient_length_le
    rw [coefficient, length_append] at hfraction
    unfold i128Max at hmax
    exact ⟨(digitsValue numeral.exponentDigits - numeral.fraction.length - 16 : Int).toNat,
      by omega⟩
  rw [hj, zpow_natCast] at hk
  have hnat : digitsValue numeral.coefficient * 10 ^ (16 + j) = k := by exact_mod_cast hk
  have hpow : 10 ^ 16 ≤ 10 ^ (16 + j) := Nat.pow_le_pow_right (by omega) (by omega)
  have hpos := digitsValue_pos numeral.coefficient_digits hzero
  have hmul := Nat.le_mul_of_pos_left (10 ^ (16 + j)) hpos
  have hle := hmagnitude k hsafe
  omega

/-- The cases in which reading over the sign of the exponent changes nothing. -/
def SignImmaterial : Prop :=
  numeral.exponentNegative = false ∨ numeral.mantissa = 0 ∨ digitsValue numeral.exponentDigits = 0 ∨
    ¬Safe (numeral.scaled (digitsValue numeral.exponentDigits)) ∧
      ¬Safe (numeral.scaled (-digitsValue numeral.exponentDigits))

/-- What is found is the exact value where the sign of the exponent is immaterial, and nowhere
else. -/
theorem exact_iff (hlength : numeral.text.length < 2 ^ 63) :
    (∀ n : Int, parseSafeInteger numeral.text = .ok (some n) ↔
      numeral.value = n ∧ |n| ≤ javascriptMaxSafeInteger) ↔ numeral.SignImmaterial := by
  unfold SignImmaterial Safe value
  simp only [numeral.parseSafeInteger_text hlength]
  cases numeral.exponentNegative with
  | false => simp
  | true =>
    generalize digitsValue numeral.exponentDigits = exponent
    simp only [Bool.true_eq_false, false_or, if_true, and_congr_left_iff]
    constructor
    · intro hsame
      by_cases hmantissa : numeral.mantissa = 0
      · exact .inl hmantissa
      by_cases hexponent : exponent = 0
      · exact .inr (.inl hexponent)
      refine .inr (.inr ?_)
      have hne : numeral.scaled exponent ≠ numeral.scaled (-exponent) := by
        intro heq
        have hpow := mul_left_cancel₀ (Int.cast_ne_zero.mpr hmantissa) heq
        have := zpow_right_injective₀ (by norm_num) (by norm_num) hpow
        omega
      constructor <;> rintro ⟨n, hn, hsafe⟩
      · exact hne (hn.trans ((hsame n hsafe).mp hn).symm)
      · exact hne (((hsame n hsafe).mpr hn).trans hn.symm)
    rintro (hmantissa | hexponent | ⟨hflipped, hvalue⟩) n hsafe
    · simp [scaled, hmantissa]
    · simp [hexponent]
    · exact ⟨fun h => absurd ⟨n, h, hsafe⟩ hflipped, fun h => absurd ⟨n, h, hsafe⟩ hvalue⟩

/-- The number of digits of the scaled number is in the range of an `i128`, or is not computed: the
number is zero, or the exponent alone is beyond the range. -/
def ExponentFits : Prop :=
  numeral.mantissa = 0 ∨ i128Max < digitsValue numeral.exponentDigits ∨
    (trimZeros numeral.coefficient).length +
      ((digitsValue numeral.exponentDigits : Int) - numeral.fraction.length) ≤ i128Max

/-- A parser of safe integers that returns for this lexeme, and reads it exactly. -/
def ReadExactly (parse : List UInt8 → Except Overflow (Option Int)) : Prop :=
  ∃ found, parse numeral.text = .ok found ∧
    ∀ n : Int, found = some n ↔ numeral.value = n ∧ |n| ≤ javascriptMaxSafeInteger

theorem mantissa_eq_zero : numeral.mantissa = 0 ↔ numeral.coefficient.all (· = 0x30) := by
  unfold mantissa
  constructor
  · intro hzero
    by_contra hsome
    have hpos := digitsValue_pos numeral.coefficient_digits hsome
    split at hzero <;> omega
  intro hzero
  simp [digitsValue_zeros (by simpa using hzero : ∀ d ∈ numeral.coefficient, d = 0x30)]

/-- The parser returns exactly when the digits can be counted. -/
theorem parseSafeInteger_returns (hlength : numeral.text.length < 2 ^ 63) :
    (∃ found, parseSafeInteger numeral.text = .ok found) ↔ numeral.ExponentFits := by
  unfold parseSafeInteger ExponentFits parseI128 exactDigits
  rw [numeral.splitNumberLexeme_text, mantissa_eq_zero]
  dsimp only
  by_cases hzero : numeral.coefficient.all (· = 0x30)
  · simp [hzero]
  rw [if_neg hzero, if_neg numeral.exponentDigits_ne_nil]
  by_cases hmax : (digitsValue numeral.exponentDigits : Int) ≤ i128Max
  swap
  · simp [hmax, Int.not_le.mp hmax]
  have htrim : (trimZeros numeral.coefficient).length ≤ numeral.coefficient.length :=
    (dropWhile_sublist _).length_le
  have hshort := numeral.coefficient_length_le
  have hfits : (2 : Int) ^ 63 ≤ i128Max := by decide
  rw [if_pos hmax]
  dsimp only
  split_ifs with hscale hover hmany
  · simp [hzero, hover, hmax, Except.map]
  · simp [Int.not_lt.mp hover, Except.map]
  · simp [Int.not_lt.mp hover, Except.map]
  all_goals
    simp only [Except.map, Except.ok.injEq, exists_eq', true_iff]
    omega

/-- Only the sign of the exponent is read wrongly: what is found is exact where that changes
nothing and the call returns, and nowhere else. -/
theorem readExactly_iff (hlength : numeral.text.length < 2 ^ 63) :
    numeral.ReadExactly parseSafeInteger ↔ numeral.SignImmaterial ∧ numeral.ExponentFits := by
  rw [← numeral.exact_iff hlength, ← numeral.parseSafeInteger_returns hlength]
  constructor
  · rintro ⟨found, hfound, hexact⟩
    refine ⟨fun n => ?_, found, hfound⟩
    rw [hfound, ← hexact n, Except.ok.injEq]
  rintro ⟨hexact, found, hfound⟩
  refine ⟨found, hfound, fun n => ?_⟩
  rw [← hexact n, hfound, Except.ok.injEq]

end Numeral

/-- A number lexeme is read as exactly the safe integer that it stands for, by either parser, if
and only if the sign of its exponent is immaterial and its size fits; the ids of two such lexemes
have one key if and only if they stand for one number. -/
theorem parseSafeInteger_exact_iff {lexeme : List UInt8} (hnumber : IsNumber lexeme)
    (hlength : lexeme.length < 2 ^ 63) :
    (∃ numeral : Numeral, numeral.text = lexeme) ∧ ∀ numeral : Numeral, numeral.text = lexeme →
      (numeral.ReadExactly parseSafeInteger ↔ numeral.SignImmaterial ∧ numeral.ExponentFits) ∧
      (numeral.ReadExactly parseSafeIntegerI64 ↔ numeral.SignImmaterial ∧ numeral.ExponentFits) ∧
      ∀ (other : Numeral) (m n : Int), other.text.length < 2 ^ 63 →
        numeral.SignImmaterial → other.SignImmaterial →
        parseSafeInteger numeral.text = .ok (some m) → parseSafeInteger other.text = .ok (some n) →
        ((OpaquePeerId.safeInteger m).canonicalKey = (OpaquePeerId.safeInteger n).canonicalKey ↔
          numeral.value = other.value) := by
  refine ⟨exists_numeral hnumber, ?_⟩
  rintro numeral rfl
  have hsame : parseSafeIntegerI64 numeral.text = parseSafeInteger numeral.text := by
    unfold parseSafeIntegerI64
    split
    · next hnil => simp [hnil, parseSafeInteger, splitNumberLexeme]
    · rfl
  refine ⟨numeral.readExactly_iff hlength, ?_, ?_⟩
  · unfold Numeral.ReadExactly
    rw [hsame]
    exact numeral.readExactly_iff hlength
  intro other m n hother hexact hexactOther hm hn
  have hvalue := (((numeral.exact_iff hlength).mpr hexact m).mp hm).1
  have hvalueOther := (((other.exact_iff hother).mpr hexactOther n).mp hn).1
  rw [hvalue, hvalueOther, Int.cast_inj]
  constructor
  · exact canonicalKey_injective
  · intro heq
    rw [heq]

/-- The lexeme `1.5e1`. -/
def fifteen : Numeral where
  negative := false
  integer := [0x31]
  fraction := [0x35]
  exponent := some ⟨0x65, [], [0x31], .inl rfl, .inl rfl, by decide, by simp; decide⟩
  integer_digits := ⟨by decide, by simp; decide⟩
  fraction_digits := by simp [AllDigits]; decide

theorem parseSafeInteger_exact_fraction :
    fifteen.text = [0x31, 0x2e, 0x35, 0x65, 0x31] ∧ fifteen.ReadExactly parseSafeInteger ∧
      fifteen.ReadExactly parseSafeIntegerI64 := by
  have hnumber : IsNumber fifteen.text :=
    ⟨[], [0x31], [0x2e, 0x35], [0x65, 0x31], rfl, .inl rfl, ⟨by decide, by simp; decide⟩, by decide,
      .inr ⟨[0x35], rfl, by decide, by simp; decide⟩,
      .inr ⟨0x65, [], [0x31], rfl, .inl rfl, .inl rfl, by decide, by simp; decide⟩⟩
  have hfits : fifteen.SignImmaterial ∧ fifteen.ExponentFits :=
    ⟨.inl rfl, .inr (.inr (by decide))⟩
  obtain ⟨hread, hcopy, -⟩ := (parseSafeInteger_exact_iff hnumber (by decide)).2 fifteen rfl
  exact ⟨rfl, hread.mpr hfits, hcopy.mpr hfits⟩

/-- `10e-1` is one, and is read as a hundred: it has the key of another id. -/
theorem negative_exponent_read_over : ∃ numeral other : Numeral,
    numeral.text = [0x31, 0x30, 0x65, 0x2d, 0x31] ∧ other.text = [0x31, 0x30, 0x30] ∧
      numeral.value = 1 ∧ other.value = 100 ∧
      parseSafeInteger numeral.text = .ok (some 100) ∧
      parseSafeIntegerI64 numeral.text = .ok (some 100) ∧
      parseSafeInteger other.text = .ok (some 100) ∧ ¬numeral.ReadExactly parseSafeInteger := by
  obtain ⟨numeral, htext, hvalue⟩ : ∃ numeral : Numeral,
      numeral.text = [0x31, 0x30, 0x65, 0x2d, 0x31] ∧ numeral.value = 1 := by
    refine ⟨⟨false, [0x31, 0x30], [],
      some ⟨0x65, [0x2d], [0x31], .inl rfl, .inr (.inr rfl), by decide, by simp; decide⟩,
      ⟨by decide, by simp; decide⟩, fun d hd => absurd hd not_mem_nil⟩, rfl, ?_⟩
    show ((10 : Int) : ℚ) * 10 ^ (-(1 : Nat) - (0 : Nat) : Int) = 1
    norm_num
  obtain ⟨other, hother, hvalueOther⟩ : ∃ other : Numeral,
      other.text = [0x31, 0x30, 0x30] ∧ other.value = 100 := by
    refine ⟨⟨false, [0x31, 0x30, 0x30], [], none, ⟨by decide, by simp; decide⟩,
      fun d hd => absurd hd not_mem_nil⟩, rfl, ?_⟩
    show ((100 : Int) : ℚ) * 10 ^ ((0 : Nat) - (0 : Nat) : Int) = 100
    norm_num
  have hread : parseSafeInteger numeral.text = .ok (some 100) := by rw [htext]; decide
  refine ⟨numeral, other, htext, hother, hvalue, hvalueOther, hread, by rw [htext]; decide,
    by rw [hother]; decide, fun ⟨found, hfound, hexact⟩ => ?_⟩
  rw [hread, Except.ok.injEq] at hfound
  have hsame := hvalue.symm.trans ((hexact 100).mp hfound.symm).1
  norm_num at hsame

end Skiff.WebSocket
