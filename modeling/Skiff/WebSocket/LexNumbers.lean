import Skiff.WebSocket.LexStrings

/-!
# Numbers of the lexical parser

A number is read as far as it goes: what the grammar reads as one is read whole where no
byte follows that could continue it.
-/

namespace Skiff.WebSocket

open Json List

/-- The source does not start with such a byte. -/
def HeadNot (p : UInt8 → Bool) (source : List UInt8) : Prop :=
  ∀ b rest, source = b :: rest → p b = false

theorem HeadNot.cons {p : UInt8 → Bool} {b : UInt8} (h : p b = false) (rest : List UInt8) :
    HeadNot p (b :: rest) := by
  intro b' rest' heq
  cases heq
  exact h

theorem HeadNot.nil (p : UInt8 → Bool) : HeadNot p [] := by
  intro b rest heq
  cases heq

theorem HeadNot.mono {p q : UInt8 → Bool} {source : List UInt8} (h : HeadNot p source)
    (hle : ∀ b, q b = true → p b = true) : HeadNot q source := by
  intro b rest heq
  have hp := h b rest heq
  cases hq : q b with
  | false => rfl
  | true => rw [hle b hq] at hp; cases hp

/-- A byte that could continue a number. -/
def numberByte (b : UInt8) : Bool := isDigit b || b = 0x2e || b = 0x65 || b = 0x45

theorem lexDigits_sound {source digits rest : List UInt8}
    (h : lexDigits source = .ok (digits, rest)) :
    source = digits ++ rest ∧ IsDigits digits := by
  unfold lexDigits at h
  split at h
  · cases h
  case isFalse hsome =>
    cases h
    exact ⟨takeWhile_append_dropWhile.symm, hsome, fun d hd => all_eq_true.mp all_takeWhile d hd⟩

variable {digits rest : List UInt8}

theorem lexDigits_complete (h : IsDigits digits)
    (hrest : HeadNot isDigit rest) : lexDigits (digits ++ rest) = .ok (digits, rest) := by
  have hhead : rest.takeWhile isDigit = [] ∧ rest.dropWhile isDigit = rest := by
    cases rest with
    | nil => exact ⟨rfl, rfl⟩
    | cons b rest =>
      have hb := hrest b rest rfl
      rw [takeWhile_cons, dropWhile_cons, hb]
      exact ⟨rfl, rfl⟩
  have htake : (digits ++ rest).takeWhile isDigit = digits := by
    rw [takeWhile_append_of_pos h.2, hhead.1, append_nil]
  have hdrop : (digits ++ rest).dropWhile isDigit = rest := by
    rw [dropWhile_append_of_pos h.2, hhead.2]
  rw [lexDigits, htake, hdrop, if_neg h.1]

theorem lexFraction_sound {source fraction rest : List UInt8}
    (h : lexFraction source = .ok (fraction, rest)) :
    source = fraction ++ rest ∧ IsFraction fraction := by
  unfold lexFraction at h
  split at h
  · cases h
    exact ⟨rfl, .inl rfl⟩
  split at h
  case isTrue hpoint =>
    obtain ⟨⟨digits, next⟩, hdigits, hpure⟩ := bind_eq_ok.mp h
    cases hpure
    obtain ⟨rfl, hall⟩ := lexDigits_sound hdigits
    exact ⟨rfl, .inr ⟨digits, hpoint ▸ rfl, hall⟩⟩
  · cases h
    exact ⟨rfl, .inl rfl⟩

theorem lexFraction_complete {fraction rest : List UInt8} (h : IsFraction fraction)
    (hrest : HeadNot (fun b => isDigit b || b = 0x2e) rest) :
    lexFraction (fraction ++ rest) = .ok (fraction, rest) := by
  obtain rfl | ⟨digits, rfl, hdigits⟩ := h
  · cases rest with
    | nil => rfl
    | cons b rest =>
      have hb := hrest b rest rfl
      rw [Bool.or_eq_false_iff, decide_eq_false_iff_not] at hb
      rw [nil_append, lexFraction, if_neg hb.2]
  have hread := lexDigits_complete hdigits (hrest.mono fun b hb => by simp [hb])
  rw [cons_append, lexFraction, if_pos rfl, hread]
  rfl

theorem lexSign_append (isSign : UInt8 → Bool) (source : List UInt8) :
    (lexSign isSign source).1 ++ (lexSign isSign source).2 = source ∧
      ((lexSign isSign source).1 = [] ∨ ∃ b, (lexSign isSign source).1 = [b] ∧
        isSign b = true) := by
  cases source with
  | nil => exact ⟨rfl, .inl rfl⟩
  | cons b rest =>
    rw [lexSign]
    split
    case isTrue hb => exact ⟨rfl, .inr ⟨b, rfl, hb⟩⟩
    · exact ⟨rfl, .inl rfl⟩

theorem lexSign_complete {isSign : UInt8 → Bool} {sign rest : List UInt8}
    (h : sign = [] ∨ ∃ b, sign = [b] ∧ isSign b = true) (hrest : HeadNot isSign rest) :
    lexSign isSign (sign ++ rest) = (sign, rest) := by
  obtain rfl | ⟨b, rfl, hb⟩ := h
  · cases rest with
    | nil => rfl
    | cons b rest =>
      have hb := hrest b rest rfl
      rw [nil_append, lexSign, hb]
      rfl
  · rw [singleton_append, lexSign, if_pos hb]

theorem lexExponent_sound {source exponent rest : List UInt8}
    (h : lexExponent source = .ok (exponent, rest)) :
    source = exponent ++ rest ∧ IsExponent exponent := by
  unfold lexExponent at h
  split at h
  · cases h
    exact ⟨rfl, .inl rfl⟩
  case h_2 byte source =>
    split at h
    case isTrue hbyte =>
      rw [Bool.or_eq_true, decide_eq_true_eq, decide_eq_true_eq] at hbyte
      obtain ⟨happend, hsign⟩ := lexSign_append (fun b => b = 0x2b || b = 0x2d) source
      generalize lexSign (fun b => b = 0x2b || b = 0x2d) source = signed at h happend hsign
      obtain ⟨⟨digits, next⟩, hdigits, hpure⟩ := bind_eq_ok.mp h
      cases hpure
      obtain ⟨hsource, hall⟩ := lexDigits_sound hdigits
      refine ⟨?_, .inr ⟨byte, _, digits, rfl, hbyte, ?_, hall⟩⟩
      · rw [cons_append, append_assoc, ← hsource, happend]
      obtain hnil | ⟨b, hb, his⟩ := hsign
      · exact .inl hnil
      rw [Bool.or_eq_true, decide_eq_true_eq, decide_eq_true_eq] at his
      obtain rfl | rfl := his
      · exact .inr (.inl hb)
      · exact .inr (.inr hb)
    · cases h
      exact ⟨rfl, .inl rfl⟩

theorem digits_head (h : IsDigits digits) {p : UInt8 → Bool}
    (hp : ∀ b, isDigit b = true → p b = false) : HeadNot p (digits ++ rest) := by
  obtain ⟨hne, hall⟩ := h
  cases digits with
  | nil => exact absurd rfl hne
  | cons d digits => exact .cons (hp d (hall d (.head _))) _

theorem not_isDigit_of_sign {b : UInt8} (h : isDigit b = true) : b ≠ 0x2b ∧ b ≠ 0x2d := by
  constructor
  · rintro rfl
    cases h
  rintro rfl
  cases h

/-- The sign before the digits of a number. -/
theorem lexSign_minus {sign : List UInt8} (h : sign = [] ∨ sign = [0x2d])
    (hdigits : IsDigits digits) :
    lexSign (fun b => decide (b = 0x2d)) (sign ++ (digits ++ rest)) = (sign, digits ++ rest) := by
  refine lexSign_complete (h.imp_right fun hminus => ⟨_, hminus, rfl⟩) (digits_head hdigits ?_)
  exact fun b hb => decide_eq_false (not_isDigit_of_sign hb).2

theorem lexSign_exponent {sign : List UInt8} (h : sign = [] ∨ sign = [0x2b] ∨ sign = [0x2d])
    (hdigits : IsDigits digits) :
    lexSign (fun b => b = 0x2b || b = 0x2d) (sign ++ (digits ++ rest)) =
      (sign, digits ++ rest) := by
  refine lexSign_complete ?_ (digits_head hdigits fun b hb => by simp [not_isDigit_of_sign hb])
  exact h.imp_right fun hsign => hsign.elim (⟨_, ·, rfl⟩) (⟨_, ·, rfl⟩)

/-- An exponent continues neither the fraction nor the digits before it. -/
theorem HeadNot.exponent {exponent : List UInt8} (h : IsExponent exponent)
    (hrest : HeadNot (fun b => isDigit b || b = 0x2e) rest) :
    HeadNot (fun b => isDigit b || b = 0x2e) (exponent ++ rest) := by
  obtain rfl | ⟨e, sign, digits, rfl, he, -, -⟩ := h
  · exact hrest
  apply HeadNot.cons
  obtain rfl | rfl := he <;> rfl

theorem HeadNot.fraction {fraction : List UInt8} (h : IsFraction fraction)
    (hrest : HeadNot (fun b => isDigit b || b = 0x2e) rest) :
    HeadNot isDigit (fraction ++ rest) := by
  obtain rfl | ⟨digits, rfl, -⟩ := h
  · exact hrest.mono fun b hb => by simp [hb]
  · exact .cons rfl _

theorem lexExponent_complete {exponent rest : List UInt8} (h : IsExponent exponent)
    (hrest : HeadNot numberByte rest) : lexExponent (exponent ++ rest) = .ok (exponent, rest) := by
  obtain rfl | ⟨e, sign, digits, rfl, he, hsign, hdigits⟩ := h
  · cases rest with
    | nil => rfl
    | cons b rest =>
      have hb := hrest b rest rfl
      simp only [numberByte, Bool.or_eq_false_iff, decide_eq_false_iff_not] at hb
      rw [nil_append, lexExponent, if_neg]
      simp [hb.1.2, hb.2]
  have hnext := lexDigits_complete hdigits (hrest.mono fun b hb => by simp [numberByte, hb])
  rw [cons_append, append_assoc, lexExponent, if_pos (by simpa using he)]
  dsimp only
  rw [lexSign_exponent hsign hdigits, hnext]
  rfl

theorem lexNumber_sound {source lexeme rest : List UInt8}
    (h : lexNumber source = .ok (lexeme, rest)) :
    source = lexeme ++ rest ∧ IsNumber lexeme := by
  rw [lexNumber] at h
  obtain ⟨happend, hsign⟩ := lexSign_append (fun b => decide (b = 0x2d)) source
  generalize lexSign (fun b => decide (b = 0x2d)) source = signed at h happend hsign
  obtain ⟨⟨integer, next⟩, hinteger, hnext⟩ := bind_eq_ok.mp h
  obtain ⟨hsource, hdigits⟩ := lexDigits_sound hinteger
  dsimp only at hnext
  split at hnext
  · cases hnext
  case isFalse hzero =>
    obtain ⟨⟨fraction, next'⟩, hfraction, hnext⟩ := bind_eq_ok.mp hnext
    obtain ⟨⟨exponent, next''⟩, hexponent, hpure⟩ := bind_eq_ok.mp hnext
    cases hpure
    obtain ⟨rfl, hisFraction⟩ := lexFraction_sound hfraction
    obtain ⟨rfl, hisExponent⟩ := lexExponent_sound hexponent
    refine ⟨?_, _, integer, fraction, exponent, rfl, ?_, hdigits, ?_, hisFraction, hisExponent⟩
    · rw [← happend, hsource]
      simp only [append_assoc]
    · obtain hnil | ⟨b, hb, his⟩ := hsign
      · exact .inl hnil
      · exact .inr (of_decide_eq_true his ▸ hb)
    intro hhead
    have hpos : 0 < integer.length := length_pos_iff.mpr hdigits.1
    have hshort : ¬ 1 < integer.length := by simpa [hhead] using hzero
    omega

theorem lexNumber_complete {lexeme rest : List UInt8} (h : IsNumber lexeme)
    (hrest : HeadNot numberByte rest) : lexNumber (lexeme ++ rest) = .ok (lexeme, rest) := by
  obtain ⟨sign, integer, fraction, exponent, rfl, hsign, hdigits, hzero, hfraction, hexponent⟩ := h
  have hafterFraction : HeadNot (fun b => isDigit b || b = 0x2e) (exponent ++ rest) := by
    refine .exponent hexponent (hrest.mono fun b hb => ?_)
    simp only [numberByte, Bool.or_eq_true] at hb ⊢
    exact .inl (.inl hb)
  have hleading : ¬ (1 < integer.length && integer.head? = some 0x30) = true := by
    simp only [Bool.and_eq_true, decide_eq_true_eq, not_and]
    intro hlong hhead
    have hone := hzero hhead
    omega
  simp only [append_assoc]
  rw [lexNumber, lexSign_minus hsign hdigits]
  dsimp only
  rw [lexDigits_complete hdigits (.fraction hfraction hafterFraction)]
  change (if (1 < integer.length && integer.head? = some 0x30) = true then _ else
    (lexFraction (fraction ++ (exponent ++ rest)) >>= fun result => _)) = _
  rw [if_neg hleading, lexFraction_complete hfraction hafterFraction]
  change (lexExponent (exponent ++ rest) >>= fun result => _) = _
  rw [lexExponent_complete hexponent hrest]
  rfl

end Skiff.WebSocket
