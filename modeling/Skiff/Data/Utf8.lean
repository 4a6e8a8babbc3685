import Mathlib.Tactic.Common

/-!
# UTF-8 of single characters

What the bytes of one character look like: an ASCII character is its own byte, any other
one starts with a byte that tells how many follow, and has no ASCII byte.
-/

namespace Skiff

theorem validateUTF8_iff {bytes : List UInt8} :
    bytes.toByteArray.validateUTF8 = true ↔
      ∃ cs : List Char, bytes = cs.flatMap String.utf8EncodeChar := by
  rw [ByteArray.validateUTF8_eq_true_iff]
  constructor
  · rintro ⟨cs, h⟩
    exact ⟨cs, List.toByteArray_inj.mp h⟩
  rintro ⟨cs, rfl⟩
  exact ⟨cs, rfl⟩

theorem toNat_ofNat {n : Nat} (h : n.isValidChar) : (Char.ofNat n).toNat = n := by
  rw [Char.ofNat, dif_pos h]
  exact UInt32.toNat_ofNatLT

/-- How a byte that starts the UTF-8 of a character says how long it is. -/
def Starts (first : UInt8) (length : Nat) : Prop :=
  (0xc2 ≤ first.toNat ∧ first.toNat ≤ 0xdf ∧ length = 2) ∨
  (0xe0 ≤ first.toNat ∧ first.toNat ≤ 0xef ∧ length = 3) ∨
  (0xf0 ≤ first.toNat ∧ first.toNat ≤ 0xf4 ∧ length = 4)

theorem utf8EncodeChar_ascii {c : Char} (h : c.toNat ≤ 0x7f) :
    String.utf8EncodeChar c = [UInt8.ofNat c.toNat] := by
  unfold String.utf8EncodeChar
  change c.val.toNat ≤ 0x7f at h
  simp only [h, if_true]
  rfl

theorem utf8EncodeChar_wide {c : Char} (h : 0x7f < c.toNat) :
    ∃ first rest, String.utf8EncodeChar c = first :: rest ∧ Starts first (rest.length + 1) ∧
      ∀ b ∈ rest, 0x80 ≤ b.toNat := by
  have hle : c.toNat ≤ 0x10ffff := by
    have := c.valid
    unfold UInt32.isValidChar Nat.isValidChar at this
    change c.val.toNat ≤ _
    omega
  unfold String.utf8EncodeChar
  change 0x7f < c.val.toNat at h
  change c.val.toNat ≤ 0x10ffff at hle
  generalize c.val.toNat = n at h hle
  dsimp only
  rw [if_neg (by omega)]
  split
  · refine ⟨_, _, rfl, ?_, ?_⟩
    · simp [Starts]
      omega
    simp
    omega
  split
  · refine ⟨_, _, rfl, ?_, ?_⟩
    · simp [Starts]
      omega
    simp
    omega
  refine ⟨_, _, rfl, ?_, ?_⟩
  · simp [Starts]
    omega
  simp
  omega

end Skiff
