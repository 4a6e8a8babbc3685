import Mathlib.Algebra.BigOperators.Group.List.Basic
import Skiff.Data.OrdMap

/-!
# Tallies

A tally is a map from classes to positive numbers, without the classes that count zero.
`Tally.Counts` says that it counts a function. `OrdMap.tallyOf` counts the entries of a
map by the class of their value; what an insertion and an erasure do to it is what adding
to and taking from a tally does, so a tally that is kept beside a map goes on counting it.
-/

namespace Skiff

open Function

variable {κ : Type u} [LinearOrder κ] {γ : Type w} [LinearOrder γ] {α : Type v}

namespace OrdMap

/-- How many entries have a value of the class. -/
def tallyOf (f : α → γ) (m : OrdMap κ α) (c : γ) : Nat :=
  m.weight fun _ v => if f v = c then 1 else 0

variable {f : α → γ} {m : OrdMap κ α} {k : κ} {v old : α}

theorem tallyOf_insert (h : m.get? k = none) :
    tallyOf f (m.insert k v) = update (tallyOf f m) (f v) (tallyOf f m (f v) + 1) := by
  funext c
  have hweight := weight_insert (fun _ v => if f v = c then 1 else 0) m k v
  rw [weightAt, h, Option.elim_none, Nat.add_zero] at hweight
  rw [tallyOf, hweight]
  by_cases hc : f v = c
  · subst hc
    rw [update_self, if_pos rfl]
    rfl
  rw [update_of_ne (Ne.symm hc), if_neg hc, Nat.add_zero]
  rfl

/-- A new value of the same class counts as the old one. -/
theorem tallyOf_insert_of_eq (h : m.get? k = some old) (hf : f v = f old) :
    tallyOf f (m.insert k v) = tallyOf f m := by
  funext c
  have hweight := weight_insert (fun _ v => if f v = c then 1 else 0) m k v
  rw [weightAt, h, Option.elim_some, hf] at hweight
  exact Nat.add_right_cancel hweight

theorem tallyOf_erase_add (h : m.get? k = some old) (c : γ) :
    tallyOf f (m.erase k) c + (if f old = c then 1 else 0) = tallyOf f m c := by
  have hweight := weight_erase (fun _ v => if f v = c then 1 else 0) m k
  rw [weightAt, h, Option.elim_some] at hweight
  exact hweight

theorem tallyOf_pos (h : m.get? k = some old) : 0 < tallyOf f m (f old) := by
  have hadd := tallyOf_erase_add (f := f) h (f old)
  rw [if_pos rfl] at hadd
  omega

theorem tallyOf_eq_zero {c : γ} (h : ∀ k v, m.get? k = some v → f v ≠ c) : tallyOf f m c = 0 := by
  apply List.sum_eq_zero
  intro n hn
  obtain ⟨entry, hentry, rfl⟩ := List.mem_map.mp hn
  exact if_neg (h entry.1 entry.2 (get?_eq_some_iff.mpr hentry))

theorem tallyOf_erase (h : m.get? k = some old) :
    tallyOf f (m.erase k) = update (tallyOf f m) (f old) (tallyOf f m (f old) - 1) := by
  funext c
  have hadd := tallyOf_erase_add (f := f) h c
  by_cases hc : f old = c
  · subst hc
    rw [update_self]
    rw [if_pos rfl] at hadd
    omega
  rw [update_of_ne (Ne.symm hc)]
  rw [if_neg hc] at hadd
  omega

end OrdMap

namespace Tally

/-- The tally has the number of every class that counts, and no entry for the others. -/
def Counts (tally : OrdMap γ Nat) (count : γ → Nat) : Prop :=
  ∀ c, tally.get? c = if count c = 0 then none else some (count c)

variable {tally : OrdMap γ Nat} {count : γ → Nat} {c : γ}

theorem Counts.getD (h : Counts tally count) (c : γ) : (tally.get? c).getD 0 = count c := by
  rw [h c]
  split
  case isTrue hzero =>
    rw [hzero]
    rfl
  · rfl

theorem counts_empty : Counts (∅ : OrdMap γ Nat) fun _ => 0 := by
  intro c
  rw [OrdMap.get?_empty, if_pos rfl]

theorem Counts.insert {n : Nat} (h : Counts tally count) (hn : n ≠ 0) :
    Counts (tally.insert c n) (update count c n) := by
  intro d
  rw [OrdMap.get?_insert]
  by_cases hd : d = c
  · subst hd
    rw [if_pos rfl, update_self, if_neg hn]
  rw [if_neg hd, update_of_ne hd]
  exact h d

theorem Counts.erase (h : Counts tally count) : Counts (tally.erase c) (update count c 0) := by
  intro d
  rw [OrdMap.get?_erase]
  by_cases hd : d = c
  · subst hd
    rw [if_pos rfl, update_self, if_pos rfl]
  rw [if_neg hd, update_of_ne hd]
  exact h d

theorem Counts.unique {other : OrdMap γ Nat} (h : Counts tally count) (h' : Counts other count) :
    tally = other := by
  apply OrdMap.ext
  intro c
  rw [h c, h' c]

end Tally

end Skiff
