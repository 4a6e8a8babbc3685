import Mathlib.Algebra.BigOperators.Group.List.Basic
import Mathlib.Tactic.Abel

/-!
# Entries exchanged in a list

`Swaps old new before after` says that `after` is `before` with the entries `old` taken out
and the entries `new` put in, wherever they stand. It describes updates of lists that are
used as bags: calls in progress, queues, arenas. A sum over the list then moves by what was
exchanged, and membership is decided by it.
-/

namespace Skiff

open List

/-- The entries `old` became the entries `new`; the others stayed. -/
def Swaps {α : Type u} (old new before after : List α) : Prop :=
  ∃ rest, before.Perm (old ++ rest) ∧ after.Perm (new ++ rest)

namespace Swaps

variable {α : Type u} {old new before after : List α}

variable {l : List α}

theorem refl : Swaps [] [] l l := ⟨l, .refl l, .refl l⟩

theorem append (l new : List α) : Swaps [] new l (l ++ new) := ⟨l, .refl l, List.perm_append_comm⟩

variable {x : α}

theorem eraseIdx {i : Nat} (h : l[i]? = some x) (new : List α) :
    Swaps [x] new l (l.eraseIdx i ++ new) := by
  obtain ⟨hi, rfl⟩ := List.getElem?_eq_some_iff.mp h
  exact ⟨l.eraseIdx i, (List.getElem_cons_eraseIdx_perm hi).symm, List.perm_append_comm⟩

theorem set {i : Nat} (h : l[i]? = some x) (y : α) : Swaps [x] [y] l (l.set i y) := by
  obtain ⟨hi, rfl⟩ := List.getElem?_eq_some_iff.mp h
  exact ⟨l.eraseIdx i, (List.getElem_cons_eraseIdx_perm hi).symm, List.set_perm_cons_eraseIdx hi y⟩

section

variable (h : Swaps old new before after)
include h

/-- How a sum over the list moves. -/
theorem sum {M : Type v} [AddCommMonoid M] (f : α → M) :
    (before.map f).sum + (new.map f).sum = (after.map f).sum + (old.map f).sum := by
  obtain ⟨rest, hbefore, hafter⟩ := h
  rw [(hbefore.map f).sum_eq, (hafter.map f).sum_eq]
  simp only [map_append, sum_append]
  abel

theorem mem_after (hx : x ∈ after) : x ∈ new ∨ x ∈ before := by
  obtain ⟨rest, hbefore, hafter⟩ := h
  obtain hnew | hrest := mem_append.mp (hafter.mem_iff.mp hx)
  · exact .inl hnew
  · exact .inr (hbefore.mem_iff.mpr (mem_append_right _ hrest))

theorem mem_before (hx : x ∈ before) : x ∈ old ∨ x ∈ after := by
  obtain ⟨rest, hbefore, hafter⟩ := h
  obtain hold | hrest := mem_append.mp (hbefore.mem_iff.mp hx)
  · exact .inl hold
  · exact .inr (hafter.mem_iff.mpr (mem_append_right _ hrest))

theorem old_mem (hx : x ∈ old) : x ∈ before := by
  obtain ⟨rest, hbefore, -⟩ := h
  exact hbefore.mem_iff.mpr (mem_append_left _ hx)

theorem new_mem (hx : x ∈ new) : x ∈ after := by
  obtain ⟨rest, -, hafter⟩ := h
  exact hafter.mem_iff.mpr (mem_append_left _ hx)

end

end Swaps
end Skiff
