import Skiff.Data.Mut
import Mathlib.Order.Defs.PartialOrder

/-!
# Computations over a state that only grows

A computation that looks rows up in a table and adds those that are missing is `Stable`: it
only adds to the table, and run again on what it left, or on anything larger, it returns the
same result and adds nothing. Stable computations are closed under the sequencing rules.
-/

namespace Skiff

namespace Mut

variable {σ ε α β : Type} [Preorder σ]

/-- A success grows the state, and is the same success on every larger state. -/
structure Stable (m : Mut σ ε α) : Prop where
  grows : ∀ {s t : σ} {a : α}, m s = (.ok a, t) → s ≤ t
  again : ∀ {s t u : σ} {a : α}, m s = (.ok a, t) → t ≤ u → m u = (.ok a, u)

namespace Stable

theorem pure (a : α) : Stable (Pure.pure a : Mut σ ε α) where
  grows h := by
    obtain ⟨-, rfl⟩ := pure_eq_ok.mp h
    exact le_refl _
  again h _ := by
    obtain ⟨rfl, -⟩ := pure_eq_ok.mp h
    rfl

theorem fail (error : ε) : Stable (Mut.fail error : Mut σ ε α) where
  grows h := by cases h
  again h _ := by cases h

theorem ofExcept (x : Except ε α) : Stable (Mut.ofExcept x : Mut σ ε α) := by
  cases x with
  | ok a => exact .pure a
  | error error => exact .fail error

theorem bind {m : Mut σ ε α} {f : α → Mut σ ε β} (hm : Stable m) (hf : ∀ a, Stable (f a)) :
    Stable (m >>= f) where
  grows h := by
    obtain ⟨a, next, hfirst, hsecond⟩ := Mut.bind_eq_ok.mp h
    exact le_trans (hm.grows hfirst) ((hf a).grows hsecond)
  again h hle := by
    obtain ⟨a, next, hfirst, hsecond⟩ := Mut.bind_eq_ok.mp h
    have hnext := le_trans ((hf a).grows hsecond) hle
    exact Mut.bind_eq_ok.mpr ⟨a, _, hm.again hfirst hnext, (hf a).again hsecond hle⟩

/-- A look is stable when what it finds stays there. -/
theorem read {f : σ → Except ε α} (h : ∀ {s t : σ} {a : α}, f s = .ok a → s ≤ t → f t = .ok a) :
    Stable (Mut.read f) where
  grows hrun := by
    obtain ⟨-, rfl⟩ := Prod.mk.inj hrun
    exact le_refl _
  again hrun hle := by
    obtain ⟨hfound, rfl⟩ := Prod.mk.inj hrun
    exact Prod.ext (h hfound hle) rfl

theorem collect {f : α → Mut σ ε β} {items : List α} (h : ∀ item, Stable (f item)) :
    Stable (Mut.collect f items) := by
  induction items with
  | nil => exact .pure []
  | cons item rest ih => exact (h item).bind fun first => ih.bind fun others => .pure _

end Stable

end Mut

end Skiff
