import Mathlib.Data.List.Induction
import Mathlib.Order.Bounds.Basic

/-!
# Labelled runs of a transition relation

`Run step s events t` says that the listed events, in this order, take `s` to `t`.
Interleavings of several callers are runs of the shared component: each atomic
call is one event, and nothing is assumed about who issues the next one.

The two rules used everywhere else are `Run.invariant`, for properties of the
state alone, and `Run.history`, for properties that also speak about the events
seen so far. Both ask for one step only.
-/

namespace Skiff

/-- A finite run with its event labels, in execution order. -/
inductive Run {σ : Type u} {ε : Type v} (step : σ → ε → σ → Prop) :
    σ → List ε → σ → Prop where
  | nil (s) : Run step s [] s
  | cons {s t u e es} : step s e t → Run step t es u → Run step s (e :: es) u

namespace Run

variable {σ : Type u} {ε : Type v} {step : σ → ε → σ → Prop} {s t : σ}

@[simp] theorem nil_iff : Run step s [] t ↔ s = t := by
  constructor
  · intro h
    cases h
    rfl
  rintro rfl
  exact .nil s

variable {es : List ε}

variable {e : ε}

theorem cons_iff {s u : σ} : Run step s (e :: es) u ↔ ∃ t, step s e t ∧ Run step t es u := by
  constructor
  · intro h
    cases h with
    | cons hs hr => exact ⟨_, hs, hr⟩
  rintro ⟨t, hs, hr⟩
  exact .cons hs hr

theorem single (h : step s e t) : Run step s [e] t := .cons h (.nil t)

theorem trans {s t u : σ} {es fs : List ε} (h₁ : Run step s es t) (h₂ : Run step t fs u) :
    Run step s (es ++ fs) u := by
  induction h₁ with
  | nil => exact h₂
  | cons hs _ ih => exact .cons hs (ih h₂)

theorem append_iff {s u : σ} {es fs : List ε} :
    Run step s (es ++ fs) u ↔ ∃ t, Run step s es t ∧ Run step t fs u := by
  constructor
  · intro h
    induction es generalizing s with
    | nil => exact ⟨s, .nil s, h⟩
    | cons e es ih =>
      obtain ⟨t, hs, hr⟩ := cons_iff.mp h
      obtain ⟨v, hv, hu⟩ := ih hr
      exact ⟨v, .cons hs hv, hu⟩
  rintro ⟨t, h₁, h₂⟩
  exact h₁.trans h₂

theorem snoc_iff {s u : σ} : Run step s (es ++ [e]) u ↔ ∃ t, Run step s es t ∧ step t e u := by
  simp [append_iff, cons_iff]

/-- A run of the narrower relation is one of the wider. -/
theorem mono {step' : σ → ε → σ → Prop} (hle : ∀ {s e t}, step s e t → step' s e t)
    (h : Run step s es t) : Run step' s es t := by
  induction h with
  | nil => exact .nil _
  | cons hs _ ih => exact .cons (hle hs) ih

theorem step_of_mem (h : Run step s es t) (hmem : e ∈ es) : ∃ u v, step u e v := by
  induction h with
  | nil => cases hmem
  | cons hstep _ ih =>
    obtain rfl | hmem := List.mem_cons.mp hmem
    · exact ⟨_, _, hstep⟩
    · exact ih hmem

/-- Every list of events is a run of a component that computes its next state. -/
theorem of_foldl (f : σ → ε → σ) (s : σ) (es : List ε) :
    Run (fun s e t => f s e = t) s es (es.foldl f s) := by
  induction es generalizing s with
  | nil => exact .nil s
  | cons e es ih => exact .cons rfl (ih (f s e))

/-- A property of the state that every step keeps holds along every run. -/
theorem invariant {P : σ → Prop} (kept : ∀ {s e t}, P s → step s e t → P t) (h : Run step s es t)
    (hs : P s) : P t := by
  induction h with
  | nil => exact hs
  | cons hstep _ ih => exact ih (kept hs hstep)

/-- A property of the events so far and the present state, established by one
step at the end of the history. -/
theorem history {P : List ε → σ → Prop} {s₀ : σ} (start : P [] s₀)
    (kept : ∀ {es s e t}, Run step s₀ es s → P es s → step s e t → P (es ++ [e]) t)
    {t : σ} (h : Run step s₀ es t) : P es t := by
  induction es using List.reverseRecOn generalizing t with
  | nil =>
    cases h
    exact start
  | append_singleton es e ih =>
    obtain ⟨s, hr, hs⟩ := snoc_iff.mp h
    exact kept hr (ih hr) hs

/-- The states of a run, its end included. -/
def visited (step : σ → ε → σ → Prop) (s₀ : σ) (es : List ε) : Set σ :=
  {u | ∃ before, before <+: es ∧ Run step s₀ before u}

/-- An event has at most one outcome. -/
def Functional (step : σ → ε → σ → Prop) : Prop := ∀ s e t t', step s e t → step s e t' → t = t'

theorem functional (hstep : Functional step) {s t t' : σ}
    (h : Run step s es t) (h' : Run step s es t') : t = t' := by
  induction h with
  | nil => exact nil_iff.mp h'
  | cons hs _ ih =>
    obtain ⟨u, hu, hr⟩ := cons_iff.mp h'
    obtain rfl := hstep _ _ _ _ hs hu
    exact ih hr

theorem visited_snoc (hstep : Functional step) {s₀ s t : σ} (hrun : Run step s₀ es s)
    (hs : step s e t) :
    visited step s₀ (es ++ [e]) = insert t (visited step s₀ es) := by
  have hlast : Run step s₀ (es ++ [e]) t := hrun.trans (single hs)
  ext u
  constructor
  · rintro ⟨before, hinit, hu⟩
    obtain heq | hinit := List.prefix_concat_iff.mp hinit
    · rw [heq] at hu
      exact .inl (functional hstep hu hlast)
    · exact .inr ⟨before, hinit, hu⟩
  rintro (rfl | ⟨before, hinit, hu⟩)
  · exact ⟨es ++ [e], List.prefix_refl _, hlast⟩
  · exact ⟨before, hinit.trans (List.prefix_append _ _), hu⟩

/-- A running maximum is the greatest value of the run. -/
theorem isGreatest (value peak : σ → Nat)
    (hstep : Functional step) {s₀ : σ} (start : peak s₀ = value s₀)
    (kept : ∀ {es s e t}, Run step s₀ es s → step s e t → peak t = max (peak s) (value t))
    {t : σ} (h : Run step s₀ es t) :
    IsGreatest (value '' visited step s₀ es) (peak t) := by
  refine history (P := fun es t => IsGreatest (value '' visited step s₀ es) (peak t)) ?_ ?_ h
  · have hstart : visited step s₀ [] = {s₀} := by
      ext u
      simp [visited, eq_comm]
    rw [hstart, Set.image_singleton, start]
    exact isGreatest_singleton
  intro es s e t hrun hgreatest hs
  rw [visited_snoc hstep hrun hs, Set.image_insert_eq, kept hrun hs, max_comm]
  exact hgreatest.insert (value t)

end Run
end Skiff
