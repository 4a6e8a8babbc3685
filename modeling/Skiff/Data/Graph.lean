import Mathlib.Data.Set.Basic
import Mathlib.Tactic.Common

/-!
# Graphs without cycles

Edges are a relation. `Acyclic.insert` is the rule for new edges out of one vertex,
`Acyclic.of_simulation` the one for a graph that maps into another.
`exists_step_outside` is what a search needs that turns back at its own path: a path can
be made to leave its first vertex for good.
-/

namespace Skiff

open Relation

variable {α : Type u} {β : Type v} {r r' : α → α → Prop}

/-- No path leads back to its start. -/
def Acyclic (r : α → α → Prop) : Prop := ∀ a, ¬ TransGen r a a

namespace Acyclic

/-- A path that may use the new edges is an old path, or goes through `t`. -/
theorem path_cases {t : α} {targets : Set α} (hback : ∀ v ∈ targets, ¬ ReflTransGen r v t)
    (hsub : ∀ a b, r' a b → r a b ∨ (a = t ∧ b ∈ targets)) {a b : α} (h : TransGen r' a b) :
    TransGen r a b ∨ (ReflTransGen r a t ∧ ∃ v ∈ targets, ReflTransGen r v b) := by
  induction h with
  | single hedge =>
    obtain hold | ⟨rfl, hv⟩ := hsub _ _ hedge
    · exact .inl (.single hold)
    · exact .inr ⟨.refl, _, hv, .refl⟩
  | tail _ hedge ih =>
    obtain hold | ⟨rfl, hv⟩ := hsub _ _ hedge
    · obtain hpath | ⟨hto, v, hv, hfrom⟩ := ih
      · exact .inl (hpath.tail hold)
      · exact .inr ⟨hto, v, hv, hfrom.tail hold⟩
    obtain hpath | ⟨_, v, hv', hfrom⟩ := ih
    · exact .inr ⟨hpath.to_reflTransGen, _, hv, .refl⟩
    · exact absurd hfrom (hback v hv')

/-- New edges out of `t` close no cycle when none of their ends leads to `t`. -/
theorem insert (h : Acyclic r) {t : α} {targets : Set α}
    (hback : ∀ v ∈ targets, ¬ ReflTransGen r v t)
    (hsub : ∀ a b, r' a b → r a b ∨ (a = t ∧ b ∈ targets)) : Acyclic r' := by
  intro a hcycle
  obtain hold | ⟨hto, v, hv, hfrom⟩ := path_cases hback hsub hcycle
  · exact h a hold
  · exact hback v hv (hfrom.trans hto)

/-- A graph has no cycle when its edges follow those of a graph without one. -/
theorem of_simulation {q : β → β → Prop} (h : Acyclic r) (image : β → α → Prop)
    (start : ∀ x y, q x y → ∃ a, image x a)
    (step : ∀ x y a, q x y → image x a → ∃ b, r a b ∧ image y b)
    (unique : ∀ x a b, image x a → image x b → a = b) : Acyclic q := by
  have follow : ∀ x y, TransGen q x y → ∀ a, image x a → ∃ b, TransGen r a b ∧ image y b := by
    intro x y hpath a ha
    induction hpath with
    | single hedge =>
      obtain ⟨b, hb, himage⟩ := step _ _ a hedge ha
      exact ⟨b, .single hb, himage⟩
    | tail _ hedge ih =>
      obtain ⟨b, hab, hb⟩ := ih
      obtain ⟨c, hc, himage⟩ := step _ _ b hedge hb
      exact ⟨c, hab.tail hc, himage⟩
  intro x hcycle
  obtain ⟨y, hedge, _⟩ := TransGen.head'_iff.mp hcycle
  obtain ⟨a, ha⟩ := start x y hedge
  obtain ⟨b, hab, hb⟩ := follow x x hcycle a ha
  exact h a (unique x a b ha hb ▸ hab)

end Acyclic

/-- Edges that enter no vertex of a set. -/
def Outside (r : α → α → Prop) (avoid : Set α) (a b : α) : Prop := r a b ∧ b ∉ avoid

theorem outside_empty (r : α → α → Prop) : Outside r ∅ = r := by
  funext a b
  simp [Outside]

/-- A path to another vertex can leave its first vertex for good. -/
theorem exists_step_outside {avoid : Set α} {a b : α} (h : ReflTransGen (Outside r avoid) a b)
    (hne : a ≠ b) :
    ∃ c, Outside r avoid a c ∧ c ≠ a ∧ ReflTransGen (Outside r (insert a avoid)) c b := by
  induction h with
  | refl => exact absurd rfl hne
  | @tail b b' _ hedge ih =>
    have hlast : b' ∉ insert a avoid := by
      rintro (heq | hmem)
      · exact hne heq.symm
      · exact hedge.2 hmem
    by_cases heq : a = b
    · subst heq
      exact ⟨b', hedge, fun h => hne h.symm, .refl⟩
    obtain ⟨c, hac, hca, hcb⟩ := ih heq
    exact ⟨c, hac, hca, hcb.tail ⟨hedge.1, hlast⟩⟩

end Skiff
