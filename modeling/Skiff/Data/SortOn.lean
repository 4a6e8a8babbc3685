import Mathlib.Data.List.Sort

/-!
# Sorting by a key

A list sorted by a key in a linear order. Sorting looks at the keys only, so it goes along with
every change that keeps them. Where the keys are distinct the order is strict, and a list has only
one strictly sorted permutation.
-/

namespace Skiff

open List

variable {α β γ : Type} [LinearOrder γ] {key : α → γ} {items others : List α}

/-- Sort by a key; items with one key keep their order. -/
def sortOn (key : α → γ) (items : List α) : List α :=
  items.insertionSort fun left right => key left ≤ key right

/-- The keys strictly increase. -/
def SortedOn (key : α → γ) (items : List α) : Prop :=
  items.Pairwise fun left right => key left < key right

theorem perm_sortOn (key : α → γ) (items : List α) : (sortOn key items).Perm items :=
  perm_insertionSort _ _

@[simp] theorem mem_sortOn {item : α} : item ∈ sortOn key items ↔ item ∈ items :=
  (perm_sortOn key items).mem_iff

@[simp] theorem length_sortOn : (sortOn key items).length = items.length :=
  (perm_sortOn key items).length_eq

theorem map_sortOn {key' : β → γ} {f : α → β} (h : ∀ item, key' (f item) = key item) :
    (sortOn key items).map f = sortOn key' (items.map f) := by
  apply map_insertionSort
  intro left _ right _
  rw [h, h]

theorem SortedOn.sortOn_eq (h : SortedOn key items) : sortOn key items = items :=
  (h.imp fun hlt => hlt.le).insertionSort_eq

theorem pairwise_sortOn (items : List α) :
    (sortOn key items).Pairwise fun left right => key left ≤ key right := by
  have : Std.Total fun left right : α => key left ≤ key right := ⟨fun _ _ => le_total _ _⟩
  have : IsTrans α fun left right => key left ≤ key right := ⟨fun _ _ _ => le_trans⟩
  exact pairwise_insertionSort _ items

theorem sortedOn_sortOn (h : (items.map key).Nodup) : SortedOn key (sortOn key items) := by
  have hle : (sortOn key items).Pairwise fun left right => key left ≤ key right :=
    pairwise_sortOn items
  have hne : (sortOn key items).Pairwise fun left right => key left ≠ key right :=
    pairwise_map.mp (((perm_sortOn key items).map key).nodup_iff.mpr h)
  exact (hle.and hne).imp fun hboth => lt_of_le_of_ne hboth.1 hboth.2

theorem SortedOn.eq_of_perm (h : SortedOn key items) (h' : SortedOn key others)
    (hperm : items.Perm others) : items = others := by
  apply hperm.eq_of_pairwise _ h h'
  intro left right _ _ hlt hgt
  exact absurd hgt hlt.asymm

theorem sortOn_eq_of_perm (h : (items.map key).Nodup) (hperm : items.Perm others) :
    sortOn key items = sortOn key others := by
  have h' : (others.map key).Nodup := (hperm.map key).nodup_iff.mp h
  apply (sortedOn_sortOn h).eq_of_perm (sortedOn_sortOn h')
  exact (perm_sortOn key items).trans (hperm.trans (perm_sortOn key others).symm)

omit [LinearOrder γ] in
/-- A permutation of the images comes from one of the items. -/
theorem exists_perm_of_map_perm {f : α → β} {images : List β} (h : (items.map f).Perm images) :
    ∃ others, items.Perm others ∧ others.map f = images := by
  generalize hstart : items.map f = start at h
  induction h generalizing items with
  | nil => exact ⟨items, .refl _, hstart⟩
  | cons image _ ih =>
    obtain ⟨item, rest, rfl, rfl, hrest⟩ := map_eq_cons_iff.mp hstart
    obtain ⟨others, hperm, hothers⟩ := ih hrest
    exact ⟨item :: others, hperm.cons item, by rw [map_cons, hothers]⟩
  | swap _ _ _ =>
    obtain ⟨item, rest, rfl, rfl, hrest⟩ := map_eq_cons_iff.mp hstart
    obtain ⟨item', rest', rfl, rfl, rfl⟩ := map_eq_cons_iff.mp hrest
    exact ⟨item' :: item :: rest', .swap _ _ _, rfl⟩
  | trans _ _ ih ih' =>
    obtain ⟨middle, hperm, hmiddle⟩ := ih hstart
    obtain ⟨others, hperm', hothers⟩ := ih' hmiddle
    exact ⟨others, hperm.trans hperm', hothers⟩

end Skiff
