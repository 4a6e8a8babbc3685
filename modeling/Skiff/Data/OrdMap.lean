import Mathlib.Data.List.Basic
import Mathlib.Algebra.Order.Ring.Nat

/-!
# Ordered finite maps

A finite map is a strictly increasing association list; the order is part of the
structure, so two maps with the same lookups are the same map and iteration order
is determined. This is the model of `BTreeMap`, and of `HashMap` wherever the
iteration order of the latter is not observed.

Nothing here mentions a particular key or value type. Later modules use the
lookup equations (`get?_insert`, `get?_erase`), extensionality, and the weight
equations, which say how a sum over all entries moves under one update.
-/

namespace Skiff

open List

/-- A finite map with its keys in strictly increasing order. -/
structure OrdMap (κ : Type u) [LinearOrder κ] (α : Type v) where
  entries : List (κ × α)
  sorted : entries.Pairwise (fun a b => a.1 < b.1)

namespace OrdMap

variable {κ : Type u} [LinearOrder κ] {α : Type v} {β : Type w}

/-! ## Operations on the underlying lists -/

def lookupList (k : κ) : List (κ × α) → Option α
  | [] => none
  | (k', v) :: rest => if k = k' then some v else lookupList k rest

def insertList (k : κ) (v : α) : List (κ × α) → List (κ × α)
  | [] => [(k, v)]
  | (k', v') :: rest =>
    if k < k' then (k, v) :: (k', v') :: rest
    else if k = k' then (k, v) :: rest
    else (k', v') :: insertList k v rest

variable {l : List (κ × α)} {k : κ} {v : α}

theorem mem_insertList {p : κ × α} (h : p ∈ insertList k v l) : p = (k, v) ∨ p ∈ l := by
  induction l with
  | nil => simpa [insertList] using h
  | cons q rest ih =>
    obtain ⟨k', v'⟩ := q
    simp only [insertList] at h
    split at h
    · simpa using h
    split at h
    · rcases mem_cons.mp h with h | h
      · exact .inl h
      · exact .inr (.tail _ h)
    rcases mem_cons.mp h with h | h
    · exact .inr (h ▸ (.head _))
    · exact (ih h).imp_right (mem_cons_of_mem _)

theorem sorted_insertList (h : l.Pairwise (fun a b => a.1 < b.1)) :
    (insertList k v l).Pairwise (fun a b => a.1 < b.1) := by
  induction l with
  | nil => simp [insertList]
  | cons q rest ih =>
    obtain ⟨k', v'⟩ := q
    obtain ⟨hq, hrest⟩ := pairwise_cons.mp h
    simp only [insertList]
    split
    · rename_i hlt
      refine pairwise_cons.mpr ⟨?_, h⟩
      intro p hp
      rcases mem_cons.mp hp with rfl | hp
      · exact hlt
      · exact lt_trans hlt (hq p hp)
    rename_i hnlt
    split
    · rename_i heq
      subst heq
      exact pairwise_cons.mpr ⟨hq, hrest⟩
    rename_i hne
    refine pairwise_cons.mpr ⟨?_, ih hrest⟩
    intro p hp
    rcases mem_insertList hp with rfl | hp
    · exact lt_of_le_of_ne (not_lt.mp hnlt) (Ne.symm hne)
    · exact hq p hp

theorem lookupList_eq_none_of_lt (h : ∀ p ∈ l, k < p.1) : lookupList k l = none := by
  induction l with
  | nil => rfl
  | cons q rest ih =>
    have hq : k ≠ q.1 := ne_of_lt (h q (.head _))
    simp only [lookupList, if_neg hq]
    exact ih (fun p hp => h p (.tail _ hp))

theorem lookupList_insertList (k j : κ) (v : α) (l : List (κ × α)) :
    lookupList j (insertList k v l) = if j = k then some v else lookupList j l := by
  induction l with
  | nil => simp [insertList, lookupList]
  | cons q rest ih =>
    obtain ⟨k', v'⟩ := q
    simp only [insertList]
    split
    · simp [lookupList]
    split
    · rename_i heq
      subst heq
      by_cases hj : j = k <;> simp [lookupList, hj]
    rename_i hne
    by_cases hj : j = k'
    · subst hj
      simp [lookupList, Ne.symm hne]
    · simp [lookupList, hj, ih]

theorem lookupList_eq_some_iff
    (h : l.Pairwise (fun a b => a.1 < b.1)) : lookupList k l = some v ↔ (k, v) ∈ l := by
  induction l with
  | nil => simp [lookupList]
  | cons q rest ih =>
    obtain ⟨k', v'⟩ := q
    obtain ⟨hq, hrest⟩ := pairwise_cons.mp h
    by_cases hk : k = k'
    · subst hk
      simp only [lookupList, if_true, Option.some.injEq, mem_cons, Prod.mk.injEq, true_and]
      constructor
      · rintro rfl
        exact .inl rfl
      rintro (rfl | hmem)
      · rfl
      · exact absurd (hq _ hmem) (lt_irrefl _)
    · simp [lookupList, hk, ih hrest]

theorem lookupList_filter_ne (k j : κ) (l : List (κ × α)) :
    lookupList j (l.filter (fun p => p.1 ≠ k)) = if j = k then none else lookupList j l := by
  induction l with
  | nil => simp [lookupList]
  | cons q rest ih =>
    obtain ⟨k', v'⟩ := q
    by_cases hk : k' = k
    · subst hk
      by_cases hj : j = k' <;> simp [lookupList, hj] at ih ⊢ <;> exact ih
    by_cases hj : j = k'
    · subst hj
      simp [lookupList, hk]
    · simpa [lookupList, hk, hj] using ih

/-! ## Maps -/

def empty : OrdMap κ α := ⟨[], .nil⟩

instance : EmptyCollection (OrdMap κ α) := ⟨empty⟩
instance : Inhabited (OrdMap κ α) := ⟨empty⟩

def get? (m : OrdMap κ α) (k : κ) : Option α := lookupList k m.entries

def contains (m : OrdMap κ α) (k : κ) : Bool := (m.get? k).isSome

def insert (m : OrdMap κ α) (k : κ) (v : α) : OrdMap κ α :=
  ⟨insertList k v m.entries, sorted_insertList m.sorted⟩

def erase (m : OrdMap κ α) (k : κ) : OrdMap κ α :=
  ⟨m.entries.filter (fun p => p.1 ≠ k), m.sorted.filter _⟩

def keys (m : OrdMap κ α) : List κ := m.entries.map Prod.fst

def values (m : OrdMap κ α) : List α := m.entries.map Prod.snd

def size (m : OrdMap κ α) : Nat := m.entries.length

/-- Apply `f` to every value, keeping the keys. -/
def map (f : α → β) (m : OrdMap κ α) : OrdMap κ β :=
  ⟨m.entries.map (fun p => (p.1, f p.2)), by
    rw [pairwise_map]
    exact m.sorted⟩

/-- The same with a function that also sees the key. -/
def mapWithKey (f : κ → α → β) (m : OrdMap κ α) : OrdMap κ β :=
  ⟨m.entries.map (fun p => (p.1, f p.1 p.2)), by
    rw [pairwise_map]
    exact m.sorted⟩

/-- Later pairs overwrite earlier ones, as collecting into a `BTreeMap` does. -/
def ofList (l : List (κ × α)) : OrdMap κ α := l.foldl (fun m p => m.insert p.1 p.2) ∅

@[simp] theorem get?_empty (k : κ) : (∅ : OrdMap κ α).get? k = none := rfl

@[simp] theorem entries_empty : (∅ : OrdMap κ α).entries = [] := rfl

variable (m : OrdMap κ α)

theorem get?_insert (k j : κ) (v : α) :
    (m.insert k v).get? j = if j = k then some v else m.get? j :=
  lookupList_insertList k j v m.entries

@[simp] theorem get?_insert_self (k : κ) (v : α) : (m.insert k v).get? k = some v := by
  simp [get?_insert]

theorem get?_insert_of_ne {k j : κ} (v : α) (h : j ≠ k) : (m.insert k v).get? j = m.get? j := by
  simp [get?_insert, h]

theorem get?_erase (k j : κ) : (m.erase k).get? j = if j = k then none else m.get? j :=
  lookupList_filter_ne k j m.entries

@[simp] theorem get?_erase_self (k : κ) : (m.erase k).get? k = none := by
  simp [get?_erase]

theorem get?_erase_of_ne {k j : κ} (h : j ≠ k) : (m.erase k).get? j = m.get? j := by
  simp [get?_erase, h]

variable {m : OrdMap κ α}

theorem get?_eq_some_iff : m.get? k = some v ↔ (k, v) ∈ m.entries := lookupList_eq_some_iff m.sorted

theorem get?_insert_eq_some {j : κ} {w : α} :
    (m.insert k v).get? j = some w ↔ j = k ∧ w = v ∨ j ≠ k ∧ m.get? j = some w := by
  rw [get?_insert]
  split <;> simp_all [eq_comm]

theorem get?_erase_eq_some {j : κ} : (m.erase k).get? j = some v ↔ j ≠ k ∧ m.get? j = some v := by
  rw [get?_erase]
  split <;> simp_all

theorem ne_of_get? {j : κ} (hj : m.get? j = some v) (hk : m.get? k = none) : j ≠ k := by
  rintro rfl
  rw [hk] at hj
  cases hj

theorem get?_insert_of_fresh {j : κ} {w : α} (hk : m.get? k = none) (hj : m.get? j = some w) :
    (m.insert k v).get? j = some w := by
  rw [get?_insert_of_ne _ _ (ne_of_get? hj hk)]
  exact hj

theorem contains_iff : m.contains k = true ↔ ∃ v, m.get? k = some v := Option.isSome_iff_exists

theorem mem_values_iff : v ∈ m.values ↔ ∃ k, m.get? k = some v := by
  simp [values, get?_eq_some_iff]

theorem mem_keys_iff : k ∈ m.keys ↔ ∃ v, m.get? k = some v := by
  simp [keys, get?_eq_some_iff]

theorem nodup_keys : m.keys.Nodup := by
  rw [keys, Nodup, pairwise_map]
  exact m.sorted.imp fun h => h.ne

theorem get?_map (f : α → β) (m : OrdMap κ α) (k : κ) : (m.map f).get? k = (m.get? k).map f := by
  change lookupList k (m.entries.map fun p => (p.1, f p.2)) = (lookupList k m.entries).map f
  induction m.entries with
  | nil => rfl
  | cons q rest ih => by_cases hk : k = q.1 <;> simp [lookupList, hk] at ih ⊢; exact ih

/-- The lists of two maps with the same lookups agree: the head key of a sorted
list is the least key that has a value. -/
theorem get?_mapWithKey (f : κ → α → β) (m : OrdMap κ α) (k : κ) :
    (m.mapWithKey f).get? k = (m.get? k).map (f k) := by
  obtain ⟨l, hl⟩ := m
  simp only [mapWithKey, get?]
  clear hl
  induction l with
  | nil => rfl
  | cons q rest ih =>
    simp only [map_cons, lookupList]
    by_cases hk : k = q.1
    · simp [hk]
    · simpa [hk] using ih

theorem ext {m n : OrdMap κ α} (h : ∀ k, m.get? k = n.get? k) : m = n := by
  obtain ⟨l, hl⟩ := m
  obtain ⟨r, hr⟩ := n
  simp only [get?] at h
  have hlr : l = r := by
    induction l generalizing r with
    | nil =>
      cases r with
      | nil => rfl
      | cons q rest => simpa [lookupList] using h q.1
    | cons p l ih =>
      obtain ⟨hp, hl'⟩ := pairwise_cons.mp hl
      cases r with
      | nil => simpa [lookupList] using h p.1
      | cons q rest =>
        obtain ⟨hq, hr'⟩ := pairwise_cons.mp hr
        obtain ⟨kp, vp⟩ := p
        obtain ⟨kq, vq⟩ := q
        have hkey : kp = kq := by
          rcases lt_trichotomy kp kq with hlt | heq | hgt
          · have hnone : lookupList kp ((kq, vq) :: rest) = none :=
              lookupList_eq_none_of_lt (by
                intro x hx
                rcases mem_cons.mp hx with rfl | hx
                · exact hlt
                · exact lt_trans hlt (hq x hx))
            have := h kp
            rw [hnone] at this
            simp [lookupList] at this
          · exact heq
          have hnone : lookupList kq ((kp, vp) :: l) = none :=
            lookupList_eq_none_of_lt (by
              intro x hx
              rcases mem_cons.mp hx with rfl | hx
              · exact hgt
              · exact lt_trans hgt (hp x hx))
          have := h kq
          rw [hnone] at this
          simp [lookupList] at this
        subst hkey
        have hval : vp = vq := by simpa [lookupList] using h kp
        subst hval
        have htail : ∀ k, lookupList k l = lookupList k rest := by
          intro k
          by_cases hk : k = kp
          · subst hk
            rw [lookupList_eq_none_of_lt (fun x hx => hp x hx),
              lookupList_eq_none_of_lt (fun x hx => hq x hx)]
          · simpa [lookupList, hk] using h k
        rw [ih hl' rest hr' htail]
  subst hlr
  rfl

theorem get?_foldl_erase {β : Type} (key : β → κ) (l : List β) (m : OrdMap κ α) (k : κ) :
    (l.foldl (fun m b => m.erase (key b)) m).get? k = if k ∈ l.map key then none else m.get? k := by
  induction l generalizing m with
  | nil => rfl
  | cons b rest ih =>
    rw [foldl_cons, ih, get?_erase, map_cons]
    by_cases hb : k = key b <;> simp [hb]

theorem get?_foldl_insert_of_not_mem (h : k ∉ l.map Prod.fst)
    (m : OrdMap κ α) : (l.foldl (fun m p => m.insert p.1 p.2) m).get? k = m.get? k := by
  induction l generalizing m with
  | nil => rfl
  | cons p rest ih =>
    rw [map_cons, mem_cons, not_or] at h
    rw [foldl_cons, ih h.2, get?_insert_of_ne _ _ h.1]

theorem get?_foldl_insert (hnodup : (l.map Prod.fst).Nodup) (hmem : (k, v) ∈ l) (m : OrdMap κ α) :
    (l.foldl (fun m p => m.insert p.1 p.2) m).get? k = some v := by
  induction l generalizing m with
  | nil => cases hmem
  | cons p rest ih =>
    rw [map_cons, nodup_cons] at hnodup
    rw [foldl_cons]
    obtain rfl | hrest := mem_cons.mp hmem
    · rw [get?_foldl_insert_of_not_mem hnodup.1, get?_insert_self]
    · exact ih hnodup.2 hrest _

theorem get?_ofList (hnodup : (l.map Prod.fst).Nodup)
    (hmem : (k, v) ∈ l) : (ofList l).get? k = some v :=
  get?_foldl_insert hnodup hmem ∅

/-- A key is found in a map made from a list only if it is in the list. -/
theorem mem_of_get?_ofList (hnodup : (l.map Prod.fst).Nodup)
    (h : (ofList l).get? k = some v) : (k, v) ∈ l := by
  by_cases hkey : k ∈ l.map Prod.fst
  · obtain ⟨entry, hentry, rfl⟩ := mem_map.mp hkey
    have hvalue := get?_ofList hnodup (show (entry.1, entry.2) ∈ l from hentry)
    rw [h] at hvalue
    cases hvalue
    exact hentry
  rw [ofList, get?_foldl_insert_of_not_mem hkey] at h
  cases h

/-- Mapping the values one by one and collecting them again maps the map. -/
theorem ofList_map_entries (f : α → β) (m : OrdMap κ α) :
    ofList (m.entries.map fun entry => (entry.1, f entry.2)) = m.map f := by
  have hkeys : (m.entries.map fun entry => (entry.1, f entry.2)).map Prod.fst = m.keys := by
    simp [keys]
  have hnodup : ((m.entries.map fun entry => (entry.1, f entry.2)).map Prod.fst).Nodup := by
    rw [hkeys]
    exact m.nodup_keys
  apply ext
  intro k
  cases hk : m.get? k with
  | some v =>
    have hmem : (k, f v) ∈ m.entries.map fun entry => (entry.1, f entry.2) :=
      mem_map.mpr ⟨(k, v), get?_eq_some_iff.mp hk, rfl⟩
    rw [get?_ofList hnodup hmem, get?_map, hk]
    rfl
  | none =>
    have hmem : k ∉ (m.entries.map fun entry => (entry.1, f entry.2)).map Prod.fst := by
      rw [hkeys, mem_keys_iff]
      rintro ⟨v, hv⟩
      rw [hk] at hv
      cases hv
    rw [ofList, get?_foldl_insert_of_not_mem hmem, get?_map, hk]
    rfl

theorem values_map (f : α → β) (m : OrdMap κ α) : (m.map f).values = m.values.map f := by
  simp [values, map]

theorem erase_insert_of_get?_eq_none (h : m.get? k = none) (v : α) :
    (m.insert k v).erase k = m := by
  apply ext
  intro j
  rw [get?_erase]
  split
  · rename_i hj
    rw [hj, h]
  rename_i hj
  exact get?_insert_of_ne m v hj

/-! ## Sums over the entries -/

/-- The sum of `f` over all entries. -/
def weight (f : κ → α → Nat) (m : OrdMap κ α) : Nat :=
  (m.entries.map fun entry => f entry.1 entry.2).sum

/-- The share of one key in such a sum. -/
def weightAt (f : κ → α → Nat) (m : OrdMap κ α) (k : κ) : Nat := (m.get? k).elim 0 (f k)

variable (f : κ → α → Nat)

@[simp] theorem weight_empty : (∅ : OrdMap κ α).weight f = 0 := rfl

theorem weight_insert (m : OrdMap κ α) (k : κ) (v : α) :
    (m.insert k v).weight f + m.weightAt f k = m.weight f + f k v := by
  obtain ⟨l, hl⟩ := m
  simp only [insert, weight, weightAt, get?]
  induction l with
  | nil => simp [insertList, lookupList]
  | cons q rest ih =>
    obtain ⟨k', v'⟩ := q
    obtain ⟨hq, hrest⟩ := pairwise_cons.mp hl
    simp only [insertList]
    split
    case isTrue hlt =>
      have hnone : lookupList k ((k', v') :: rest) = none :=
        lookupList_eq_none_of_lt fun p hp => by
          obtain rfl | hp := mem_cons.mp hp
          · exact hlt
          · exact hlt.trans (hq p hp)
      rw [hnone]
      simp
      omega
    split
    case isTrue heq =>
      subst heq
      simp [lookupList]
      omega
    case isFalse hne =>
      have hrest' := ih hrest
      simp only [lookupList, if_neg hne, map_cons, sum_cons]
      omega

theorem weight_erase (m : OrdMap κ α) (k : κ) :
    (m.erase k).weight f + m.weightAt f k = m.weight f := by
  obtain ⟨l, hl⟩ := m
  simp only [erase, weight, weightAt, get?]
  induction l with
  | nil => simp [lookupList]
  | cons q rest ih =>
    obtain ⟨k', v'⟩ := q
    obtain ⟨hq, hrest⟩ := pairwise_cons.mp hl
    have hrest' := ih hrest
    by_cases hk : k = k'
    · subst hk
      have hnone : lookupList k rest = none := lookupList_eq_none_of_lt hq
      simp only [hnone, Option.elim_none] at hrest'
      simp [lookupList]
      simp at hrest'
      omega
    simp [lookupList, hk, Ne.symm hk]
    simp at hrest'
    omega

end OrdMap
end Skiff
