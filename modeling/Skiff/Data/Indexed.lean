import Mathlib.Data.List.Nodup
import Skiff.Data.OrdMap

/-!
# Maps with a second index

A table that is kept beside an index: every entry of the table is found in the index under
the key that belongs to it, and the index names nothing else. `Indexed` says so; it is kept
when an entry with a new key is put into both and when one is taken out of both.
-/

namespace Skiff

open OrdMap

variable {κ : Type u} [LinearOrder κ] {ι : Type w} [LinearOrder ι] {α : Type v}

namespace OrdMap

/-- The entries whose value passes. -/
def filterValues (p : α → Bool) (m : OrdMap κ α) : OrdMap κ α :=
  ⟨m.entries.filter fun entry => p entry.2, m.sorted.filter _⟩

variable {m : OrdMap κ α}

theorem get?_filterValues {p : α → Bool} {k : κ} {v : α} :
    (m.filterValues p).get? k = some v ↔ m.get? k = some v ∧ p v = true := by
  rw [get?_eq_some_iff, get?_eq_some_iff]
  exact List.mem_filter

theorem size_eq_weight (m : OrdMap κ α) : m.size = m.weight fun _ _ => 1 := by
  simp [size, weight]

theorem size_insert {k : κ} (h : m.get? k = none) (v : α) : (m.insert k v).size = m.size + 1 := by
  have hweight := weight_insert (fun _ _ => 1) m k v
  rw [weightAt, h] at hweight
  rw [size_eq_weight, size_eq_weight]
  exact hweight

theorem size_insert_of_get? {k : κ} {v : α} (h : m.get? k = some v) (w : α) :
    (m.insert k w).size = m.size := by
  have hweight := weight_insert (fun _ _ => 1) m k w
  rw [weightAt, h, Option.elim_some] at hweight
  rw [size_eq_weight, size_eq_weight]
  omega

theorem size_erase_le (m : OrdMap κ α) (k : κ) : (m.erase k).size ≤ m.size := by
  have hweight := weight_erase (fun _ _ => 1) m k
  rw [size_eq_weight, size_eq_weight]
  omega

theorem nodup_map_values {f : α → κ} (h : ∀ {k v}, m.get? k = some v → f v = k) :
    (m.values.map f).Nodup := by
  have hkeys : m.values.map f = m.keys := by
    rw [values, keys, List.map_map]
    apply List.map_congr_left
    intro entry hentry
    exact h (get?_eq_some_iff.mpr hentry)
  rw [hkeys]
  exact m.nodup_keys

end OrdMap

/-- The index has the key of every entry of the table, and nothing else. -/
structure Indexed (table : OrdMap κ α) (index : OrdMap ι κ) (key : α → ι) : Prop where
  found : ∀ {k v}, table.get? k = some v → index.get? (key v) = some k
  names : ∀ {i k}, index.get? i = some k → ∃ v, table.get? k = some v ∧ key v = i

namespace Indexed

variable {table : OrdMap κ α} {index : OrdMap ι κ} {key : α → ι} {k : κ} {v : α}

theorem empty (key : α → ι) : Indexed (∅ : OrdMap κ α) ∅ key := by
  refine ⟨?_, ?_⟩
  · intro k v h
    cases h
  intro i k h
  cases h

theorem insert (h : Indexed table index key) (hk : table.get? k = none)
    (hkey : index.get? (key v) = none) :
    Indexed (table.insert k v) (index.insert (key v) k) key := by
  refine ⟨?_, ?_⟩
  · intro j w hj
    obtain ⟨heq, rfl⟩ | ⟨-, hj⟩ := get?_insert_eq_some.mp hj
    · rw [heq]
      exact get?_insert_self _ _ _
    exact get?_insert_of_fresh hkey (h.found hj)
  intro i j hi
  obtain ⟨heq, rfl⟩ | ⟨-, hi⟩ := get?_insert_eq_some.mp hi
  · exact ⟨v, get?_insert_self _ _ _, heq.symm⟩
  obtain ⟨w, hw, hi'⟩ := h.names hi
  exact ⟨w, get?_insert_of_fresh hk hw, hi'⟩

theorem erase (h : Indexed table index key) (hk : table.get? k = some v) :
    Indexed (table.erase k) (index.erase (key v)) key := by
  refine ⟨?_, ?_⟩
  · intro j w hj
    obtain ⟨hne, hj⟩ := get?_erase_eq_some.mp hj
    have hw := h.found hj
    rw [get?_erase_of_ne]
    · exact hw
    intro heq
    rw [heq, h.found hk] at hw
    exact hne (Option.some.inj hw).symm
  intro i j hi
  obtain ⟨hne, hi⟩ := get?_erase_eq_some.mp hi
  obtain ⟨w, hw, hi'⟩ := h.names hi
  refine ⟨w, ?_, hi'⟩
  rw [get?_erase_of_ne]
  · exact hw
  rintro rfl
  rw [hk] at hw
  cases hw
  exact hne hi'.symm

end Indexed

end Skiff
