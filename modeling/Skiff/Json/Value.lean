import Skiff.Data.Double
import Mathlib.Data.List.Sort
import Mathlib.Data.String.Basic

/-!
# JSON values

The values of `serde_json`, with its three representations of a number: an unsigned
and a negative 64-bit integer, and a finite double. Objects are insertion-ordered
maps, so they are lists of fields with distinct keys.

`Same` says when two values have the same content: up to the order of keys, and with
numbers compared by their exact value.
-/

namespace Skiff.Json

open List

/-- `serde_json::Number`. The negative integers are those that are not `posInt`. -/
inductive Number where
  | posInt (n : U64)
  | negInt (i : { i : Int // -2 ^ 63 ≤ i ∧ i < 0 })
  | float (d : Double)
deriving DecidableEq

namespace Number

/-- The mathematical value. -/
def exact : Number → ℚ
  | posInt n => n.1
  | negInt i => i.1
  | float d => d.value

def asI64 : Number → Option I64
  | posInt n => if h : n.1 < 2 ^ 63 then some ⟨n.1, by omega⟩ else none
  | negInt i => some ⟨i.1, by omega⟩
  | float _ => none

def asU64 : Number → Option U64
  | posInt n => some n
  | _ => none

/-- Only asked about numbers that are no integers: there it is the double itself. -/
def asF64 : Number → Option Double
  | float d => some d
  | _ => none

def ofI64 (i : I64) : Number :=
  if h : i.1 < 0 then negInt ⟨i.1, i.2.1, h⟩ else posInt ⟨i.1.toNat, by omega⟩

@[simp] theorem exact_ofI64 (i : I64) : (ofI64 i).exact = (i.1 : ℚ) := by
  unfold ofI64
  split
  · rfl
  case isFalse h =>
    have hcast : ((i.1.toNat : Int) : ℚ) = (i.1 : ℚ) := by rw [Int.toNat_of_nonneg (by omega)]
    exact hcast

theorem ofI64_of_nonneg {i : I64} {n : U64} (h : i.1 = n.1) : ofI64 i = posInt n := by
  have hnonneg : ¬ i.1 < 0 := by omega
  rw [ofI64, dif_neg hnonneg]
  congr
  omega

theorem ofI64_of_neg {i : I64} {j : { j : Int // -2 ^ 63 ≤ j ∧ j < 0 }} (h : i.1 = j.1) :
    ofI64 i = negInt j := by
  have hneg : i.1 < 0 := by omega
  rw [ofI64, dif_pos hneg]
  congr

end Number

/-- The syntax of a value, before the keys of its objects are known to differ. -/
inductive Tree where
  | null
  | bool (value : Bool)
  | number (number : Number)
  | string (value : String)
  | array (items : List Tree)
  | object (fields : List (String × Tree))

namespace Tree

/-- Induction with the hypothesis for every item and every field. -/
@[elab_as_elim] theorem induct {P : Tree → Prop} (null : P .null) (bool : ∀ value, P (.bool value))
    (number : ∀ n, P (.number n)) (string : ∀ value, P (.string value))
    (array : ∀ items, (∀ item ∈ items, P item) → P (.array items))
    (object : ∀ fields, (∀ field ∈ fields, P field.2) → P (.object fields)) (v : Tree) : P v := by
  refine @Tree.rec P (fun items => ∀ item ∈ items, P item)
    (fun fields => ∀ field ∈ fields, P field.2)
    (fun field => P field.2) null bool number string array object ?_ ?_ ?_ ?_ ?_ v
  · intro item hitem
    cases hitem
  · intro head tail hhead htail item hitem
    obtain rfl | hitem := mem_cons.mp hitem
    · exact hhead
    · exact htail item hitem
  · intro field hfield
    cases hfield
  · intro head tail hhead htail field hfield
    obtain rfl | hfield := mem_cons.mp hfield
    · exact hhead
    · exact htail field hfield
  intro key value hvalue
  exact hvalue

mutual

/-- The same change to every number. -/
def mapNumbers (f : Number → Number) : Tree → Tree
  | .null => .null
  | .bool value => .bool value
  | .number n => .number (f n)
  | .string value => .string value
  | .array items => .array (mapItems f items)
  | .object fields => .object (mapFields f fields)

def mapItems (f : Number → Number) : List Tree → List Tree
  | [] => []
  | item :: rest => mapNumbers f item :: mapItems f rest

def mapFields (f : Number → Number) : List (String × Tree) → List (String × Tree)
  | [] => []
  | (key, value) :: rest => (key, mapNumbers f value) :: mapFields f rest

end

theorem mapItems_eq (f : Number → Number) (items : List Tree) :
    mapItems f items = items.map (mapNumbers f) := by
  induction items with
  | nil => rfl
  | cons item rest ih => rw [mapItems, ih, map_cons]

theorem mapFields_eq (f : Number → Number) (fields : List (String × Tree)) :
    mapFields f fields = fields.map fun field => (field.1, mapNumbers f field.2) := by
  induction fields with
  | nil => rfl
  | cons field rest ih => rw [mapFields, ih, map_cons]

/-- Some number of the tree satisfies `P`. -/
inductive HasNumber (P : Number → Prop) : Tree → Prop where
  | number {n} : P n → HasNumber P (.number n)
  | array {items item} : item ∈ items → HasNumber P item → HasNumber P (.array items)
  | object {fields field} : field ∈ fields → HasNumber P field.2 → HasNumber P (.object fields)

theorem HasNumber.mono {P Q : Number → Prop} {v : Tree} (h : v.HasNumber P)
    (himp : ∀ n, P n → Q n) : v.HasNumber Q := by
  induction h with
  | number hn => exact .number (himp _ hn)
  | array hitem _ ih => exact .array hitem ih
  | object hfield _ ih => exact .object hfield ih

/-- Every object has distinct keys. -/
inductive Distinct : Tree → Prop where
  | null : Distinct null
  | bool {value} : Distinct (bool value)
  | number {n} : Distinct (number n)
  | string {value} : Distinct (string value)
  | array {items} : (∀ item ∈ items, Distinct item) → Distinct (array items)
  | object {fields} : (fields.map Prod.fst).Nodup → (∀ field ∈ fields, Distinct field.2) →
      Distinct (object fields)

/-- The same content: fields may come in another order, and numbers in another
representation. -/
inductive Same : Tree → Tree → Prop where
  | null : Same null null
  | bool {value} : Same (bool value) (bool value)
  | number {a b} : a.exact = b.exact → Same (number a) (number b)
  | string {value} : Same (string value) (string value)
  | array {xs ys : List Tree} (length : xs.length = ys.length)
      (items : ∀ (i : Nat) (x y : Tree), xs[i]? = some x → ys[i]? = some y → Same x y) :
      Same (array xs) (array ys)
  | object {xs ys : List (String × Tree)}
      (keys : (xs.map Prod.fst).Perm (ys.map Prod.fst))
      (fields : ∀ (key : String) (x y : Tree), (key, x) ∈ xs → (key, y) ∈ ys → Same x y) :
      Same (object xs) (object ys)

theorem distinct_array {items : List Tree} :
    Distinct (array items) ↔ ∀ item ∈ items, Distinct item := by
  constructor
  · intro h
    cases h with
    | array hitems => exact hitems
  · exact .array

variable {fields : List (String × Tree)}

theorem distinct_object :
    Distinct (object fields) ↔
      (fields.map Prod.fst).Nodup ∧ ∀ field ∈ fields, Distinct field.2 := by
  constructor
  · intro h
    cases h with
    | object hkeys hfields => exact ⟨hkeys, hfields⟩
  rintro ⟨hkeys, hfields⟩
  exact .object hkeys hfields

theorem value_unique (h : (fields.map Prod.fst).Nodup) {key : String}
    {x y : Tree} (hx : (key, x) ∈ fields) (hy : (key, y) ∈ fields) : x = y := by
  have := inj_on_of_nodup_map h hx hy rfl
  exact (Prod.mk.inj this).2

theorem distinct_mapNumbers {f : Number → Number} {v : Tree} (h : v.Distinct) :
    (v.mapNumbers f).Distinct := by
  induction h with
  | null => exact .null
  | bool => exact .bool
  | number => exact .number
  | string => exact .string
  | array hitems ih =>
    rw [mapNumbers, mapItems_eq]
    refine .array fun item hitem => ?_
    obtain ⟨source, hsource, rfl⟩ := mem_map.mp hitem
    exact ih source hsource
  | object hkeys hfields ih =>
    rw [mapNumbers, mapFields_eq]
    refine .object ?_ fun field hfield => ?_
    · simpa [map_map, Function.comp_def] using hkeys
    obtain ⟨source, hsource, rfl⟩ := mem_map.mp hfield
    exact ih source hsource

/-- A change that alters the value of some number alters the content. -/
theorem not_same_mapNumbers {f : Number → Number} {v : Tree} (h : v.Distinct)
    (hchanged : HasNumber (fun n => (f n).exact ≠ n.exact) v) : ¬ Same v (v.mapNumbers f) := by
  induction hchanged with
  | number hn =>
    intro hsame
    cases hsame with
    | number hexact => exact hn hexact.symm
  | array hitem hchanged ih =>
    intro hsame
    rw [mapNumbers, mapItems_eq] at hsame
    cases hsame with
    | array length items =>
      obtain ⟨i, hi⟩ := mem_iff_getElem?.mp hitem
      exact ih (distinct_array.mp h _ hitem) (items i _ _ hi (by rw [getElem?_map, hi]; rfl))
  | object hfield hchanged ih =>
    intro hsame
    rw [mapNumbers, mapFields_eq] at hsame
    cases hsame with
    | object keys fields =>
      exact ih ((distinct_object.mp h).2 _ hfield)
        (fields _ _ _ hfield (mem_map.mpr ⟨_, hfield, rfl⟩))

end Tree

/-- `serde_json::Value`. -/
@[ext] structure Value where
  tree : Tree
  distinct : tree.Distinct

end Skiff.Json
