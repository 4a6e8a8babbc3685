import Skiff.Json.Value

/-!
# Canonical JSON

`canonical-json/src/lib.rs`: keys are sorted recursively and integral numbers become
integers. The canonical form keeps the content of a value, with one exception. The
upper end of the range test is `i64::MAX as f64`, which rounds up to `2 ^ 63`, so the
double `2 ^ 63` passes it and the saturating cast turns it into the integer
`2 ^ 63 - 1`.
-/

namespace Skiff.Json

open Double Json.Tree List Number

/-! ## Numbers -/

/-- The double is at least, or at most, the double nearest to an integer. -/
def atLeast (d : Double) (i : I64) : Bool := nearest i.1 * one ≤ d.scaled
def atMost (d : Double) (i : I64) : Bool := d.scaled ≤ nearest i.1 * one

def canonicalJsonNumber (number : Number) : Number :=
  match number.asI64 with
  | some value => .ofI64 value
  | none =>
    match number.asU64 with
    | some value => .posInt value
    | none =>
      match number.asF64 with
      | some value =>
        -- Doubles are finite here; `Number` holds no others.
        if value.fract = 0 ∧ atLeast value I64.least ∧ atMost value I64.greatest then
          .ofI64 value.toI64
        else number
      | none => number

theorem canonicalJsonNumber_posInt (n : U64) : canonicalJsonNumber (.posInt n) = .posInt n := by
  unfold canonicalJsonNumber
  by_cases h : n.1 < 2 ^ 63
  · rw [asI64, dif_pos h]
    exact ofI64_of_nonneg rfl
  rw [asI64, dif_neg h]
  rfl

theorem canonicalJsonNumber_negInt (i : { i : Int // -2 ^ 63 ≤ i ∧ i < 0 }) :
    canonicalJsonNumber (.negInt i) = .negInt i :=
  ofI64_of_neg rfl

theorem canonicalJsonNumber_float (d : Double) :
    canonicalJsonNumber (.float d) =
      if d.fract = 0 ∧ -2 ^ 63 * one ≤ d.scaled ∧ d.scaled ≤ 2 ^ 63 * one then
        .ofI64 d.toI64
      else .float d := by
  obtain ⟨hleast, hgreatest⟩ := nearest_ends
  simp only [canonicalJsonNumber, asI64, asU64, asF64, atLeast, atMost,
    decide_eq_true_eq, hleast, hgreatest]

/-- The double just outside the signed range. -/
def IsTwoPow63 (n : Number) : Prop := ∃ d, n = .float d ∧ d.value = ((2 ^ 63 : Int) : ℚ)

theorem canonicalJsonNumber_twoPow63 {n : Number} (h : IsTwoPow63 n) :
    canonicalJsonNumber n = .posInt ⟨2 ^ 63 - 1, by decide⟩ := by
  obtain ⟨d, rfl, hvalue⟩ := h
  have hscaled := value_eq_intCast.mp hvalue
  have hone := one_pos
  have htrunc : d.scaled.tdiv one = 2 ^ 63 := by
    rw [hscaled, Int.mul_tdiv_cancel _ hone.ne']
  have hinside : d.fract = 0 ∧ -2 ^ 63 * one ≤ d.scaled ∧ d.scaled ≤ 2 ^ 63 * one := by
    refine ⟨fract_eq_zero.mpr (by rw [htrunc, hscaled]), ?_, hscaled.le⟩
    rw [hscaled]
    exact mul_le_mul_of_nonneg_right (by decide) hone.le
  rw [canonicalJsonNumber_float, if_pos hinside]
  apply ofI64_of_nonneg
  rw [toI64, htrunc]
  exact I64.saturate_of_ge (by decide)

/-- A number keeps its value exactly when it is not that double. -/
theorem exact_canonicalJsonNumber_iff {n : Number} :
    (canonicalJsonNumber n).exact = n.exact ↔ ¬ IsTwoPow63 n := by
  constructor
  · intro hexact htwo
    rw [canonicalJsonNumber_twoPow63 htwo] at hexact
    obtain ⟨d, rfl, hvalue⟩ := htwo
    rw [exact, exact, hvalue] at hexact
    norm_num at hexact
  intro htwo
  cases n with
  | posInt n => rw [canonicalJsonNumber_posInt]
  | negInt i => rw [canonicalJsonNumber_negInt]
  | float d =>
    rw [canonicalJsonNumber_float]
    split
    case isFalse => rfl
    case isTrue hinside =>
      obtain ⟨hfract, hlow, hhigh⟩ := hinside
      have hone := one_pos
      have hscaled := fract_eq_zero.mp hfract
      have hne : d.scaled.tdiv one ≠ 2 ^ 63 := by
        intro htrunc
        exact htwo ⟨d, rfl, value_eq_intCast.mpr (by rw [hscaled, htrunc])⟩
      rw [hscaled] at hlow hhigh
      have hlow' := le_of_mul_le_mul_right hlow hone
      have hhigh' := le_of_mul_le_mul_right hhigh hone
      have hinteger : d.toI64.1 = d.scaled.tdiv one := I64.saturate_of_le hlow' (by omega)
      rw [exact_ofI64, hinteger]
      exact (value_eq_intCast.mpr hscaled).symm

/-! ## Objects -/

/-- `Map::get`. -/
def getField : List (String × Tree) → String → Option Tree
  | [], _ => none
  | (name, value) :: rest, key => if name = key then some value else getField rest key

/-- `Map::insert` on an insertion-ordered map. -/
def insertField : List (String × Tree) → String → Tree → List (String × Tree)
  | [], key, value => [(key, value)]
  | (name, old) :: rest, key, value =>
    if name = key then (key, value) :: rest else (name, old) :: insertField rest key value

def insertIfPresent (fields sorted : List (String × Tree)) (key : String) : List (String × Tree) :=
  match getField fields key with
  | some nested => insertField sorted key nested
  | none => sorted

/-- The loop over the sorted keys of an object. -/
def sortFields (fields : List (String × Tree)) : List (String × Tree) :=
  ((fields.map Prod.fst).insertionSort (· ≤ ·)).foldl (insertIfPresent fields) []

section Objects

variable {fields : List (String × Tree)} {key : String}

theorem getField_of_mem (h : (fields.map Prod.fst).Nodup) {value : Tree}
    (hmem : (key, value) ∈ fields) : getField fields key = some value := by
  induction fields with
  | nil => cases hmem
  | cons field rest ih =>
    obtain ⟨name, old⟩ := field
    simp only [map_cons, nodup_cons] at h
    obtain hhead | hrest := mem_cons.mp hmem
    · cases hhead
      simp [getField]
    have hne : name ≠ key := by
      rintro rfl
      exact h.1 (mem_map.mpr ⟨_, hrest, rfl⟩)
    simp [getField, hne, ih h.2 hrest]

theorem insertField_of_notMem {sorted : List (String × Tree)} (h : key ∉ sorted.map Prod.fst)
    (value : Tree) : insertField sorted key value = sorted ++ [(key, value)] := by
  induction sorted with
  | nil => rfl
  | cons field rest ih =>
    obtain ⟨name, old⟩ := field
    simp only [map_cons, mem_cons, not_or] at h
    simp [insertField, Ne.symm h.1, ih h.2]

/-- The loop appends one field for every key that is left. -/
theorem foldl_insertIfPresent (hfields : (fields.map Prod.fst).Nodup) {keys : List String}
    (sorted : List (String × Tree)) (hkeys : keys.Nodup)
    (hpresent : ∀ key ∈ keys, key ∈ fields.map Prod.fst)
    (hfresh : ∀ key ∈ keys, key ∉ sorted.map Prod.fst) :
    ∃ added, keys.foldl (insertIfPresent fields) sorted = sorted ++ added ∧
      added.map Prod.fst = keys ∧ ∀ field ∈ added, field ∈ fields := by
  induction keys generalizing sorted with
  | nil => exact ⟨[], by simp, rfl, by simp⟩
  | cons key rest ih =>
    obtain ⟨hnotMem, hrest⟩ := nodup_cons.mp hkeys
    obtain ⟨⟨name, value⟩, hfield, rfl⟩ := mem_map.mp (hpresent key (.head _))
    have hstep : insertIfPresent fields sorted name = sorted ++ [(name, value)] := by
      rw [insertIfPresent, getField_of_mem hfields hfield]
      exact insertField_of_notMem (hfresh name (.head _)) value
    have hfresh' : ∀ key ∈ rest, key ∉ (sorted ++ [(name, value)]).map Prod.fst := by
      intro other hother
      have hne : other ≠ name := by
        rintro rfl
        exact hnotMem hother
      simpa [hne] using hfresh other (mem_cons_of_mem _ hother)
    obtain ⟨added, hfold, hnames, hmem⟩ := ih _ hrest
      (fun other hother => hpresent other (.tail _ hother)) hfresh'
    refine ⟨(name, value) :: added, ?_, ?_, ?_⟩
    · rw [foldl_cons, hstep, hfold, append_assoc, singleton_append]
    · rw [map_cons, hnames]
    intro field hadded
    obtain rfl | hadded := mem_cons.mp hadded
    · exact hfield
    · exact hmem field hadded

/-- What the loop computes on distinct keys: the same fields, under sorted keys. -/
theorem sortFields_spec (h : (fields.map Prod.fst).Nodup) :
    (sortFields fields).map Prod.fst = (fields.map Prod.fst).insertionSort (· ≤ ·) ∧
      ∀ field, field ∈ sortFields fields ↔ field ∈ fields := by
  have hperm := perm_insertionSort (· ≤ ·) (fields.map Prod.fst)
  obtain ⟨added, hfold, hnames, hmem⟩ := foldl_insertIfPresent h []
    (hperm.nodup_iff.mpr h) (fun key hkey => hperm.mem_iff.mp hkey) (by simp)
  have hsorted : sortFields fields = added := by
    rw [sortFields, hfold, nil_append]
  rw [hsorted]
  refine ⟨hnames, fun field => ⟨hmem field, fun hfield => ?_⟩⟩
  -- Its key is among the added ones, with a value that is unique in the object.
  have hkey : field.1 ∈ added.map Prod.fst := by
    rw [hnames, hperm.mem_iff]
    exact mem_map.mpr ⟨field, hfield, rfl⟩
  obtain ⟨other, hother, hname⟩ := mem_map.mp hkey
  have hsame : other = field := inj_on_of_nodup_map h (hmem other hother) hfield hname
  exact hsame ▸ hother

theorem nodup_sortFields (h : (fields.map Prod.fst).Nodup) :
    ((sortFields fields).map Prod.fst).Nodup := by
  rw [(sortFields_spec h).1]
  exact (perm_insertionSort _ _).nodup_iff.mpr h

end Objects

/-! ## Values -/

mutual

/-- The nested values are converted before the loop over the keys, which only moves
them. -/
def canonicalJsonTree : Tree → Tree
  | .array items => .array (canonicalItems items)
  | .object fields => .object (sortFields (canonicalFields fields))
  | .number n => .number (canonicalJsonNumber n)
  | .null => .null
  | .bool value => .bool value
  | .string value => .string value

def canonicalItems : List Tree → List Tree
  | [] => []
  | item :: rest => canonicalJsonTree item :: canonicalItems rest

def canonicalFields : List (String × Tree) → List (String × Tree)
  | [] => []
  | (key, value) :: rest => (key, canonicalJsonTree value) :: canonicalFields rest

end

theorem canonicalItems_eq (items : List Tree) :
    canonicalItems items = items.map canonicalJsonTree := by
  induction items with
  | nil => rfl
  | cons item rest ih => rw [canonicalItems, ih, map_cons]

theorem canonicalFields_eq (fields : List (String × Tree)) :
    canonicalFields fields = fields.map fun field => (field.1, canonicalJsonTree field.2) := by
  induction fields with
  | nil => rfl
  | cons field rest ih => rw [canonicalFields, ih, map_cons]

@[simp] theorem keys_canonicalFields (fields : List (String × Tree)) :
    (canonicalFields fields).map Prod.fst = fields.map Prod.fst := by
  simp [canonicalFields_eq, Function.comp_def]

theorem mem_canonicalFields {fields : List (String × Tree)} {key : String} {value : Tree}
    (h : (key, value) ∈ fields) : (key, canonicalJsonTree value) ∈ canonicalFields fields := by
  rw [canonicalFields_eq]
  exact mem_map.mpr ⟨_, h, rfl⟩

theorem distinct_canonicalJsonTree {v : Tree} (h : v.Distinct) :
    (canonicalJsonTree v).Distinct := by
  induction h with
  | null => exact .null
  | bool => exact .bool
  | number => exact .number
  | string => exact .string
  | array hitems ih =>
    rw [canonicalJsonTree, canonicalItems_eq]
    refine .array fun item hitem => ?_
    obtain ⟨source, hsource, rfl⟩ := mem_map.mp hitem
    exact ih source hsource
  | @object fields hkeys hfields ih =>
    have hcanonical : ((canonicalFields fields).map Prod.fst).Nodup := by
      rwa [keys_canonicalFields]
    rw [canonicalJsonTree]
    refine .object (nodup_sortFields hcanonical) fun field hfield => ?_
    rw [(sortFields_spec hcanonical).2, canonicalFields_eq] at hfield
    obtain ⟨source, hsource, rfl⟩ := mem_map.mp hfield
    exact ih source hsource

def canonicalJsonValue (v : Value) : Value :=
  ⟨canonicalJsonTree v.tree, distinct_canonicalJsonTree v.distinct⟩

/-! ## Content -/

/-- Numbers that share their canonical form with a number of another value. -/
def Ambiguous (n : Number) : Prop := IsTwoPow63 n ∨ n = .posInt ⟨2 ^ 63 - 1, by decide⟩

theorem exact_eq_of_canonical {a b : Number} (ha : ¬ Ambiguous a)
    (h : canonicalJsonNumber a = canonicalJsonNumber b) : a.exact = b.exact := by
  have hexact := exact_canonicalJsonNumber_iff.mpr fun htwo => ha (.inl htwo)
  by_cases hb : IsTwoPow63 b
  · -- Then `a` has the value `2 ^ 63 - 1`, which only the ambiguous integer has.
    rw [h, canonicalJsonNumber_twoPow63 hb] at hexact
    exfalso
    cases a with
    | posInt n =>
      have hn : ((2 ^ 63 - 1 : Nat) : ℚ) = (n.1 : ℚ) := hexact
      have hn' : 2 ^ 63 - 1 = n.1 := by exact_mod_cast hn
      exact ha (.inr (congrArg posInt (Subtype.ext hn'.symm)))
    | negInt i =>
      have hi : ((2 ^ 63 - 1 : Nat) : ℚ) = (i.1 : ℚ) := hexact
      have hi' : ((2 ^ 63 - 1 : Nat) : Int) = i.1 := by exact_mod_cast hi
      omega
    | float d =>
      have hd : ((2 ^ 63 - 1 : Nat) : ℚ) = d.value := hexact
      apply d.value_ne_greatest
      rw [← hd]
      norm_num
  rw [← hexact, h]
  exact exact_canonicalJsonNumber_iff.mpr hb

/-- Without ambiguous numbers the canonical form determines the content. -/
theorem same_of_canonicalJsonTree {v : Tree} (hv : v.Distinct)
    (hunambiguous : ¬ v.HasNumber Ambiguous) {w : Tree} (hw : w.Distinct)
    (h : canonicalJsonTree v = canonicalJsonTree w) : v.Same w := by
  induction v using Tree.induct generalizing w with
  | null =>
    cases w <;> simp only [canonicalJsonTree, reduceCtorEq] at h
    exact .null
  | bool value =>
    cases w <;> simp only [canonicalJsonTree, reduceCtorEq, bool.injEq] at h
    exact h ▸ .bool
  | number n =>
    cases w <;> simp only [canonicalJsonTree, reduceCtorEq, number.injEq] at h
    exact .number (exact_eq_of_canonical (fun hn => hunambiguous (.number hn)) h)
  | string value =>
    cases w <;> simp only [canonicalJsonTree, reduceCtorEq, string.injEq] at h
    exact h ▸ .string
  | array items ih =>
    cases w <;> simp only [canonicalJsonTree, reduceCtorEq, array.injEq] at h
    rw [canonicalItems_eq, canonicalItems_eq] at h
    refine .array (by simpa using congrArg length h) fun i x y hx hy => ?_
    have hxmem := mem_of_getElem? hx
    have hymem := mem_of_getElem? hy
    have hitem := congrArg (·[i]?) h
    simp only [getElem?_map, hx, hy, Option.map_some, Option.some.injEq] at hitem
    exact ih x hxmem (distinct_array.mp hv x hxmem)
      (fun hx => hunambiguous (.array hxmem hx)) (distinct_array.mp hw y hymem) hitem
  | object fields ih =>
    cases w <;> simp only [canonicalJsonTree, reduceCtorEq, object.injEq] at h
    rename_i others
    obtain ⟨hkeys, hfields⟩ := distinct_object.mp hv
    obtain ⟨hkeys', hfields'⟩ := distinct_object.mp hw
    obtain ⟨hnames, hmem⟩ := sortFields_spec ((keys_canonicalFields fields).symm ▸ hkeys)
    obtain ⟨hnames', hmem'⟩ := sortFields_spec ((keys_canonicalFields others).symm ▸ hkeys')
    refine .object ?_ fun key x y hx hy => ?_
    · rw [keys_canonicalFields] at hnames hnames'
      have hsorted := hnames.symm.trans ((congrArg (map Prod.fst) h).trans hnames')
      exact (perm_insertionSort (· ≤ ·) _).symm.trans (hsorted ▸ perm_insertionSort (· ≤ ·) _)
    have hx' := (hmem _).mpr (mem_canonicalFields hx)
    have hy' := (hmem' _).mpr (mem_canonicalFields hy)
    rw [h] at hx'
    have hvalue := value_unique
      (nodup_sortFields ((keys_canonicalFields others).symm ▸ hkeys')) hx' hy'
    exact ih (key, x) hx (hfields _ hx) (fun hnumber => hunambiguous (.object hx hnumber))
      (hfields' _ hy) hvalue

/-- Exchange the two ambiguous numbers. -/
noncomputable def exchange (n : Number) : Number :=
  open Classical in
  if IsTwoPow63 n then .posInt ⟨2 ^ 63 - 1, by decide⟩
  else if n = .posInt ⟨2 ^ 63 - 1, by decide⟩ then .float twoPow63
  else n

theorem isTwoPow63_twoPow63 : IsTwoPow63 (.float twoPow63) := ⟨_, rfl, twoPow63_value⟩

theorem canonicalJsonNumber_exchange (n : Number) :
    canonicalJsonNumber (exchange n) = canonicalJsonNumber n := by
  unfold exchange
  split
  case isTrue htwo => rw [canonicalJsonNumber_twoPow63 htwo, canonicalJsonNumber_posInt]
  split
  case isTrue hn =>
    rw [hn, canonicalJsonNumber_twoPow63 isTwoPow63_twoPow63, canonicalJsonNumber_posInt]
  · rfl

theorem exact_exchange_ne {n : Number} (h : Ambiguous n) : (exchange n).exact ≠ n.exact := by
  have hends : ((2 ^ 63 - 1 : Nat) : ℚ) ≠ ((2 ^ 63 : Int) : ℚ) := by norm_num
  unfold exchange
  split
  case isTrue htwo =>
    obtain ⟨d, rfl, hvalue⟩ := htwo
    exact fun hexact => hends (hexact.trans hvalue)
  case isFalse htwo =>
    have hn := h.resolve_left htwo
    rw [if_pos hn, hn]
    exact fun hexact => hends (hexact.symm.trans twoPow63_value)

theorem canonicalJsonTree_mapNumbers {f : Number → Number}
    (hf : ∀ n, canonicalJsonNumber (f n) = canonicalJsonNumber n) (v : Tree) :
    canonicalJsonTree (v.mapNumbers f) = canonicalJsonTree v := by
  induction v using Tree.induct with
  | null => rfl
  | bool value => rfl
  | number n => exact congrArg number (hf n)
  | string value => rfl
  | array items ih =>
    simp only [mapNumbers, canonicalJsonTree, mapItems_eq, canonicalItems_eq, map_map, array.injEq]
    exact map_congr_left ih
  | object fields ih =>
    simp only [mapNumbers, canonicalJsonTree, mapFields_eq, canonicalFields_eq, map_map]
    congr 2
    apply map_congr_left
    intro field hfield
    exact congrArg (Prod.mk field.1) (ih field hfield)

/-- The canonical form of a number keeps its value unless it is the double `2 ^ 63`; and
a value shares its canonical form only with values of the same content unless one of
its numbers is that double or the integer `2 ^ 63 - 1`. -/
theorem canonical_keeps_content_iff (n : Number) (v : Value) :
    ((canonicalJsonNumber n).exact = n.exact ↔ ¬ IsTwoPow63 n) ∧
    ((∀ w : Value, canonicalJsonValue v = canonicalJsonValue w → v.tree.Same w.tree) ↔
      ¬ v.tree.HasNumber Ambiguous) := by
  refine ⟨exact_canonicalJsonNumber_iff, fun hsame hambiguous => ?_, ?_⟩
  · let w : Value := ⟨v.tree.mapNumbers exchange, distinct_mapNumbers v.distinct⟩
    have hcanonical : canonicalJsonValue v = canonicalJsonValue w :=
      Value.ext (canonicalJsonTree_mapNumbers canonicalJsonNumber_exchange v.tree).symm
    exact not_same_mapNumbers v.distinct
      (hambiguous.mono fun n hn => exact_exchange_ne hn) (hsame w hcanonical)
  · intro hunambiguous w hcanonical
    exact same_of_canonicalJsonTree v.distinct hunambiguous w.distinct
      (congrArg Value.tree hcanonical)

/-- The double `2 ^ 63` and the integer `2 ^ 63 - 1`. -/
theorem canonical_collision :
    ∃ v w : Value, v.tree = .number (.float twoPow63) ∧
      w.tree = .number (.posInt ⟨2 ^ 63 - 1, by decide⟩) ∧
      canonicalJsonValue v = canonicalJsonValue w ∧ ¬ v.tree.Same w.tree ∧
      (canonicalJsonNumber (.float twoPow63)).exact ≠ (float twoPow63).exact := by
  have hcanonical : canonicalJsonNumber (.float twoPow63) =
      .posInt ⟨2 ^ 63 - 1, by decide⟩ := canonicalJsonNumber_twoPow63 isTwoPow63_twoPow63
  have hends : (canonicalJsonNumber (.float twoPow63)).exact ≠ (float twoPow63).exact :=
    fun hexact => exact_canonicalJsonNumber_iff.mp hexact isTwoPow63_twoPow63
  refine ⟨⟨_, .number⟩, ⟨_, .number⟩, rfl, rfl, ?_, ?_, hends⟩
  · exact Value.ext (congrArg number (hcanonical.trans (canonicalJsonNumber_posInt _).symm))
  · intro hsame
    cases hsame with
    | number hexact => exact hends (hcanonical ▸ hexact.symm)

end Skiff.Json
