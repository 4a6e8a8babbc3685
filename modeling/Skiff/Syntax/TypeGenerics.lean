import Skiff.Syntax.TypeSplits

/-!
# Generic types in a text

The scanner of the generic types passes the text of a tree over when it is in braces or in angle
brackets already: every bracket that a text opens is closed in it, and its arrows are not counted.
So the brackets it finds are those of the outermost generic type.
-/

namespace Skiff.Syntax

open Recoverable (isWhitespace)
open TypeExpr (joinWith)
open TypeTree GenericScan List

variable {root : Text}

namespace GenericScan

/-- Outside of strings. -/
def depths (angle brace : Nat) (opened closed : Option Nat) : GenericScan :=
  ⟨angle, brace, false, false, opened, closed⟩

/-- The character before the one that follows a text. -/
def lastOf (before : Option Char) : Text → Option Char
  | [] => before
  | ch :: rest => lastOf (some ch) rest

theorem lastOf_concat (before : Option Char) (front : Text) (ch : Char) :
    lastOf before (front ++ [ch]) = some ch := by
  induction front generalizing before with
  | nil => rfl
  | cons first rest ih => exact ih (some first)

theorem genericScan_append (s : GenericScan) (before : Option Char) (index : Nat)
    (first second : Text) :
    genericScan s before index (first ++ second) =
      genericScan (genericScan s before index first) (lastOf before first)
        (index + first.length) second := by
  induction first generalizing s before index with
  | nil => rfl
  | cons ch rest ih =>
    rw [cons_append, genericScan, ih, genericScan, lastOf, length_cons,
      Nat.add_assoc, Nat.add_comm 1]

variable {a b : Nat} {opened closed : Option Nat} {before : Option Char} {index : Nat}

/-- The characters that this scanner does not look at. -/
def isPlain (ch : Char) : Bool := ch != '"' && ch != '<' && ch != '>' && ch != '{' && ch != '}'

theorem step_plain {ch : Char} (h : isPlain ch = true) :
    (depths a b opened closed).step before index ch = depths a b opened closed := by
  simp only [isPlain, Bool.and_eq_true, bne_iff_ne, ne_eq] at h
  simp [step, depths, h]

/-- A text of plain characters moves no depth. -/
theorem scan_plain {text : Text} (h : ∀ ch ∈ text, isPlain ch = true) :
    genericScan (depths a b opened closed) before index text = depths a b opened closed := by
  induction text generalizing before index with
  | nil => rfl
  | cons ch rest ih =>
    rw [genericScan, step_plain (h ch List.mem_cons_self)]
    exact ih fun c hc => h c (.tail _ hc)

theorem isPlain_of_isNameChar {ch : Char} (h : isNameChar ch = true) : isPlain ch = true := by
  simp only [isPlain, Bool.and_eq_true, bne_iff_ne]
  refine ⟨⟨⟨⟨?_, ?_⟩, ?_⟩, ?_⟩, ?_⟩ <;> exact ne_of_isNameChar h rfl

theorem scan_body {body : Text} (h : IsBody body) :
    genericScan ⟨a, b, true, false, opened, closed⟩ before index body =
      ⟨a, b, true, false, opened, closed⟩ := by
  induction h generalizing before index with
  | nil => rfl
  | plain hquote hescape h ih =>
    rw [genericScan]
    simpa [step, hquote, hescape] using ih
  | escaped h ih =>
    rw [genericScan, genericScan]
    simpa [step] using ih

variable {quote : Text → Text} {ok : Text → Prop}

theorem scan_quote (h : Quoting quote ok) (value : Text) :
    genericScan (depths a b opened closed) before index (quote value) =
      depths a b opened closed := by
  have hopen : (depths a b opened closed).step before index '"' =
      ⟨a, b, true, false, opened, closed⟩ := by
    simp [step, depths]
  have hclose : ∀ before index, (⟨a, b, true, false, opened, closed⟩ : GenericScan).step
      before index '"' = depths a b opened closed := by
    intro before index
    simp [step, depths]
  rw [h.quoted, cons_append, genericScan, hopen, genericScan_append,
    scan_body (h.isBody value), genericScan, hclose]
  rfl

theorem scan_root (h : IsRoot root) :
    genericScan (depths a b opened closed) before index root = depths a b opened closed := by
  cases h with
  | path hne h => exact scan_plain fun ch hch => isPlain_of_isNameChar (h ch hch)
  | quoted value h =>
    rw [genericScan_append, scan_quote quotingStringType]
    exact scan_plain fun ch hch => isPlain_of_isNameChar (h ch hch)

/-- The bracket of an arrow follows a dash and closes nothing. -/
theorem step_arrow : (depths a b opened closed).step (some '-') index '>' =
    depths a b opened closed := by
  simp [step, depths]

theorem scan_arrow : genericScan (depths a b opened closed) before index
    [')', ' ', '-', '>', ' '] = depths a b opened closed := by
  rw [genericScan, step_plain rfl, genericScan, step_plain rfl, genericScan, step_plain rfl,
    genericScan, step_arrow, genericScan, step_plain rfl, genericScan]

theorem step_openBrace : (depths a b opened closed).step before index '{' =
    depths a (b + 1) opened closed := by
  simp [step, depths]

theorem step_closeBrace : (depths a (b + 1) opened closed).step before index '}' =
    depths a b opened closed := by
  simp [step, depths]

theorem scan_openRecord : genericScan (depths a b opened closed) before index ['{', ' '] =
    depths a (b + 1) opened closed := by
  rw [genericScan, step_openBrace, genericScan, step_plain rfl, genericScan]

theorem scan_closeRecord : genericScan (depths a (b + 1) opened closed) before index [' ', '}'] =
    depths a b opened closed := by
  rw [genericScan, step_plain rfl, genericScan, step_closeBrace, genericScan]

theorem step_outerOpen : (depths 0 0 none none).step before index '<' =
    depths 1 0 (some index) none := by
  simp [step, depths]

theorem step_outerClose (hbefore : before ≠ some '-') :
    (depths 1 0 opened none).step before index '>' = depths 0 0 opened (some index) := by
  simp [step, depths, hbefore]

/-- In braces the angle brackets are passed over, and in angle brackets they are not the outermost
ones. -/
def Inside (a b : Nat) : Prop := 0 < a ∨ 0 < b

def inner (a b : Nat) : Nat := if b = 0 then a + 1 else a

theorem step_openAngle (h : Inside a b) : (depths a b opened closed).step before index '<' =
    depths (inner a b) b opened closed := by
  by_cases hb : b = 0
  · have ha : a ≠ 0 := by
      intro ha
      cases h <;> omega
    simp [step, depths, inner, hb, ha]
  · simp [step, depths, inner, hb]

theorem step_closeAngle (h : Inside a b) (hbefore : before ≠ some '-') :
    (depths (inner a b) b opened closed).step before index '>' = depths a b opened closed := by
  by_cases hb : b = 0
  · have ha : a ≠ 0 := by
      intro ha
      cases h <;> omega
    simp [step, depths, inner, hb, ha, hbefore]
  · simp [step, depths, inner, hb, hbefore]

theorem Inside.inner (h : Inside a b) : Inside (inner a b) b := by
  unfold GenericScan.inner
  split
  · exact .inl (Nat.succ_pos a)
  · exact h

/-- The closing bracket of the arguments does not follow a dash. -/
theorem lastOf_args (hquote : Quoting quote ok) (args : List TypeTree) (h : GrammaticalAll args) :
    lastOf (some '<') (joinWith [',', ' '] (texts quote args)) ≠ some '-' := by
  by_cases hne : args = []
  · subst hne
    show some '<' ≠ some '-'
    decide
  obtain ⟨front, ch, heq, -, hch, -⟩ := joinWith_endsWith hquote [',', ' '] args h hne
  rw [heq, lastOf_concat]
  exact fun heq => hch (Option.some.inj heq)

theorem text_generic (root : Text) (args : List TypeTree) :
    (generic root args).text quote =
      root ++ '<' :: (joinWith [',', ' '] (texts quote args) ++ ['>']) := by
  rw [text, append_assoc, cons_append]

mutual

theorem scan_text (hquote : Quoting quote ok) (a b : Nat) (opened closed : Option Nat)
    (before : Option Char) (index : Nat) (hinside : Inside a b) (tree : TypeTree)
    (h : tree.Grammatical) :
    genericScan (depths a b opened closed) before index (tree.text quote) =
      depths a b opened closed := by
  cases tree with
  | string value => exact scan_quote hquote value
  | name path => exact scan_root h.1
  | generic root args =>
    have hclose := lastOf_args hquote args h.2
    rw [text_generic, genericScan_append, scan_root h.1, genericScan, step_openAngle hinside,
      genericScan_append,
      scan_texts hquote _ b opened closed _ _ hinside.inner (forall_of_all (by decide)) args h.2,
      genericScan, step_closeAngle hinside hclose, genericScan]
  | any interface =>
    rw [text, genericScan_append, scan_plain (forall_of_all (by decide))]
    exact scan_text hquote a b opened closed _ _ hinside interface h.2
  | function params returnType =>
    rw [text, genericScan_append, genericScan_append, genericScan_append,
      scan_plain (forall_of_all (by decide)),
      scan_fieldTexts hquote a b opened closed _ _ hinside params h.1, scan_arrow]
    exact scan_text hquote a b opened closed _ _ hinside returnType h.2
  | record fields =>
    cases fields with
    | nil => rw [text, genericScan, step_openBrace, genericScan, step_closeBrace, genericScan]
    | cons field fields =>
      have hdeep : Inside a (b + 1) := .inr (Nat.succ_pos b)
      rw [text, genericScan_append, genericScan_append, scan_openRecord,
        scan_fieldTexts hquote a (b + 1) opened closed _ _ hdeep (field :: fields) h,
        scan_closeRecord]
  | nullable inner =>
    rw [text, genericScan_append, scan_text hquote a b opened closed _ _ hinside inner h.2.2]
    exact scan_plain (forall_of_all (by decide))
  | union branches =>
    exact scan_texts hquote a b opened closed _ _ hinside (forall_of_all (by decide)) branches h.2.1

theorem scan_texts (hquote : Quoting quote ok) (a b : Nat) (opened closed : Option Nat)
    (before : Option Char) (index : Nat) (hinside : Inside a b) {separator : Text}
    (hplain : ∀ ch ∈ separator, isPlain ch = true) (trees : List TypeTree)
    (h : GrammaticalAll trees) :
    genericScan (depths a b opened closed) before index
        (joinWith separator (texts quote trees)) = depths a b opened closed := by
  cases trees with
  | nil => rfl
  | cons tree rest =>
    by_cases hrest : rest = []
    · subst hrest
      exact scan_text hquote a b opened closed _ _ hinside tree h.1
    rw [texts, Scan.joinWith_cons (mt Scan.texts_eq_nil.mp hrest), genericScan_append,
      genericScan_append, scan_text hquote a b opened closed _ _ hinside tree h.1,
      scan_plain hplain]
    exact scan_texts hquote a b opened closed _ _ hinside hplain rest h.2

theorem scan_fieldTexts (hquote : Quoting quote ok) (a b : Nat) (opened closed : Option Nat)
    (before : Option Char) (index : Nat) (hinside : Inside a b)
    (fields : List (Text × TypeTree)) (h : GrammaticalFields fields) :
    genericScan (depths a b opened closed) before index
        (joinWith [',', ' '] (fieldTexts quote fields)) = depths a b opened closed := by
  cases fields with
  | nil => rfl
  | cons field rest =>
    obtain ⟨name, tree⟩ := field
    obtain ⟨⟨ident, rfl⟩, htree, hfields⟩ := h
    have hfirst : ∀ before index, genericScan (depths a b opened closed) before index
        (ident.text ++ [':', ' '] ++ tree.text quote) = depths a b opened closed := by
      intro before index
      rw [genericScan_append, genericScan_append,
        scan_plain fun ch hch => isPlain_of_isNameChar (ident.isNameChar hch),
        scan_plain (forall_of_all (by decide))]
      exact scan_text hquote a b opened closed _ _ hinside tree htree
    by_cases hrest : rest = []
    · subst hrest
      exact hfirst _ _
    rw [fieldTexts, Scan.joinWith_cons (mt Scan.fieldTexts_eq_nil.mp hrest),
      genericScan_append, genericScan_append, hfirst, scan_plain (forall_of_all (by decide))]
    exact scan_fieldTexts hquote a b opened closed _ _ hinside rest hfields

end

end GenericScan

/-! ## The parts of a generic type -/

section

variable {quote : Text → Text} {ok : Text → Prop}

theorem IsRoot.tight (h : IsRoot root) : Tight root := by
  obtain ⟨ch, tail, heq, hch⟩ := h.first []
  obtain ⟨front, last, heq', hlast⟩ := h.last
  rw [append_nil] at heq
  refine ⟨⟨ch, tail, heq, hch⟩, ⟨front, last, heq', ?_⟩⟩
  obtain rfl | hname := hlast
  · decide
  · exact isWhitespace_of_isNameChar hname

/-- Without an outermost bracket there are no parts. -/
theorem genericParts_of_scan {text : Text} (htight : Tight text)
    (h : genericScan ⟨0, 0, false, false, none, none⟩ none 0 text =
      depths 0 0 none none) : genericParts text = none := by
  rw [genericParts, htight.trim, h]
  rfl

theorem genericParts_root (h : IsRoot root) : genericParts root = none :=
  genericParts_of_scan h.tight (scan_root h)

theorem genericParts_quote (hquote : Quoting quote ok) (value : Text) :
    genericParts (quote value) = none :=
  genericParts_of_scan (text_tight hquote (show (string value).Grammatical from trivial))
    (scan_quote hquote value)

theorem trim_joinWith (hquote : Quoting quote ok) (args : List TypeTree) (h : GrammaticalAll args) :
    trim (joinWith [',', ' '] (texts quote args)) = joinWith [',', ' '] (texts quote args) := by
  by_cases hne : args = []
  · subst hne
    rfl
  refine (tight_joinWith ?_ (mt Scan.texts_eq_nil.mp hne)).trim
  intro part hpart
  rw [texts_eq] at hpart
  obtain ⟨arg, harg, rfl⟩ := mem_map.mp hpart
  exact text_tight hquote (grammaticalAll_iff.mp h arg harg)

/-- A generic type is taken apart into its root and its arguments. -/
theorem genericParts_generic (hquote : Quoting quote ok) {args : List TypeTree}
    (h : (generic root args).Grammatical) :
    genericParts ((generic root args).text quote) =
      some ⟨root, joinWith [',', ' '] (texts quote args),
        splitTopLevel (joinWith [',', ' '] (texts quote args)) ','⟩ := by
  generalize hjoined : joinWith [',', ' '] (texts quote args) = joined
  have hargs : trim joined = joined := hjoined ▸ trim_joinWith hquote args h.2
  have hscan : genericScan ⟨0, 0, false, false, none, none⟩ none 0
      ((generic root args).text quote) =
        depths 0 0 (some root.length) (some (root.length + 1 + joined.length)) := by
    have hclose := lastOf_args hquote args h.2
    have hinside : GenericScan.Inside 1 0 := .inl Nat.one_pos
    have hroot : genericScan ⟨0, 0, false, false, none, none⟩ none 0 root =
        depths 0 0 none none := scan_root h.1
    rw [text_generic, genericScan_append, hroot, genericScan,
      step_outerOpen, genericScan_append,
      scan_texts hquote 1 0 _ _ _ _ hinside (forall_of_all (by decide)) args h.2,
      genericScan, step_outerClose hclose, genericScan, hjoined, Nat.zero_add]
  have hlength : ((generic root args).text quote).length = root.length + 1 + joined.length + 1 := by
    rw [text_generic, hjoined]
    simp only [length_append, length_cons, length_nil]
    omega
  have htake : ((generic root args).text quote).take root.length = root := by
    rw [text_generic, take_left]
  have hdrop : (((generic root args).text quote).drop (root.length + 1)).take
      (root.length + 1 + joined.length - (root.length + 1)) = joined := by
    rw [text_generic, hjoined, Nat.add_sub_cancel_left, ← drop_drop,
      drop_left, drop_one, tail_cons, take_left]
  have htight := text_tight hquote h
  rw [genericParts, htight.trim, hscan]
  dsimp only [depths]
  refine (if_neg ?_).trans ?_
  · omega
  · rw [htake, h.1.tight.trim, hdrop, hargs]

end

end Skiff.Syntax
