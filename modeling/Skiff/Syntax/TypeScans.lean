import Skiff.Syntax.Token
import Skiff.Syntax.TypeTrees

/-!
# What the scanners see in the text of a tree

The parts of a text: names, quoted strings and the texts of the trees themselves. A scanner leaves
each of them with the braces and parentheses it came with, and with the angle brackets less the
arrows; the marks that it meets at depth zero are those that `spills` counts.
-/

namespace Skiff.Syntax

open Recoverable (isWhitespace)
open TypeExpr (joinWith)
open Scan (depths marks)
open TypeTree TypeExpr List Json

/-! ## Names -/

def isNameChar (ch : Char) : Bool := isIdentContinue ch || ch == '/' || ch == '.'

theorem ne_of_isNameChar {ch other : Char} (h : isNameChar ch = true)
    (hother : isNameChar other = false) : ch ≠ other := by
  rintro rfl
  rw [h] at hother
  cases hother

variable {ch : Char}

theorem toNat_of_isNameChar (h : isNameChar ch = true) : 46 ≤ ch.toNat ∧ ch.toNat ≤ 122 := by
  have hnat : ch.toNat = ch.val.toNat := rfl
  change ((ch == '_' || (decide (ch.val ≥ 65 ∧ ch.val ≤ 90) || (ch.val ≥ 97 && ch.val ≤ 122)) ||
    (ch.val ≥ 48 && ch.val ≤ 57)) || ch == '/' || ch == '.') = true at h
  simp only [Bool.or_eq_true, Bool.and_eq_true, decide_eq_true_eq, beq_iff_eq, ge_iff_le,
    UInt32.le_iff_toNat_le] at h
  obtain ((((rfl | h | h) | h) | rfl) | rfl) := h
  · decide
  · exact ⟨by have := h.1; simp at this; omega, by have := h.2; simp at this; omega⟩
  · exact ⟨by have := h.1; simp at this; omega, by have := h.2; simp at this; omega⟩
  · exact ⟨by have := h.1; simp at this; omega, by have := h.2; simp at this; omega⟩
  · decide
  · decide

theorem isWhitespace_of_isNameChar (h : isNameChar ch = true) : isWhitespace ch = false := by
  obtain ⟨hlow, hhigh⟩ := toNat_of_isNameChar h
  rw [isWhitespace, Bool.eq_false_iff]
  intro hspace
  simp only [Bool.or_eq_true, Bool.and_eq_true, decide_eq_true_eq, contains_iff_mem,
    mem_cons, not_mem_nil, or_false] at hspace
  omega

theorem isPlain_of_isNameChar (h : isNameChar ch = true) : Scan.isPlain ch = true := by
  simp only [Scan.isPlain, Bool.and_eq_true, bne_iff_ne]
  refine ⟨⟨⟨⟨⟨⟨?_, ?_⟩, ?_⟩, ?_⟩, ?_⟩, ?_⟩, ?_⟩ <;> exact ne_of_isNameChar h rfl

theorem Ident.isNameChar {ident : Ident} (h : ch ∈ ident.text) : Syntax.isNameChar ch = true := by
  obtain ⟨first, rest, htext, hfirst, hrest⟩ := ident.shape
  rw [htext] at h
  obtain rfl | h := mem_cons.mp h
  · simp [Syntax.isNameChar, isIdentContinue, hfirst]
  · simp [Syntax.isNameChar, all_eq_true.mp hrest ch h]

/-! ## Quoted strings -/

/-- What stands between the quotes of a literal: every quote and backslash is escaped. -/
inductive IsBody : Text → Prop
  | nil : IsBody []
  | plain {ch : Char} {rest : Text} (hquote : ch ≠ '"') (hescape : ch ≠ '\\') (h : IsBody rest) :
      IsBody (ch :: rest)
  | escaped {ch : Char} {rest : Text} (h : IsBody rest) : IsBody ('\\' :: ch :: rest)

/-- A way to quote strings, and the strings that it quotes as JSON does. -/
structure Quoting (quote : Text → Text) (ok : Text → Prop) where
  body : Text → Text
  quoted : ∀ value, quote value = '"' :: body value ++ ['"']
  isBody : ∀ value, IsBody (body value)
  decoded : ∀ value rest, ok value → jsonString (body value ++ '"' :: rest) = some (value, rest)
  refused : ∀ value rest, ¬ ok value → jsonString (body value ++ '"' :: rest) = none

namespace Scan

variable {a b p : Nat} {mark : Char}

theorem past_body {body : Text} (h : IsBody body) :
    (⟨a, b, p, true, false⟩ : Scan).past body = ⟨a, b, p, true, false⟩ := by
  induction h with
  | nil => rfl
  | plain hquote hescape h ih =>
    rw [past_cons]
    simpa [step, hquote, hescape] using ih
  | escaped h ih =>
    rw [past_cons, past_cons]
    simpa [step] using ih

theorem marks_inString {body : Text} (h : IsBody body) :
    marks mark ⟨a, b, p, true, false⟩ body = 0 := by
  induction h with
  | nil => rfl
  | plain hquote hescape h ih =>
    rw [marks]
    simpa [step, hquote, hescape, atTop] using ih
  | escaped h ih =>
    rw [marks, marks]
    simpa [step, atTop] using ih

variable {quote : Text → Text} {ok : Text → Prop}

theorem past_quote (h : Quoting quote ok) (value : Text) :
    (depths a b p).past (quote value) = depths a b p := by
  rw [h.quoted, List.cons_append, past_cons]
  show (⟨a, b, p, true, false⟩ : Scan).past _ = _
  rw [past_append, past_body (h.isBody value)]
  rfl

theorem marks_quote (h : Quoting quote ok) (hmark : mark ≠ '"') (value : Text) :
    marks mark (depths a b p) (quote value) = 0 := by
  rw [h.quoted, cons_append, marks]
  show _ + marks mark ⟨a, b, p, true, false⟩ _ = 0
  rw [marks_append, marks_inString (h.isBody value), past_body (h.isBody value), marks]
  simp [hmark.symm, marks, atTop]

end Scan

/-! ## The two ways to quote -/

section

variable {ch value : Char} {rest : Text}

theorem jsonString_escape (hu : ch ≠ 'u') (h : unescape ch = some value) :
    jsonString ('\\' :: ch :: rest) = consValue value (jsonString rest) := by
  rw [jsonString, h]
  rintro a b c d rest' heq
  exact absurd heq hu

theorem jsonString_plain (hquote : ch ≠ '"') (hescape : ch ≠ '\\') :
    jsonString (ch :: rest) =
      if ch.toNat < 0x20 then none else consValue ch (jsonString rest) := by
  rw [jsonString]
  · exact hquote
  · rintro a b c d rest' rfl
    exact absurd rfl hescape
  rintro a rest' rfl
  exact absurd rfl hescape

/-- The characters that the parser's text of a string literal shows as JSON does. -/
def isPlainStringChar (ch : Char) : Bool :=
  0x20 ≤ ch.toNat || ch == '\n' || ch == '\r' || ch == '\t'

def PlainString (value : Text) : Prop := ∀ ch ∈ value, isPlainStringChar ch = true

variable (ch : Char)

theorem jsonString_escapeStringType (rest : Text) :
    jsonString (escapeStringType ch ++ rest) =
      if isPlainStringChar ch then consValue ch (jsonString rest) else none := by
  generalize hread : (if isPlainStringChar ch then _ else _) = read
  rw [escapeStringType]
  split_ifs with hquote hescape hn hr ht
  case neg =>
    subst hread
    rw [List.singleton_append, jsonString_plain hquote hescape]
    simp only [isPlainStringChar, hn, hr, ht, beq_iff_eq, Bool.or_eq_true, decide_eq_true_eq,
      or_false]
    split
    case isTrue h => rw [if_neg (by omega)]
    case isFalse h => rw [if_pos (by omega)]
  all_goals
    subst_vars
    exact jsonString_escape (by decide) rfl

theorem IsBody.append {first second : Text} (h : IsBody first) (h' : IsBody second) :
    IsBody (first ++ second) := by
  induction h with
  | nil => exact h'
  | plain hquote hescape h ih => exact .plain hquote hescape ih
  | escaped h ih => exact .escaped ih

theorem IsBody.flatMap {escape : Char → Text} (h : ∀ ch, IsBody (escape ch)) (value : Text) :
    IsBody (value.flatMap escape) := by
  induction value with
  | nil => exact .nil
  | cons ch rest ih =>
    rw [List.flatMap_cons]
    exact (h ch).append ih

theorem isBody_escapeStringType : IsBody (escapeStringType ch) := by
  rw [escapeStringType]
  split_ifs with hquote hescape
  case neg => exact .plain hquote hescape .nil
  all_goals exact .escaped .nil

/-- A string that is escaped character by character is read back if each character is. -/
theorem jsonString_flatMap {escape : Char → Text} {ok : Char → Bool}
    (h : ∀ ch rest, jsonString (escape ch ++ rest) =
      if ok ch then consValue ch (jsonString rest) else none) (value rest : Text) :
    jsonString (value.flatMap escape ++ '"' :: rest) =
      if value.all ok then some (value, rest) else none := by
  induction value with
  | nil => rfl
  | cons ch value ih =>
    rw [flatMap_cons, append_assoc, h, ih, all_cons]
    cases ok ch <;> cases value.all ok <;> rfl

def quotingStringType : Quoting quoteStringType PlainString where
  body value := value.flatMap escapeStringType
  quoted _ := rfl
  isBody := IsBody.flatMap isBody_escapeStringType
  decoded value rest h := by
    rw [jsonString_flatMap jsonString_escapeStringType, if_pos (all_eq_true.mpr h)]
  refused value rest h := by
    rw [jsonString_flatMap jsonString_escapeStringType, if_neg fun hall => h ?_]
    exact all_eq_true.mp hall

theorem hexCode_hexChar : ∀ n < 0x20,
    hexCode '0' '0' (hexChar (n / 16)) (hexChar (n % 16)) = some n := by
  decide

theorem jsonString_jsonEscape (rest : Text) :
    jsonString (jsonEscape ch ++ rest) =
      if (fun _ => true) ch then consValue ch (jsonString rest) else none := by
  rw [if_pos rfl, jsonEscape]
  split_ifs with hquote hescape _ _ _ _ _ hlow
  iterate 7
    · subst_vars
      exact jsonString_escape (by decide) rfl
  case pos =>
    have hcode := hexCode_hexChar ch.toNat hlow
    show jsonString ('\\' :: 'u' :: '0' :: '0' :: _ :: _ :: rest) = _
    rw [jsonString, hcode]
    dsimp only
    rw [if_neg (by omega), if_neg (by omega), Char.ofNat_toNat]
  case neg => rw [singleton_append, jsonString_plain hquote hescape, if_neg hlow]

theorem isBody_jsonEscape : IsBody (jsonEscape ch) := by
  rw [jsonEscape]
  split_ifs with hquote hescape _ _ _ _ _ hlow
  iterate 7 exact .escaped .nil
  case pos =>
    have hhex : ∀ n < 0x20, hexChar (n / 16) ≠ '"' ∧ hexChar (n / 16) ≠ '\\' ∧
        hexChar (n % 16) ≠ '"' ∧ hexChar (n % 16) ≠ '\\' := by decide
    obtain ⟨hhigh, hhigh', hdigit, hdigit'⟩ := hhex ch.toNat hlow
    refine .escaped (.plain (by decide) (by decide) (.plain (by decide) (by decide) ?_))
    exact .plain hhigh hhigh' (.plain hdigit hdigit' .nil)
  case neg => exact .plain hquote hescape .nil

def quotingJson : Quoting jsonQuote (fun _ => True) where
  body value := value.flatMap jsonEscape
  quoted _ := rfl
  isBody := IsBody.flatMap isBody_jsonEscape
  decoded value rest _ := by
    rw [jsonString_flatMap jsonString_jsonEscape, if_pos (all_eq_true.mpr fun _ _ => rfl)]
  refused value rest h := absurd trivial h

end

/-! ## Trees as the parser reads them -/

/-- A name with its qualifiers; it may start with a string literal. -/
inductive IsRoot : Text → Prop
  | path {root : Text} (hne : root ≠ []) (h : ∀ ch ∈ root, isNameChar ch = true) : IsRoot root
  | quoted (value : Text) {suffix : Text} (h : ∀ ch ∈ suffix, isNameChar ch = true) :
      IsRoot (quoteStringType value ++ suffix)

namespace TypeTree

def isPrimary : TypeTree → Bool
  | .nullable _ => false
  | .union _ => false
  | _ => true

def isUnion : TypeTree → Bool
  | .union _ => true
  | _ => false

/-- A primary type that ends with the return type of a function. -/
def endsFunction : TypeTree → Bool
  | .any interface => interface.endsFunction
  | .function _ _ => true
  | _ => false

mutual

/-- A function type takes all that follows it, so no `?` and no `|` comes after one. -/
def Grammatical : TypeTree → Prop
  | .string _ => True
  | .name path => IsRoot path ∧ path.getLast? ≠ some '"'
  | .generic root args => IsRoot root ∧ GrammaticalAll args
  | .any interface => interface.isPrimary = true ∧ interface.Grammatical
  | .function params returnType => GrammaticalFields params ∧ returnType.Grammatical
  | .record fields => GrammaticalFields fields
  | .nullable inner => inner.isUnion = false ∧ inner.endsFunction = false ∧ inner.Grammatical
  | .union branches =>
    2 ≤ branches.length ∧ GrammaticalAll branches ∧ (∀ tree ∈ branches, tree.isUnion = false) ∧
      ∀ tree ∈ branches.dropLast, tree.endsFunction = false

def GrammaticalAll : List TypeTree → Prop
  | [] => True
  | tree :: rest => tree.Grammatical ∧ GrammaticalAll rest

def GrammaticalFields : List (Text × TypeTree) → Prop
  | [] => True
  | (field, tree) :: rest =>
    (∃ ident : Ident, ident.text = field) ∧ tree.Grammatical ∧ GrammaticalFields rest

end

end TypeTree

/-! ## Depths and marks of a text -/

/-- The marks that the scanners split or stop at. -/
def IsMark (mark : Char) : Prop := mark = ',' ∨ mark = '|' ∨ mark = ')'

namespace Scan

variable {a b p : Nat} {mark : Char} {quote : Text → Text} {ok : Text → Prop}

theorem notMem_of_isNameChar {text : Text} (h : ∀ ch ∈ text, isNameChar ch = true)
    (hmark : isNameChar mark = false) : mark ∉ text :=
  fun hmem => ne_of_isNameChar (h mark hmem) hmark rfl

theorem IsMark.isNameChar (h : IsMark mark) : isNameChar mark = false := by
  obtain rfl | rfl | rfl := h <;> rfl

theorem past_root {root : Text} (h : IsRoot root) : (depths a b p).past root = depths a b p := by
  cases h with
  | path hne h => exact past_plain fun ch hch => isPlain_of_isNameChar (h ch hch)
  | quoted value h =>
    rw [past_append, past_quote quotingStringType]
    exact past_plain fun ch hch => isPlain_of_isNameChar (h ch hch)

theorem marks_root {root : Text} (h : IsRoot root) (hmark : IsMark mark) :
    marks mark (depths a b p) root = 0 := by
  have hname := IsMark.isNameChar hmark
  cases h with
  | path hne h => exact marks_eq_zero (notMem_of_isNameChar h hname)
  | quoted value h =>
    have hquote : mark ≠ '"' := by obtain rfl | rfl | rfl := hmark <;> decide
    rw [marks_append, marks_quote quotingStringType hquote, past_quote quotingStringType]
    rw [marks_eq_zero (notMem_of_isNameChar h hname)]

theorem joinWith_cons {separator part : Text} {rest : List Text} (hne : rest ≠ []) :
    joinWith separator (part :: rest) = part ++ separator ++ joinWith separator rest := by
  cases rest with
  | nil => exact absurd rfl hne
  | cons next rest => rfl

theorem texts_eq_nil {trees : List TypeTree} : texts quote trees = [] ↔ trees = [] := by
  cases trees <;> simp [texts]

theorem fieldTexts_eq_nil {fields : List (Text × TypeTree)} :
    fieldTexts quote fields = [] ↔ fields = [] := by
  cases fields with
  | nil | cons field rest => simp [fieldTexts]

mutual

/-- A scanner comes out of a text with the depths it came with, less the arrows. -/
theorem past_text (hquote : Quoting quote ok) (a b p : Nat) (tree : TypeTree)
    (h : tree.Grammatical) :
    (depths a b p).past (tree.text quote) = depths (a - tree.arrows) b p := by
  cases tree with
  | string value => exact past_quote hquote value
  | name path => exact past_root h.1
  | generic root args =>
    rw [text, past_append, past_append, past_root h.1]
    show ((depths (a + 1) b p).past _).past ['>'] = _
    rw [past_texts hquote _ _ _ (forall_of_all (by decide)) args h.2]
    show depths (a + 1 - arrowsAll args - 1) b p = depths (a - arrowsAll args) b p
    congr 1
    omega
  | any interface =>
    rw [text, past_append]
    exact past_text hquote a b p interface h.2
  | function params returnType =>
    rw [text, past_append, past_append, past_append]
    show (((depths a b (p + 1)).past _).past _).past _ = _
    rw [past_fieldTexts hquote _ _ _ params h.1]
    show (depths (a - arrowsFields params - 1) b p).past _ = _
    rw [past_text hquote _ _ _ returnType h.2, arrows]
    congr 1
    omega
  | record fields =>
    cases fields with
    | nil => rfl
    | cons field fields =>
      rw [text, past_append, past_append]
      show ((depths a (b + 1) p).past _).past _ = _
      rw [past_fieldTexts hquote _ _ _ (field :: fields) h]
      rfl
  | nullable inner =>
    rw [text, past_append, past_text hquote a b p inner h.2.2]
    rfl
  | union branches => exact past_texts hquote a b p (forall_of_all (by decide)) branches h.2.1

theorem past_texts (hquote : Quoting quote ok) (a b p : Nat) {separator : Text}
    (hplain : ∀ ch ∈ separator, isPlain ch = true) (trees : List TypeTree)
    (h : GrammaticalAll trees) :
    (depths a b p).past (joinWith separator (texts quote trees)) =
      depths (a - arrowsAll trees) b p := by
  cases trees with
  | nil => rfl
  | cons tree rest =>
    have hfirst := past_text hquote a b p tree h.1
    by_cases hrest : rest = []
    · subst hrest
      exact hfirst
    rw [texts, joinWith_cons (mt texts_eq_nil.mp hrest), past_append, past_append,
      hfirst, past_plain hplain, past_texts hquote _ _ _ hplain rest h.2, arrowsAll]
    congr 1
    omega

theorem past_fieldTexts (hquote : Quoting quote ok) (a b p : Nat)
    (fields : List (Text × TypeTree)) (h : GrammaticalFields fields) :
    (depths a b p).past (joinWith [',', ' '] (fieldTexts quote fields)) =
      depths (a - arrowsFields fields) b p := by
  cases fields with
  | nil => rfl
  | cons field rest =>
    obtain ⟨name, tree⟩ := field
    obtain ⟨⟨ident, rfl⟩, htree, hfields⟩ := h
    have hfirst : (depths a b p).past (ident.text ++ [':', ' '] ++ tree.text quote) =
        depths (a - tree.arrows) b p := by
      rw [past_append, past_append,
        past_plain fun ch hch => isPlain_of_isNameChar (ident.isNameChar hch)]
      exact past_text hquote a b p tree htree
    by_cases hrest : rest = []
    · subst hrest
      exact hfirst
    rw [fieldTexts, joinWith_cons (mt fieldTexts_eq_nil.mp hrest), past_append,
      past_append, hfirst, past_plain (forall_of_all (by decide)),
      past_fieldTexts hquote _ _ _ rest hfields, arrowsFields]
    congr 1
    omega

end

/-- In braces or parentheses no mark is at depth zero. -/
def seen (b p count : Nat) : Nat := if b = 0 ∧ p = 0 then count else 0

theorem seen_add (b p first second : Nat) :
    seen b p (first + second) = seen b p first + seen b p second := by
  unfold seen
  split <;> omega

theorem marks_cons_ne {s : Scan} {rest : Text} (h : ch ≠ mark) :
    marks mark s (ch :: rest) = marks mark (s.step ch) rest := by
  rw [marks, Bool.and_comm]
  simp [h]

theorem marks_separator {separator : Char} {before after : Text}
    (hplain : ∀ ch ∈ before ++ separator :: after, isPlain ch = true) (hbefore : mark ∉ before)
    (hafter : mark ∉ after) :
    marks mark (depths a b p) (before ++ separator :: after) =
      seen b p (if a = 0 ∧ mark = separator then 1 else 0) := by
  have hpre : ∀ ch ∈ before, isPlain ch = true := fun ch hch => hplain ch (mem_append_left _ hch)
  rw [marks_append, marks_eq_zero hbefore, past_plain hpre, marks, marks_eq_zero hafter,
    atTop_depths, seen]
  by_cases hmark : separator = mark
  · subst hmark
    by_cases ha : a = 0 <;> by_cases hb : b = 0 <;> by_cases hp : p = 0 <;> simp [ha, hb, hp]
  · simp [hmark, Ne.symm hmark]

theorem marks_field (hmark : IsMark mark) {ident : Ident} (rest : Text) :
    marks mark (depths a b p) (ident.text ++ [':', ' '] ++ rest) =
      marks mark (depths a b p) rest := by
  have hident : ∀ ch ∈ ident.text, isNameChar ch = true := fun ch hch => ident.isNameChar hch
  have hcolon : mark ∉ [':', ' '] := by obtain rfl | rfl | rfl := hmark <;> decide
  rw [marks_append, marks_append, past_append,
    marks_eq_zero (notMem_of_isNameChar hident (IsMark.isNameChar hmark)),
    past_plain fun ch hch => isPlain_of_isNameChar (hident ch hch), marks_eq_zero hcolon,
    past_plain (forall_of_all (by decide)), Nat.zero_add]

theorem spillsAll_cons {separator : Char} {tree : TypeTree} {rest : List TypeTree}
    (hne : rest ≠ []) : spillsAll mark separator a (tree :: rest) =
      tree.spills mark a + (if a ≤ tree.arrows ∧ mark = separator then 1 else 0) +
        spillsAll mark separator (a - tree.arrows) rest := by
  cases rest with
  | nil => exact absurd rfl hne
  | cons next rest =>
    rw [spillsAll]
    rintro ⟨⟩

mutual

/-- The marks that a scanner meets at depth zero. -/
theorem marks_text (hquote : Quoting quote ok) (hmark : IsMark mark) (a b p : Nat)
    (tree : TypeTree) (h : tree.Grammatical) :
    marks mark (depths a b p) (tree.text quote) = seen b p (tree.spills mark a) := by
  have hstring : mark ≠ '"' := by obtain rfl | rfl | rfl := hmark <;> decide
  cases tree with
  | string value => rw [text, marks_quote hquote hstring, spills, seen, ite_self]
  | name path => rw [text, marks_root h.1 hmark, spills, seen, ite_self]
  | generic root args =>
    have hangle : '<' ≠ mark ∧ '>' ≠ mark := by obtain rfl | rfl | rfl := hmark <;> decide
    have hsep : mark ∉ [' '] := by obtain rfl | rfl | rfl := hmark <;> decide
    rw [text, marks_append, marks_append, marks_root h.1 hmark, past_root h.1,
      marks_cons_ne hangle.1, marks_cons_ne hangle.2, Nat.zero_add]
    exact marks_texts hquote hmark (a + 1) b p (forall_of_all (by decide)) not_mem_nil hsep args h.2
  | any interface =>
    have hany : mark ∉ ['a', 'n', 'y', ' '] := by obtain rfl | rfl | rfl := hmark <;> decide
    rw [text, marks_append, marks_eq_zero hany, past_plain (forall_of_all (by decide)),
      Nat.zero_add]
    exact marks_text hquote hmark a b p interface h.2
  | function params returnType =>
    -- the parenthesis that ends the parameters is inside of those that hold them
    have hopen : mark ∉ ['f', 'n', '('] := by obtain rfl | rfl | rfl := hmark <;> decide
    have harrow : mark ∉ [' ', '-', '>', ' '] := by obtain rfl | rfl | rfl := hmark <;> decide
    have hclose : marks mark (depths (a - arrowsFields params) b (p + 1))
        [')', ' ', '-', '>', ' '] = 0 := by
      rw [marks, atTop_depths, marks_eq_zero harrow]
      simp
    have hparams : marks mark ((depths a b p).past ['f', 'n', '('])
        (joinWith [',', ' '] (fieldTexts quote params)) = 0 :=
      marks_fieldTexts hquote hmark a b (p + 1) (by omega) params h.1
    have hover : (depths a b p).past (['f', 'n', '('] ++
        joinWith [',', ' '] (fieldTexts quote params)) =
          depths (a - arrowsFields params) b (p + 1) := by
      rw [past_append]
      exact past_fieldTexts hquote a b (p + 1) params h.1
    rw [text, marks_append, marks_append, marks_append, past_append _ (_ ++ _), hover,
      marks_eq_zero hopen, hparams, hclose]
    show 0 + 0 + 0 + marks mark (depths (a - arrowsFields params - 1) b p) _ = _
    rw [marks_text hquote hmark _ b p returnType h.2, spills, Nat.sub_sub]
    omega
  | record fields =>
    have hbraces : '{' ≠ mark ∧ ' ' ≠ mark ∧ '}' ≠ mark := by
      obtain rfl | rfl | rfl := hmark <;> decide
    rw [spills, seen, ite_self]
    cases fields with
    | nil =>
      rw [text]
      exact marks_eq_zero (by simp [hbraces.1.symm, hbraces.2.2.symm])
    | cons field fields =>
      rw [text, marks_append, marks_append,
        marks_eq_zero (by simp [hbraces.1.symm, hbraces.2.1.symm])]
      show 0 + marks mark (depths a (b + 1) p) _ + _ = 0
      rw [marks_fieldTexts hquote hmark a (b + 1) p (by omega) (field :: fields) h,
        marks_eq_zero (by simp [hbraces.2.1.symm, hbraces.2.2.symm])]
  | nullable inner =>
    have hmark' : mark ∉ ['?'] := by obtain rfl | rfl | rfl := hmark <;> decide
    rw [text, marks_append, marks_eq_zero hmark', Nat.add_zero]
    exact marks_text hquote hmark a b p inner h.2.2
  | union branches =>
    have hsep : mark ∉ [' '] := by obtain rfl | rfl | rfl := hmark <;> decide
    exact marks_texts hquote hmark a b p (forall_of_all (by decide)) hsep hsep branches h.2.1

theorem marks_texts (hquote : Quoting quote ok) (hmark : IsMark mark) (a b p : Nat)
    {separator : Char} {before after : Text}
    (hplain : ∀ ch ∈ before ++ separator :: after, isPlain ch = true) (hbefore : mark ∉ before)
    (hafter : mark ∉ after) (trees : List TypeTree) (h : GrammaticalAll trees) :
    marks mark (depths a b p) (joinWith (before ++ separator :: after) (texts quote trees)) =
      seen b p (spillsAll mark separator a trees) := by
  cases trees with
  | nil => exact (ite_self _).symm
  | cons tree rest =>
    have hfirst := marks_text hquote hmark a b p tree h.1
    cases rest with
    | nil => exact hfirst
    | cons next rest =>
      rw [texts, joinWith_cons (by simp [texts]), marks_append, marks_append,
        past_append, hfirst, past_text hquote a b p tree h.1, past_plain hplain,
        marks_separator hplain hbefore hafter,
        marks_texts hquote hmark _ b p hplain hbefore hafter (next :: rest) h.2,
        ← seen_add, ← seen_add, spillsAll_cons (cons_ne_nil _ _)]
      simp only [Nat.sub_eq_zero_iff_le]

theorem marks_fieldTexts (hquote : Quoting quote ok) (hmark : IsMark mark) (a b p : Nat)
    (hdeep : 0 < b ∨ 0 < p) (fields : List (Text × TypeTree))
    (h : GrammaticalFields fields) :
    marks mark (depths a b p) (joinWith [',', ' '] (fieldTexts quote fields)) = 0 := by
  have hnone : ∀ count, seen b p count = 0 := fun count => by
    rw [seen, if_neg (by omega)]
  cases fields with
  | nil => rfl
  | cons field rest =>
    obtain ⟨name, tree⟩ := field
    obtain ⟨⟨ident, rfl⟩, htree, hfields⟩ := h
    have hfirst : marks mark (depths a b p) (ident.text ++ [':', ' '] ++ tree.text quote) = 0 := by
      rw [marks_field hmark, marks_text hquote hmark a b p tree htree, hnone]
    have hover : (depths a b p).past (ident.text ++ [':', ' '] ++ tree.text quote) =
        depths (a - tree.arrows) b p := by
      rw [past_append, past_append,
        past_plain fun ch hch => isPlain_of_isNameChar (ident.isNameChar hch)]
      exact past_text hquote a b p tree htree
    by_cases hrest : rest = []
    · subst hrest
      exact hfirst
    have hspace : mark ∉ [' '] := by obtain rfl | rfl | rfl := hmark <;> decide
    have hsep : marks mark (depths (a - tree.arrows) b p) [',', ' '] = 0 :=
      (@marks_separator _ b p mark ',' [] [' '] (forall_of_all (by decide)) not_mem_nil
        hspace).trans (hnone _)
    rw [fieldTexts, joinWith_cons (mt fieldTexts_eq_nil.mp hrest), marks_append,
      marks_append, past_append _ (_ ++ _) [',', ' '], hfirst, hover,
      past_plain (forall_of_all (by decide)), hsep,
        marks_fieldTexts hquote hmark _ b p hdeep rest hfields]

end

end Scan

end Skiff.Syntax
