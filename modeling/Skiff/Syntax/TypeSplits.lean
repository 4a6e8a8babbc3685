import Skiff.Syntax.TypeScans

/-!
# Splitting the texts of trees

A text that is joined from parts is split into those parts, unless a part spills a delimiter; then
there are more. The parts of a generic type are found by their own scanner, which passes arrows
over.
-/

namespace Skiff.Syntax

open Recoverable (isWhitespace)
open TypeExpr (joinWith)
open Scan (depths marks isPlain)
open TypeTree Scan List

/-! ## Trimming -/

/-- A text that `trim` leaves as it is. -/
structure Tight (text : Text) : Prop where
  first : ∃ ch rest, text = ch :: rest ∧ isWhitespace ch = false
  last : ∃ front ch, text = front ++ [ch] ∧ isWhitespace ch = false

section

variable {before after text : Text}

theorem trimStart_append (h : ∀ ch ∈ before, isWhitespace ch = true) :
    trimStart (before ++ text) = trimStart text := dropWhile_append_of_pos h

theorem trimEnd_append (h : ∀ ch ∈ after, isWhitespace ch = true) :
    trimEnd (text ++ after) = trimEnd text := by
  rw [trimEnd, trimEnd, reverse_append, dropWhile_append_of_pos]
  simpa using h

theorem Tight.trimStart (h : Tight text) (rest : Text) :
    Syntax.trimStart (text ++ rest) = text ++ rest := by
  obtain ⟨ch, tail, rfl, hch⟩ := h.first
  rw [cons_append, Syntax.trimStart, dropWhile_cons_of_neg]
  rw [hch]
  exact Bool.false_ne_true

theorem Tight.trimEnd (h : Tight text) : Syntax.trimEnd text = text := by
  obtain ⟨front, ch, rfl, hch⟩ := h.last
  rw [Syntax.trimEnd, reverse_append, reverse_singleton, singleton_append,
    dropWhile_cons_of_neg (by rw [hch]; exact Bool.false_ne_true), reverse_cons,
    reverse_reverse]

theorem Tight.trim_pad (h : Tight text) (hbefore : ∀ ch ∈ before, isWhitespace ch = true)
    (hafter : ∀ ch ∈ after, isWhitespace ch = true) : trim (before ++ (text ++ after)) = text := by
  rw [trim, trimStart_append hbefore, h.trimStart, trimEnd_append hafter, h.trimEnd]

theorem Tight.trim (h : Tight text) : Syntax.trim text = text := by
  have hpad := h.trim_pad (forall_mem_nil _) (forall_mem_nil _)
  rwa [nil_append, append_nil] at hpad

theorem Tight.ne_nil (h : Tight text) : text ≠ [] := by
  obtain ⟨ch, rest, rfl, -⟩ := h.first
  exact cons_ne_nil _ _

theorem Tight.isEmpty (h : Tight text) : text.isEmpty = false := by
  obtain ⟨ch, rest, rfl, -⟩ := h.first
  rfl

theorem Tight.append {first second : Text} (h : Tight first) (h' : Tight second) (middle : Text) :
    Tight (first ++ middle ++ second) := by
  obtain ⟨ch, rest, rfl, hch⟩ := h.first
  obtain ⟨front, last, rfl, hlast⟩ := h'.last
  exact ⟨⟨ch, rest ++ middle ++ (front ++ [last]), rfl, hch⟩,
    ⟨ch :: rest ++ middle ++ front, last, by simp, hlast⟩⟩

end

theorem tight_joinWith {separator : Text} {parts : List Text} (h : ∀ part ∈ parts, Tight part)
    (hne : parts ≠ []) : Tight (joinWith separator parts) := by
  induction parts with
  | nil => exact absurd rfl hne
  | cons first rest ih =>
    have hfirst := h first (.head _)
    by_cases hrest : rest = []
    · subst hrest
      exact hfirst
    rw [joinWith_cons hrest]
    exact hfirst.append (ih (fun part hpart => h part (.tail _ hpart)) hrest) _

/-! ## Splitting at depth zero -/

section

variable {delimiter : Char} {s : Scan} {part text : Text}

theorem step_of_atTop (h : s.atTop = true) (hplain : isPlain delimiter = true) :
    s.step delimiter = s := by
  have hstring : s.inString = false := by
    simp only [atTop, Bool.and_eq_true, Bool.not_eq_true'] at h
    exact h.1.1.1
  simp only [isPlain, Bool.and_eq_true, bne_iff_ne, ne_eq] at hplain
  simp [step, hstring, hplain]

/-- There is a part more than delimiters at depth zero. -/
theorem length_splitParts (hplain : isPlain delimiter = true) :
    (splitParts delimiter s part text).length = marks delimiter s text + 1 := by
  induction text generalizing s part with
  | nil => rfl
  | cons ch rest ih =>
    rw [splitParts, marks]
    split
    case isTrue h =>
      rw [Bool.and_eq_true, beq_iff_eq] at h
      rw [length_cons, ih, h.2, step_of_atTop h.1 hplain]
      omega
    case isFalse =>
      rw [ih]
      omega

theorem splitParts_of_marks (h : marks delimiter s text = 0) :
    splitParts delimiter s part text = [trim (part ++ text)] := by
  induction text generalizing s part with
  | nil => rw [splitParts, append_nil]
  | cons ch rest ih =>
    rw [marks] at h
    rw [splitParts]
    split
    case isTrue htop =>
      rw [if_pos htop] at h
      omega
    case isFalse => rw [ih (by omega), append_assoc, singleton_append]

/-- The first delimiter at depth zero ends the first part. -/
theorem splitParts_append (h : marks delimiter s text = 0) (htop : (s.past text).atTop = true)
    (rest : Text) : splitParts delimiter s part (text ++ delimiter :: rest) =
      trim (part ++ text) :: splitParts delimiter (s.past text) [] rest := by
  induction text generalizing s part with
  | nil =>
    rw [nil_append, splitParts, append_nil, if_pos]
    · rfl
    rw [show s.past [] = s from rfl] at htop
    simp [htop]
  | cons ch text ih =>
    rw [marks] at h
    rw [cons_append, splitParts]
    split
    case isTrue htop' =>
      rw [if_pos htop'] at h
      omega
    case isFalse =>
      rw [ih (by omega) htop, append_assoc, singleton_append]
      rfl

theorem findTopLevel_append (h : marks delimiter s text = 0) (htop : (s.past text).atTop = true)
    (rest : Text) : findTopLevel delimiter s part (text ++ delimiter :: rest) =
      some (part ++ text, rest) := by
  induction text generalizing s part with
  | nil =>
    rw [nil_append, findTopLevel, append_nil, if_pos]
    rw [show s.past [] = s from rfl] at htop
    simp [htop]
  | cons ch text ih =>
    rw [marks] at h
    rw [cons_append, findTopLevel]
    split
    case isTrue htop' =>
      rw [if_pos htop'] at h
      omega
    case isFalse => rw [ih (by omega) htop, append_assoc, singleton_append]

/-- A part that the scanners come out of as they came in. -/
structure Part (text : Text) : Prop where
  tight : Tight text
  level : (depths 0 0 0).past text = depths 0 0 0

/-- A delimiter with blanks around it. -/
structure Separates (before : Text) (delimiter : Char) (after : Text) : Prop where
  plain : ∀ ch ∈ before ++ delimiter :: after, isPlain ch = true
  blankBefore : ∀ ch ∈ before, isWhitespace ch = true ∧ ch ≠ delimiter
  blankAfter : ∀ ch ∈ after, isWhitespace ch = true ∧ ch ≠ delimiter

variable {before after : Text} {parts : List Text}

theorem Separates.marks_eq (h : Separates before delimiter after) :
    marks delimiter (depths 0 0 0) (before ++ delimiter :: after) = 1 := by
  rw [marks_separator h.plain (fun hmem => (h.blankBefore _ hmem).2 rfl)
    (fun hmem => (h.blankAfter _ hmem).2 rfl)]
  simp [seen]

theorem marks_joinWith (h : Separates before delimiter after) (hparts : ∀ x ∈ parts, Part x)
    (hne : parts ≠ []) :
    marks delimiter (depths 0 0 0) (joinWith (before ++ delimiter :: after) parts) + 1 =
      (parts.map (marks delimiter (depths 0 0 0))).sum + parts.length := by
  induction parts with
  | nil => exact absurd rfl hne
  | cons first rest ih =>
    by_cases hrest : rest = []
    · subst hrest
      simp [joinWith]
    have hih := ih (fun x hx => hparts x (.tail _ hx)) hrest
    rw [joinWith_cons hrest, marks_append, marks_append, past_append,
      (hparts first (.head _)).level, h.marks_eq, past_plain h.plain,
      map_cons, sum_cons, length_cons]
    omega

theorem length_splitTopLevel (h : Separates before delimiter after)
    (hparts : ∀ x ∈ parts, Part x) (hne : parts ≠ []) :
    (splitTopLevel (joinWith (before ++ delimiter :: after) parts) delimiter).length =
      (parts.map (marks delimiter (depths 0 0 0))).sum + parts.length := by
  have hplain : isPlain delimiter = true := h.plain delimiter (mem_append_right _ (.head _))
  rw [splitTopLevel, length_splitParts hplain]
  exact marks_joinWith h hparts hne

theorem splitParts_blank (hplain : ∀ ch ∈ after, isPlain ch = true) (hne : delimiter ∉ after)
    (rest : Text) : splitParts delimiter (depths 0 0 0) part (after ++ rest) =
      splitParts delimiter (depths 0 0 0) (part ++ after) rest := by
  induction after generalizing part with
  | nil => rw [nil_append, append_nil]
  | cons ch after ih =>
    have hch : ch ≠ delimiter := fun heq => hne (heq ▸ (.head _))
    rw [cons_append, splitParts, if_neg (by simp [hch]),
      step_plain (hplain ch (.head _)),
      ih (fun c hc => hplain c (.tail _ hc))
        (fun hmem => hne (.tail _ hmem)), append_assoc, singleton_append]

/-- Parts without a delimiter at depth zero are split where they were joined. -/
theorem splitTopLevel_joinWith (h : Separates before delimiter after)
    (hparts : ∀ x ∈ parts, Part x) (hmarks : ∀ x ∈ parts, marks delimiter (depths 0 0 0) x = 0)
    (hne : parts ≠ []) :
    splitTopLevel (joinWith (before ++ delimiter :: after) parts) delimiter = parts := by
  have hsplit : ∀ part, (∀ ch ∈ part, isWhitespace ch = true) →
      splitParts delimiter (depths 0 0 0) part
        (joinWith (before ++ delimiter :: after) parts) = parts := by
    induction parts with
    | nil => exact absurd rfl hne
    | cons first rest ih =>
      intro part hpart
      have hfirst := hparts first (.head _)
      have hzero := hmarks first (.head _)
      by_cases hrest : rest = []
      · subst hrest
        rw [joinWith, splitParts_of_marks hzero]
        have hpad := hfirst.tight.trim_pad hpart (forall_mem_nil _)
        rw [append_nil] at hpad
        rw [hpad]
      have hbefore : ∀ ch ∈ before, isPlain ch = true :=
        fun ch hch => h.plain ch (mem_append_left _ hch)
      have hafter : ∀ ch ∈ after, isPlain ch = true := fun ch hch =>
        h.plain ch (mem_append_right _ (.tail _ hch))
      have hlevel : (depths 0 0 0).past (first ++ before) = depths 0 0 0 := by
        rw [past_append, hfirst.level, past_plain hbefore]
      have hnone : marks delimiter (depths 0 0 0) (first ++ before) = 0 := by
        rw [marks_append, hzero, hfirst.level,
          marks_eq_zero fun hmem => (h.blankBefore _ hmem).2 rfl]
      have hih := ih (fun x hx => hparts x (.tail _ hx))
        (fun x hx => hmarks x (.tail _ hx)) hrest after
        fun ch hch => (h.blankAfter ch hch).1
      rw [joinWith_cons hrest, append_assoc first, append_assoc before,
        cons_append, ← append_assoc first,
        splitParts_append hnone (by rw [hlevel]; rfl), hlevel,
        splitParts_blank hafter fun hmem => (h.blankAfter _ hmem).2 rfl, nil_append, hih,
        hfirst.tight.trim_pad hpart fun ch hch => (h.blankBefore ch hch).1]
  exact hsplit [] (forall_mem_nil _)

end

/-! ## The ends of a text -/

section

variable {quote : Text → Text} {ok : Text → Prop}

theorem IsRoot.first {root : Text} (h : IsRoot root) (rest : Text) :
    ∃ ch tail, root ++ rest = ch :: tail ∧ isWhitespace ch = false := by
  cases h with
  | path hne h =>
    obtain ⟨ch, tail, rfl⟩ := exists_cons_of_ne_nil hne
    exact ⟨ch, tail ++ rest, rfl, isWhitespace_of_isNameChar (h ch (.head _))⟩
  | quoted value h => exact ⟨'"', _, rfl, by decide⟩

theorem IsRoot.last {root : Text} (h : IsRoot root) :
    ∃ front ch, root = front ++ [ch] ∧ (ch = '"' ∨ isNameChar ch = true) := by
  cases h with
  | path hne h =>
    refine ⟨root.dropLast, root.getLast hne, (dropLast_concat_getLast hne).symm, .inr ?_⟩
    exact h _ (getLast_mem hne)
  | @quoted value suffix h =>
    by_cases hsuffix : suffix = []
    · subst hsuffix
      exact ⟨'"' :: value.flatMap escapeStringType, '"', by rw [quoteStringType]; simp, .inl rfl⟩
    refine ⟨quoteStringType value ++ suffix.dropLast, suffix.getLast hsuffix, ?_, .inr ?_⟩
    · rw [append_assoc, dropLast_concat_getLast]
    · exact h _ (getLast_mem hsuffix)

/-- A text that ends with this character, which is neither blank nor the dash of an arrow. -/
def EndsWith (text : Text) (isMark : Bool) : Prop :=
  ∃ front ch, text = front ++ [ch] ∧ isWhitespace ch = false ∧ ch ≠ '-' ∧ (ch = '?' ↔ isMark = true)

theorem EndsWith.append {text : Text} {isMark : Bool} (h : EndsWith text isMark)
    (before : Text) : EndsWith (before ++ text) isMark := by
  obtain ⟨front, ch, rfl, hch⟩ := h
  exact ⟨before ++ front, ch, (append_assoc _ _ _).symm, hch⟩

mutual

theorem text_endsWith (hquote : Quoting quote ok) (tree : TypeTree) (h : tree.Grammatical) :
    EndsWith (tree.text quote) tree.endsNullable := by
  cases tree with
  | string value =>
    rw [text, hquote.quoted]
    exact ⟨'"' :: hquote.body value, '"', rfl, by decide, by decide, by simp [endsNullable]⟩
  | name path =>
    obtain ⟨front, ch, rfl, hch⟩ := h.1.last
    have hname : isNameChar ch = true := hch.resolve_left fun heq => h.2 (by simp [heq])
    have hmark : ch ≠ '?' := ne_of_isNameChar hname (by rfl)
    refine ⟨front, ch, rfl, isWhitespace_of_isNameChar hname, ne_of_isNameChar hname (by rfl), ?_⟩
    simp [endsNullable, hmark]
  | generic root args => exact ⟨_, '>', rfl, by decide, by decide, by simp [endsNullable]⟩
  | any interface => exact (text_endsWith hquote interface h.2).append _
  | function params returnType => exact (text_endsWith hquote returnType h.2).append _
  | record fields =>
    cases fields with
    | nil => exact ⟨['{'], '}', rfl, by decide, by decide, by simp [endsNullable]⟩
    | cons field fields =>
      refine ⟨['{', ' '] ++ joinWith [',', ' '] (fieldTexts quote (field :: fields)) ++
        [' '], '}', ?_, by decide, by decide, by simp [endsNullable]⟩
      rw [text, append_assoc _ [' ']]
      rfl
  | nullable inner => exact ⟨_, '?', rfl, by decide, by decide, by simp [endsNullable]⟩
  | union branches =>
    have hne : branches ≠ [] := by
      rintro rfl
      exact absurd h.1 (by simp)
    exact joinWith_endsWith hquote _ branches h.2.1 hne

theorem joinWith_endsWith (hquote : Quoting quote ok) (separator : Text) (trees : List TypeTree)
    (h : GrammaticalAll trees) (hne : trees ≠ []) :
    EndsWith (joinWith separator (texts quote trees)) (endsNullable.lastEndsNullable trees) := by
  cases trees with
  | nil => exact absurd rfl hne
  | cons tree rest =>
    cases rest with
    | nil => exact text_endsWith hquote tree h.1
    | cons next rest =>
      have hrest := joinWith_endsWith hquote separator (next :: rest) h.2 (cons_ne_nil _ _)
      rw [texts, joinWith_cons (by simp [texts])]
      exact hrest.append _

end

theorem text_first (hquote : Quoting quote ok) (tree : TypeTree) (h : tree.Grammatical)
    (rest : Text) :
    ∃ ch tail, tree.text quote ++ rest = ch :: tail ∧ isWhitespace ch = false := by
  match htree : tree with
  | .string value => exact ⟨'"', _, by rw [text, hquote.quoted]; rfl, by decide⟩
  | .name path => exact h.1.first rest
  | .generic root args =>
    rw [text, append_assoc, append_assoc]
    exact h.1.first _
  | .any interface => exact ⟨'a', _, rfl, by decide⟩
  | .function params returnType => exact ⟨'f', _, rfl, by decide⟩
  | .record [] | .record (field :: fields) => exact ⟨'{', _, rfl, by decide⟩
  | .nullable inner =>
    rw [text, append_assoc]
    exact text_first hquote inner h.2.2 _
  | .union [] | .union [branch] => exact absurd h.1 (by simp)
  | .union (branch :: next :: branches) =>
    rw [text, texts, joinWith_cons (by simp [texts]), append_assoc, append_assoc]
    exact text_first hquote branch h.2.1.1 _

variable {tree : TypeTree}

theorem text_tight (hquote : Quoting quote ok) (h : tree.Grammatical) :
    Tight (tree.text quote) := by
  obtain ⟨ch, tail, heq, hch⟩ := text_first hquote tree h []
  obtain ⟨front, last, heq', hlast, -⟩ := text_endsWith hquote tree h
  rw [append_nil] at heq
  exact ⟨⟨ch, tail, heq, hch⟩, ⟨front, last, heq', hlast⟩⟩

/-- The text of a tree leaves the scanners at depth zero. -/
theorem text_part (hquote : Quoting quote ok) (h : tree.Grammatical) : Part (tree.text quote) := by
  refine ⟨text_tight hquote h, ?_⟩
  rw [past_text hquote 0 0 0 tree h, Nat.zero_sub]

theorem marks_text_top (hquote : Quoting quote ok) {mark : Char} (hmark : IsMark mark)
    (h : tree.Grammatical) :
    marks mark (depths 0 0 0) (tree.text quote) = tree.spills mark 0 := by
  rw [marks_text hquote hmark 0 0 0 tree h]
  rfl

/-! ## Fields -/

theorem Ident.tight (ident : Ident) : Tight ident.text := by
  have hname : ∀ ch ∈ ident.text, Syntax.isNameChar ch = true := fun ch => ident.isNameChar
  have hne : ident.text ≠ [] := by
    obtain ⟨ch, rest, htext, -⟩ := ident.shape
    rw [htext]
    exact cons_ne_nil _ _
  refine ⟨?_, ?_⟩
  · obtain ⟨ch, rest, heq⟩ := exists_cons_of_ne_nil hne
    refine ⟨ch, rest, heq, isWhitespace_of_isNameChar (hname ch ?_)⟩
    rw [heq]
    exact .head _
  refine ⟨_, _, (dropLast_concat_getLast hne).symm, ?_⟩
  exact isWhitespace_of_isNameChar (hname _ (getLast_mem hne))

def fieldText (quote : Text → Text) (field : Text × TypeTree) : Text :=
  field.1 ++ [':', ' '] ++ field.2.text quote

variable (fields : List (Text × TypeTree))

theorem fieldTexts_eq : fieldTexts quote fields = fields.map (fieldText quote) := by
  induction fields with
  | nil => rfl
  | cons field rest ih => rw [fieldTexts, ih]; rfl

theorem texts_eq (trees : List TypeTree) : texts quote trees = trees.map (text quote) := by
  induction trees with
  | nil => rfl
  | cons tree rest ih => rw [texts, ih]; rfl

theorem exprs_eq (trees : List TypeTree) : exprs trees = trees.map expr := by
  induction trees with
  | nil => rfl
  | cons tree rest ih => rw [exprs, ih]; rfl

theorem fieldExprs_eq : fieldExprs fields = fields.map fun field => (field.1, field.2.expr) := by
  induction fields with
  | nil => rfl
  | cons field rest ih => rw [fieldExprs, ih]; rfl

theorem grammaticalAll_iff {trees : List TypeTree} :
    GrammaticalAll trees ↔ ∀ tree ∈ trees, tree.Grammatical := by
  induction trees with
  | nil => simp [GrammaticalAll]
  | cons tree rest ih => simp [GrammaticalAll, ih]

theorem grammaticalFields_iff {fields : List (Text × TypeTree)} :
    GrammaticalFields fields ↔
      ∀ field ∈ fields, (∃ ident : Ident, ident.text = field.1) ∧ field.2.Grammatical := by
  induction fields with
  | nil => simp [GrammaticalFields]
  | cons field rest ih => simp [GrammaticalFields, ih, and_assoc]

variable {field : Text × TypeTree}

theorem fieldText_part (hquote : Quoting quote ok) (hname : ∃ ident : Ident, ident.text = field.1)
    (h : field.2.Grammatical) : Part (fieldText quote field) := by
  obtain ⟨ident, hident⟩ := hname
  have htree := text_part hquote h
  refine ⟨?_, ?_⟩
  · rw [fieldText, ← hident]
    exact ident.tight.append htree.tight _
  rw [fieldText, ← hident, past_append, past_append,
    past_plain fun ch hch => isPlain_of_isNameChar (ident.isNameChar hch)]
  exact htree.level

theorem marks_fieldText (hquote : Quoting quote ok) {mark : Char} (hmark : IsMark mark)
    (hname : ∃ ident : Ident, ident.text = field.1) (h : field.2.Grammatical) :
    marks mark (depths 0 0 0) (fieldText quote field) = field.2.spills mark 0 := by
  obtain ⟨ident, hident⟩ := hname
  rw [fieldText, ← hident, marks_field hmark, marks_text_top hquote hmark h]

theorem splitTopLevelOnce_fieldText (hquote : Quoting quote ok)
    (hname : ∃ ident : Ident, ident.text = field.1) (h : field.2.Grammatical) :
    splitTopLevelOnce (fieldText quote field) ':' = some (field.1, field.2.text quote) := by
  obtain ⟨ident, hident⟩ := hname
  have hchars : ∀ ch ∈ ident.text, isNameChar ch = true := fun ch => ident.isNameChar
  have hfind : findTopLevel ':' .start [] (ident.text ++ ':' :: ' ' :: field.2.text quote) =
      some ([] ++ ident.text, ' ' :: field.2.text quote) := by
    apply findTopLevel_append
    · exact marks_eq_zero (notMem_of_isNameChar hchars rfl)
    show ((depths 0 0 0).past _).atTop = true
    rw [past_plain fun ch hch => isPlain_of_isNameChar (hchars ch hch)]
    rfl
  have htrim : trim (' ' :: field.2.text quote) = field.2.text quote := by
    have hpad := (text_tight hquote h).trim_pad
      (show ∀ ch ∈ [' '], isWhitespace ch = true from forall_of_all rfl) (forall_mem_nil _)
    rwa [append_nil] at hpad
  rw [splitTopLevelOnce, fieldText, ← hident, append_assoc]
  show (findTopLevel ':' .start [] (ident.text ++ ':' :: ' ' :: field.2.text quote)).map _ = _
  rw [hfind]
  show some (trim ([] ++ ident.text), trim (' ' :: field.2.text quote)) = _
  rw [nil_append, ident.tight.trim, htrim]

theorem findColon_name {name rest : Text} (h : ∀ ch ∈ name, isNameChar ch = true) (before : Text) :
    findColon (depths 0 0 0) before (name ++ ':' :: rest) = some (before ++ name, rest) := by
  induction name generalizing before with
  | nil =>
    rw [nil_append, findColon, append_nil]
    rfl
  | cons ch name ih =>
    have hch := h ch (.head _)
    have hcolon : ch ≠ ':' := ne_of_isNameChar hch (by rfl)
    have hparen : ¬ (ch = '(' ∨ ch = ')') := by
      rintro (heq | heq)
      · exact ne_of_isNameChar hch (by rfl) heq
      · exact ne_of_isNameChar hch (by rfl) heq
    rw [cons_append, findColon, if_neg (by simp [hcolon]), if_neg hparen,
      step_plain (isPlain_of_isNameChar hch),
      ih (fun c hc => h c (.tail _ hc)), append_assoc, singleton_append]

/-- A field is split at its first colon, which ends its name. -/
theorem splitRecordTypeField_fieldText (hquote : Quoting quote ok)
    (hname : ∃ ident : Ident, ident.text = field.1) (h : field.2.Grammatical) :
    splitRecordTypeField (fieldText quote field) = some (field.1, field.2.text quote) := by
  obtain ⟨ident, hident⟩ := hname
  have htrim : trim (' ' :: field.2.text quote) = field.2.text quote := by
    have hpad := (text_tight hquote h).trim_pad
      (show ∀ ch ∈ [' '], isWhitespace ch = true from forall_of_all rfl) (forall_mem_nil _)
    rwa [append_nil] at hpad
  rw [splitRecordTypeField, fieldText, ← hident, append_assoc]
  show (findColon (depths 0 0 0) [] (ident.text ++ ':' :: ' ' :: field.2.text quote)).map _ = _
  rw [findColon_name fun ch => ident.isNameChar]
  show some (trim ([] ++ ident.text), trim (' ' :: field.2.text quote)) = _
  rw [nil_append, ident.tight.trim, htrim]

end

end Skiff.Syntax
