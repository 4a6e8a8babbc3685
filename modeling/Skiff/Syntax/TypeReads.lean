import Skiff.Syntax.TypeHeads

/-!
# Reading the text of a tree

`TypeExpr::parse` reads the text of a tree as that tree exactly when the scanners split the text of
each of its types where the parser did, and its string literals are written as JSON has them.
-/

namespace Skiff.Syntax

open Recoverable (isWhitespace)
open TypeExpr (joinWith parseWith)
open Scan (depths marks)
open TypeTree List Scan TypeExpr

namespace TypeTree

mutual

/-- The scanners see this tree in its text. An arrow in angle brackets closes one of them for the
scanners, so that they may take a `,` or a `|` that is in them to be at depth zero; a union or a
`?` at the end of the return type of a function is seen as one of the type that ends with it. -/
def Plain (ok : Text → Prop) : TypeTree → Prop
  | .string value => ok value
  | .name _ => True
  | .generic root args =>
    args ≠ [] ∧ (generic root args).spills '|' 0 = 0 ∧
      (∀ arg ∈ args, arg.spills ',' 0 = 0) ∧ PlainAll ok args
  | .any interface =>
    interface.spills '|' 0 = 0 ∧ interface.endsNullable = false ∧ interface.Plain ok
  | .function params returnType =>
    (∀ param ∈ params, param.2.spills ',' 0 = 0) ∧ PlainFields ok params ∧ returnType.Plain ok
  | .record fields => (∀ field ∈ fields, field.2.spills ',' 0 = 0) ∧ PlainFields ok fields
  | .nullable inner => inner.spills '|' 0 = 0 ∧ inner.Plain ok
  | .union branches => (∀ branch ∈ branches, branch.spills '|' 0 = 0) ∧ PlainAll ok branches

def PlainAll (ok : Text → Prop) : List TypeTree → Prop
  | [] => True
  | tree :: rest => tree.Plain ok ∧ PlainAll ok rest

def PlainFields (ok : Text → Prop) : List (Text × TypeTree) → Prop
  | [] => True
  | (_, tree) :: rest => tree.Plain ok ∧ PlainFields ok rest

end

end TypeTree

/-! ## The steps of `parse` -/

section

variable [SerdeJson]

/-- A text that is neither a literal nor a function. -/
structure Compound (text : Text) : Prop where
  tight : Tight text
  notEmptyRecord : text ≠ "{}".toList
  notString : stringLiteral text = none
  notFunction : functionTypeParts text = none

variable {text : Text} {fuel : Nat}

theorem parseWith_string (h : Tight text) (hempty : text ≠ "{}".toList) {value : Text}
    (hvalue : stringLiteral text = some value) :
    parseWith (fuel + 1) text = .stringLiteral value := by
  rw [parseWith, h.trim, h.isEmpty]
  simp only [Bool.false_eq_true, if_false, hempty, hvalue]

theorem parseWith_function (h : Tight text) (hempty : text ≠ "{}".toList)
    (hstring : stringLiteral text = none) {params : List (Text × Text)} {returnType : Text}
    (hparts : functionTypeParts text = some (params, returnType)) :
    parseWith (fuel + 1) text =
      .function (params.map fun param => (param.1, parseWith fuel param.2))
        (parseWith fuel returnType) := by
  rw [parseWith, h.trim, h.isEmpty]
  simp only [Bool.false_eq_true, if_false, hempty, hstring, hparts]

theorem Compound.parseWith_union (h : Compound text)
    (hsplit : 1 < (splitTopLevel text '|').length) :
    parseWith (fuel + 1) text = .union ((splitTopLevel text '|').map (parseWith fuel)) := by
  rw [parseWith, h.tight.trim, h.tight.isEmpty]
  simp only [Bool.false_eq_true, if_false, h.notEmptyRecord, h.notString, h.notFunction, hsplit,
    if_true]

theorem Compound.parseWith_nullable (h : Compound text)
    (hsplit : ¬ 1 < (splitTopLevel text '|').length) {inner : Text}
    (hinner : stripSuffix "?".toList text = some inner) :
    parseWith (fuel + 1) text = .nullable (parseWith fuel inner) := by
  rw [parseWith, h.tight.trim, h.tight.isEmpty]
  simp only [Bool.false_eq_true, if_false, h.notEmptyRecord, h.notString, h.notFunction, hsplit,
    hinner]

theorem Compound.parseWith_any (h : Compound text)
    (hsplit : ¬ 1 < (splitTopLevel text '|').length) (hsuffix : stripSuffix "?".toList text = none)
    {interface : Text} (hinterface : stripPrefix "any ".toList text = some interface) :
    parseWith (fuel + 1) text = .anyInterface (parseWith fuel (trim interface)) := by
  rw [parseWith, h.tight.trim, h.tight.isEmpty]
  simp only [Bool.false_eq_true, if_false, h.notEmptyRecord, h.notString, h.notFunction, hsplit,
    hsuffix, hinterface]

/-- Only the text of a function is read as one. -/
theorem Compound.parseWith_ne_function (h : Compound text) (params : List (Text × TypeExpr))
    (returnType : TypeExpr) : parseWith (fuel + 1) text ≠ .function params returnType := by
  rw [parseWith, h.tight.trim, h.tight.isEmpty]
  simp only [Bool.false_eq_true, if_false, h.notEmptyRecord, h.notString, h.notFunction]
  split
  · rintro ⟨⟩
  split
  · rintro ⟨⟩
  split
  · rintro ⟨⟩
  split
  · rintro ⟨⟩
  · rintro ⟨⟩
  split
  · rintro ⟨⟩
  · rintro ⟨⟩

/-- Past the suffixes and prefixes. -/
structure Compound.Named (text : Text) : Prop extends Compound text where
  notUnion : ¬ 1 < (splitTopLevel text '|').length
  notNullable : stripSuffix "?".toList text = none
  notAny : stripPrefix "any ".toList text = none

theorem Compound.Named.parseWith_record (h : Compound.Named text)
    {field : Text × Text} {fields : List (Text × Text)}
    (hfields : recordTypeFields text = some (field :: fields)) :
    parseWith (fuel + 1) text =
      .record ((field :: fields).map fun field => (field.1, parseWith fuel field.2)) := by
  rw [parseWith, h.tight.trim, h.tight.isEmpty]
  simp only [Bool.false_eq_true, if_false, h.notEmptyRecord, h.notString, h.notFunction,
    h.notUnion, h.notNullable, h.notAny, hfields]

theorem Compound.Named.parseWith_generic (h : Compound.Named text)
    (hrecord : recordTypeFields text = none) {parts : GenericParts}
    (hparts : genericParts text = some parts) :
    parseWith (fuel + 1) text = .named parts.root (parts.args.map (parseWith fuel)) := by
  rw [parseWith, h.tight.trim, h.tight.isEmpty]
  simp only [Bool.false_eq_true, if_false, h.notEmptyRecord, h.notString, h.notFunction,
    h.notUnion, h.notNullable, h.notAny, hrecord, hparts]

theorem Compound.Named.parseWith_name (h : Compound.Named text)
    (hrecord : recordTypeFields text = none) (hparts : genericParts text = none) :
    parseWith (fuel + 1) text = .named text [] := by
  rw [parseWith, h.tight.trim, h.tight.isEmpty]
  simp only [Bool.false_eq_true, if_false, h.notEmptyRecord, h.notString, h.notFunction,
    h.notUnion, h.notNullable, h.notAny, hrecord, hparts]

end

/-! ## What the text of a tree is taken for -/

variable {mark : Char}

section

variable {quote : Text → Text} {ok : Text → Prop} {tree : TypeTree}

section

variable (hquote : Quoting quote ok) (h : tree.Grammatical)
include hquote h

theorem compound_text [SerdeJson] [SerdeJson.Documented]
    (hrecord : tree.isEmptyRecord = false) (hstring : tree.isString = false)
    (hfunction : tree.isFunction = false) : Compound (tree.text quote) where
  tight := text_tight hquote h
  notEmptyRecord := text_ne_emptyRecord hquote h hrecord
  notString := stringLiteral_text hquote h hstring
  notFunction := functionTypeParts_text hquote h hfunction

theorem length_split_text :
    (splitTopLevel (tree.text quote) '|').length = tree.spills '|' 0 + 1 := by
  rw [splitTopLevel, length_splitParts rfl]
  exact congrArg (· + 1) (marks_text_top hquote (.inr (.inl rfl)) h)

theorem stripSuffix_text
    (hends : tree.endsNullable = false) : stripSuffix "?".toList (tree.text quote) = none := by
  obtain ⟨front, ch, heq, -, -, hmark⟩ := text_endsWith hquote tree h
  rw [stripSuffix, if_neg]
  rw [isSuffixOf_iff_suffix]
  rintro ⟨before, hbefore⟩
  rw [heq] at hbefore
  have hlast : '?' = ch := by
    have hgets := congrArg getLast? hbefore
    simpa using hgets
  rw [hmark.mp hlast.symm] at hends
  cases hends

end

theorem stripPrefix_append (mark text : Text) : stripPrefix mark (mark ++ text) = some text := by
  rw [stripPrefix, if_pos, drop_left]
  rw [ isPrefixOf_iff_prefix]
  exact prefix_append _ _

theorem stripSuffix_append (mark text : Text) : stripSuffix mark (text ++ mark) = some text := by
  rw [stripSuffix, if_pos, length_append, Nat.add_sub_cancel, take_left]
  rw [isSuffixOf_iff_suffix]
  exact suffix_append _ _

theorem stripSuffix_endsNullable (hquote : Quoting quote ok) (h : tree.Grammatical)
    (hends : tree.endsNullable = true) :
    ∃ inner, stripSuffix "?".toList (tree.text quote) = some inner := by
  obtain ⟨front, ch, heq, -, -, hmark⟩ := text_endsWith hquote tree h
  obtain rfl := hmark.mpr hends
  rw [heq]
  exact ⟨front, stripSuffix_append ['?'] front⟩

theorem recordTypeFields_root {root rest : Text} (hroot : IsRoot root)
    (htight : Tight (root ++ rest)) : recordTypeFields (root ++ rest) = none := by
  obtain ⟨ch, tail, heq, hch⟩ := hroot.head
  have hnone : stripPrefix ['{'] (root ++ rest) = none := by
    rw [stripPrefix, if_neg]
    rw [ isPrefixOf_iff_prefix, heq]
    exact fun hprefix => hch (cons_prefix_cons.mp hprefix).1.symm
  rw [recordTypeFields, htight.trim, hnone]
  rfl

theorem stripPrefix_any_root {root rest : Text} (hroot : IsRoot root)
    (hrest : ∀ c tail, rest = c :: tail → c ∉ "any ".toList) :
    stripPrefix "any ".toList (root ++ rest) = none := by
  rw [stripPrefix, if_neg]
  rw [ isPrefixOf_iff_prefix]
  exact not_prefix_root hroot (show ' ' ∈ "any ".toList by decide) rfl rfl (by decide) hrest

/-! ## Splitting what was joined -/

theorem separates_comma : Separates [] ',' [' '] :=
  ⟨forall_of_all rfl, forall_mem_nil _, forall_mem_singleton.mpr ⟨rfl, by decide⟩⟩

theorem separates_bar : Separates [' '] '|' [' '] :=
  ⟨forall_of_all rfl, forall_mem_singleton.mpr ⟨rfl, by decide⟩,
    forall_mem_singleton.mpr ⟨rfl, by decide⟩⟩

theorem length_le_joinWith {separator part : Text} {parts : List Text} (h : part ∈ parts) :
    part.length ≤ (joinWith separator parts).length := by
  induction parts with
  | nil => cases h
  | cons first rest ih =>
    by_cases hrest : rest = []
    · subst hrest
      rw [mem_singleton.mp h]
      exact le_rfl
    rw [joinWith_cons hrest, length_append, length_append]
    obtain rfl | h := mem_cons.mp h
    · omega
    have hpart := ih h
    omega

section

variable {α : Type} {before after : Text} {mark : Char} {items : List α} {shown : α → Text}
  {count : α → Nat}

section

variable (hsep : Separates before mark after)
variable (hparts : ∀ x ∈ items, Part (shown x))
variable (hcount : ∀ x ∈ items, marks mark (depths 0 0 0) (shown x) = count x)
variable (hne : items ≠ [])
include hsep hparts hcount hne

theorem splitTopLevel_items (hzero : ∀ x ∈ items, count x = 0) :
    splitTopLevel (joinWith (before ++ mark :: after) (items.map shown)) mark =
      items.map shown := by
  apply splitTopLevel_joinWith hsep
  · simpa using hparts
  · intro x hx
    obtain ⟨item, hitem, rfl⟩ := mem_map.mp hx
    rw [hcount item hitem, hzero item hitem]
  · simpa using hne

/-- A part with a mark at depth zero is split as well. -/
theorem length_splitTopLevel_items (hspill : ¬ ∀ x ∈ items, count x = 0) :
    items.length <
      (splitTopLevel (joinWith (before ++ mark :: after) (items.map shown)) mark).length := by
  have hsum : 0 < ((items.map shown).map (marks mark (depths 0 0 0))).sum := by
    rw [Nat.pos_iff_ne_zero]
    intro hzero
    refine hspill fun x hx => ?_
    have hmem : marks mark (depths 0 0 0) (shown x) ∈
        (items.map shown).map (marks mark (depths 0 0 0)) :=
      List.mem_map_of_mem (List.mem_map_of_mem hx)
    rw [← hcount x hx, List.sum_eq_zero_iff_forall_eq_nat.mp hzero _ hmem]
  rw [length_splitTopLevel hsep (by simpa using hparts) (by simpa using hne), List.length_map]
  omega

end

end

theorem text_parts (hquote : Quoting quote ok) {trees : List TypeTree}
    (h : GrammaticalAll trees) : ∀ tree ∈ trees, Part (tree.text quote) :=
  fun tree htree => text_part hquote (grammaticalAll_iff.mp h tree htree)

theorem marks_texts_top (hquote : Quoting quote ok) (hmark : IsMark mark)
    {trees : List TypeTree} (h : GrammaticalAll trees) :
    ∀ tree ∈ trees, marks mark (depths 0 0 0) (tree.text quote) = tree.spills mark 0 :=
  fun tree htree => marks_text_top hquote hmark (grammaticalAll_iff.mp h tree htree)

variable {fields : List (Text × TypeTree)}

theorem fieldText_parts (hquote : Quoting quote ok)
    (h : GrammaticalFields fields) : ∀ field ∈ fields, Part (fieldText quote field) := by
  intro field hfield
  obtain ⟨hname, htree⟩ := grammaticalFields_iff.mp h field hfield
  exact fieldText_part hquote hname htree

theorem marks_fieldTexts_top (hquote : Quoting quote ok) (hmark : IsMark mark)
    (h : GrammaticalFields fields) :
    ∀ field ∈ fields,
      marks mark (depths 0 0 0) (fieldText quote field) = field.2.spills mark 0 := by
  intro field hfield
  obtain ⟨hname, htree⟩ := grammaticalFields_iff.mp h field hfield
  exact marks_fieldText hquote hmark hname htree

theorem tight_fieldTexts (hquote : Quoting quote ok)
    (h : GrammaticalFields fields) (hne : fields ≠ []) :
    Tight (joinWith [',', ' '] (fields.map (fieldText quote))) := by
  refine tight_joinWith (fun part hpart => ?_) (by simpa using hne)
  obtain ⟨field, hfield, rfl⟩ := mem_map.mp hpart
  exact (fieldText_parts hquote h field hfield).tight

/-! ## Records and parameters -/

theorem splitRecordTypeFields_eq (hquote : Quoting quote ok) (h : GrammaticalFields fields) :
    (fields.map (fieldText quote)).mapM splitRecordTypeField =
      some (fields.map fun field => (field.1, field.2.text quote)) := by
  induction fields with
  | nil => rfl
  | cons field rest ih =>
    rw [map_cons, mapM_cons, splitRecordTypeField_fieldText hquote h.1 h.2.1, ih h.2.2]
    rfl

theorem length_of_mapM {α β : Type} {f : α → Option β} {items : List α} {results : List β}
    (h : items.mapM f = some results) : results.length = items.length := by
  induction items generalizing results with
  | nil =>
    cases h
    rfl
  | cons item rest ih =>
    rw [mapM_cons] at h
    obtain ⟨first, hfirst, h⟩ := Option.bind_eq_some_iff.mp h
    obtain ⟨more, hmore, h⟩ := Option.bind_eq_some_iff.mp h
    cases h
    rw [length_cons, length_cons, ih hmore]

theorem recordTypeFields_joinWith (hquote : Quoting quote ok)
    (h : GrammaticalFields fields) (hne : fields ≠ []) :
    recordTypeFields
        (['{', ' '] ++ joinWith [',', ' '] (fields.map (fieldText quote)) ++ [' ', '}']) =
      (splitTopLevel (joinWith [',', ' '] (fields.map (fieldText quote))) ',').mapM
        splitRecordTypeField := by
  have htight := tight_fieldTexts hquote h hne
  generalize joinWith [',', ' '] (fields.map (fieldText quote)) = joined at htight ⊢
  have hwhole : Tight (['{', ' '] ++ joined ++ [' ', '}']) :=
    ⟨⟨'{', _, rfl, by decide⟩, ⟨['{', ' '] ++ joined ++ [' '], '}', by simp, by decide⟩⟩
  have hprefix : stripPrefix ['{'] (['{', ' '] ++ joined ++ [' ', '}']) =
      some (([' '] ++ (joined ++ [' '])) ++ ['}']) := by
    rw [← stripPrefix_append ['{']]
    simp
  have htrim : trim ([' '] ++ (joined ++ [' '])) = joined :=
    htight.trim_pad (forall_mem_singleton.mpr rfl) (forall_mem_singleton.mpr rfl)
  rw [recordTypeFields, hwhole.trim, hprefix, Option.bind_some, stripSuffix_append]
  dsimp only
  rw [htrim, htight.isEmpty]
  rfl

end

mutual

/-- The parenthesis that ends the parameters is found past all of them. -/
theorem spills_paren (a : Nat) (tree : TypeTree) : tree.spills ')' a = 0 := by
  cases tree with
  | string value => rfl
  | name path => rfl
  | generic root args => exact spillsAll_paren (by decide) (a + 1) args
  | any interface => exact spills_paren a interface
  | function params returnType => exact spills_paren _ returnType
  | record fields => rfl
  | nullable inner => exact spills_paren a inner
  | union branches => exact spillsAll_paren (by decide) a branches

theorem spillsAll_paren {separator : Char} (hsep : ')' ≠ separator) (a : Nat)
    (trees : List TypeTree) : spillsAll ')' separator a trees = 0 := by
  cases trees with
  | nil => rfl
  | cons tree rest =>
    have hfirst := spills_paren a tree
    by_cases hrest : rest = []
    · subst hrest
      exact hfirst
    rw [spillsAll_cons hrest, hfirst, spillsAll_paren hsep _ rest, if_neg]
    exact fun h => hsep h.2

end

theorem marks_joinWith_zero {separator : Text} {parts : List Text}
    (hsep : mark ∉ separator) (hplain : ∀ ch ∈ separator, isPlain ch = true)
    (hparts : ∀ part ∈ parts, Part part)
    (hmarks : ∀ part ∈ parts, marks mark (depths 0 0 0) part = 0) :
    marks mark (depths 0 0 0) (joinWith separator parts) = 0 ∧
      (depths 0 0 0).past (joinWith separator parts) = depths 0 0 0 := by
  induction parts with
  | nil => exact ⟨rfl, rfl⟩
  | cons first rest ih =>
    have hfirst := hparts first (.head _)
    have hzero := hmarks first (.head _)
    by_cases hrest : rest = []
    · subst hrest
      exact ⟨hzero, hfirst.level⟩
    obtain ⟨hnone, hlevel⟩ := ih (fun part hpart => hparts part (.tail _ hpart))
      fun part hpart => hmarks part (.tail _ hpart)
    have hover : (depths 0 0 0).past (first ++ separator) = depths 0 0 0 := by
      rw [past_append, hfirst.level, past_plain hplain]
    rw [joinWith_cons hrest, marks_append, marks_append,
      past_append _ (_ ++ _), hover, hzero, marks_eq_zero hsep, hnone]
    exact ⟨rfl, hlevel⟩

section

variable {quote : Text → Text} {ok : Text → Prop}

theorem functionTypeParts_joinWith (hquote : Quoting quote ok)
    {params : List (Text × TypeTree)} {returnType : TypeTree}
    (h : (function params returnType).Grammatical) :
    functionTypeParts ((function params returnType).text quote) =
      (functionTypeParams (joinWith [',', ' '] (params.map (fieldText quote)))).map
        fun params => (params, returnType.text quote) := by
  have hparts : ∀ part ∈ params.map (fieldText quote), Part part := by
    intro part hpart
    obtain ⟨param, hparam, rfl⟩ := mem_map.mp hpart
    exact fieldText_parts hquote h.1 param hparam
  have hmarks : ∀ part ∈ params.map (fieldText quote), marks ')' (depths 0 0 0) part = 0 := by
    intro part hpart
    obtain ⟨param, hparam, rfl⟩ := mem_map.mp hpart
    rw [marks_fieldTexts_top hquote (.inr (.inr rfl)) h.1 param hparam, spills_paren]
  obtain ⟨hnone, hlevel⟩ := @marks_joinWith_zero ')' [',', ' '] _ (by decide)
    (forall_of_all rfl) hparts hmarks
  have htrim : trim (joinWith [',', ' '] (params.map (fieldText quote))) =
      joinWith [',', ' '] (params.map (fieldText quote)) := by
    by_cases hne : params = []
    · subst hne
      rfl
    · exact (tight_fieldTexts hquote h.1 hne).trim
  have hprefix : stripPrefix "fn(".toList ((function params returnType).text quote) =
      some (joinWith [',', ' '] (params.map (fieldText quote)) ++
        ')' :: ([' ', '-', '>', ' '] ++ returnType.text quote)) := by
    rw [← stripPrefix_append ['f', 'n', '('], text, fieldTexts_eq]
    simp
  have hfind : findTopLevel ')' .start [] (joinWith [',', ' '] (params.map (fieldText quote)) ++
      ')' :: ([' ', '-', '>', ' '] ++ returnType.text quote)) =
        some (joinWith [',', ' '] (params.map (fieldText quote)),
          [' ', '-', '>', ' '] ++ returnType.text quote) :=
    findTopLevel_append hnone ((congrArg atTop hlevel).trans rfl) _
  have harrow : stripPrefix "->".toList
      (trimStart ([' ', '-', '>', ' '] ++ returnType.text quote)) =
        some (' ' :: returnType.text quote) := stripPrefix_append ['-', '>'] _
  have hreturn : trim (' ' :: returnType.text quote) = returnType.text quote := by
    have hpad := (text_tight hquote h.2).trim_pad
      (show ∀ ch ∈ [' '], isWhitespace ch = true from forall_of_all rfl) (forall_mem_nil _)
    rwa [append_nil] at hpad
  rw [functionTypeParts, (text_tight hquote h).trim, hprefix]
  simp only [Option.bind_eq_bind, Option.bind_some, hfind, harrow, hreturn, htrim,
    (text_tight hquote h.2).isEmpty]
  cases functionTypeParams (joinWith [',', ' '] (params.map (fieldText quote))) <;> rfl

end

end Skiff.Syntax
