import Skiff.Syntax.TypeReads

/-!
# The round trip of a tree

`TypeExpr::parse` gives back a tree from its text if and only if the tree is plain. The text of
`to_type_string` differs from the one of the parser in its string literals only, so it gives back
the same tree.
-/

namespace Skiff.Syntax

open TypeExpr (joinWith parseWith)
open Scan (depths marks)
open TypeTree TypeExpr List
open Json (jsonQuote)

section

variable {quote : Text → Text} {ok : Text → Prop}

/-! ## Parameters and fields -/

variable {params : List (Text × TypeTree)}

theorem functionTypeParams_plain (hquote : Quoting quote ok)
    (h : GrammaticalFields params) (hzero : ∀ param ∈ params, param.2.spills ',' 0 = 0) :
    functionTypeParams (joinWith [',', ' '] (params.map (fieldText quote))) =
      some (params.map fun param => (param.1, param.2.text quote)) := by
  by_cases hne : params = []
  · subst hne
    rfl
  have hparts := fieldText_parts hquote h
  have htight := tight_fieldTexts hquote h hne
  have hsplit : splitTopLevel (joinWith [',', ' '] (params.map (fieldText quote))) ',' =
      params.map (fieldText quote) :=
    splitTopLevel_items separates_comma hparts (marks_fieldTexts_top hquote (.inl rfl) h) hne hzero
  rw [functionTypeParams, htight.trim, htight.isEmpty, if_neg Bool.false_ne_true, hsplit]
  clear hsplit htight hne hzero
  induction params with
  | nil => rfl
  | cons param rest ih =>
    have hfirst := (hparts param (.head _)).tight
    rw [map_cons, mapM_cons, hfirst.trim, hfirst.isEmpty, if_neg Bool.false_ne_true,
      splitTopLevelOnce_fieldText hquote h.1 h.2.1,
      ih h.2.2 fun field hfield => hparts field (.tail _ hfield)]
    rfl

variable {results : List (Text × Text)}

theorem length_lt_of_spill_params (hquote : Quoting quote ok)
    (h : GrammaticalFields params) (hspill : ¬ ∀ param ∈ params, param.2.spills ',' 0 = 0)
    (hresults : functionTypeParams (joinWith [',', ' '] (params.map (fieldText quote))) =
      some results) : params.length < results.length := by
  have hne : params ≠ [] := by
    rintro rfl
    exact hspill (forall_mem_nil _)
  have hparts := fieldText_parts hquote h
  have htight := tight_fieldTexts hquote h hne
  rw [functionTypeParams, htight.trim, htight.isEmpty, if_neg Bool.false_ne_true] at hresults
  rw [length_of_mapM hresults]
  exact length_splitTopLevel_items separates_comma hparts
    (marks_fieldTexts_top hquote (.inl rfl) h) hne hspill

variable {fields : List (Text × TypeTree)}

theorem recordTypeFields_plain (hquote : Quoting quote ok)
    (h : GrammaticalFields fields) (hne : fields ≠ [])
    (hzero : ∀ field ∈ fields, field.2.spills ',' 0 = 0) :
    recordTypeFields
        (['{', ' '] ++ joinWith [',', ' '] (fields.map (fieldText quote)) ++ [' ', '}']) =
      some (fields.map fun field => (field.1, field.2.text quote)) := by
  have hsplit : splitTopLevel (joinWith [',', ' '] (fields.map (fieldText quote))) ',' =
      fields.map (fieldText quote) :=
    splitTopLevel_items separates_comma (fieldText_parts hquote h)
      (marks_fieldTexts_top hquote (.inl rfl) h) hne hzero
  rw [recordTypeFields_joinWith hquote h hne, hsplit, splitRecordTypeFields_eq hquote h]

theorem length_lt_of_spill_fields (hquote : Quoting quote ok) (h : GrammaticalFields fields)
    (hspill : ¬ ∀ field ∈ fields, field.2.spills ',' 0 = 0) (hresults : recordTypeFields
        (['{', ' '] ++ joinWith [',', ' '] (fields.map (fieldText quote)) ++ [' ', '}']) =
      some results) : fields.length < results.length := by
  have hne : fields ≠ [] := by
    rintro rfl
    exact hspill (forall_mem_nil _)
  rw [recordTypeFields_joinWith hquote h hne] at hresults
  rw [length_of_mapM hresults]
  exact length_splitTopLevel_items separates_comma (fieldText_parts hquote h)
    (marks_fieldTexts_top hquote (.inl rfl) h) hne hspill

variable {branches : List TypeTree}

theorem length_text_le (quote : Text → Text) (separator : Text) {trees : List TypeTree} :
    ∀ tree ∈ trees, (tree.text quote).length ≤ (joinWith separator (texts quote trees)).length := by
  intro tree htree
  rw [texts_eq]
  exact length_le_joinWith (mem_map_of_mem htree)

theorem length_fieldText_le (quote : Text → Text) (separator : Text) :
    ∀ field ∈ fields, (field.2.text quote).length ≤
      (joinWith separator (fieldTexts quote fields)).length := by
  intro field hfield
  have hle : (fieldText quote field).length ≤
      (joinWith separator (fieldTexts quote fields)).length := by
    rw [fieldTexts_eq]
    exact length_le_joinWith (mem_map_of_mem hfield)
  rw [fieldText, length_append] at hle
  omega

theorem length_branch_lt (quote : Text → Text) (hlength : 2 ≤ branches.length) :
    ∀ branch ∈ branches, (branch.text quote).length < ((union branches).text quote).length := by
  intro branch hbranch
  rw [text]
  match branches, hlength with
  | first :: next :: rest, _ =>
    rw [texts, Scan.joinWith_cons (by simp [texts]), length_append, length_append]
    obtain rfl | hmem := mem_cons.mp hbranch
    · simp only [length_cons]
      omega
    have hle := length_text_le quote [' ', '|', ' '] branch hmem
    simp only [length_cons]
    omega

/-! ## Each form of a tree -/

variable [SerdeJson] [SerdeJson.Documented] {fuel : Nat}

section

variable (hquote : Quoting quote ok)
include hquote

theorem parseWith_name {path : Text}
    (h : (name path).Grammatical) : parseWith (fuel + 1) path = .named path [] := by
  have hcompound : Compound path := compound_text hquote h rfl rfl rfl
  have hsplit := length_split_text hquote h
  have hsuffix : stripSuffix "?".toList path = none := stripSuffix_text hquote h rfl
  have hany := @stripPrefix_any_root path [] h.1 (by rintro c tail ⟨⟩)
  have hrecord := @recordTypeFields_root path [] h.1 ((append_nil path).symm ▸ hcompound.tight)
  rw [append_nil] at hany hrecord
  rw [text, spills] at hsplit
  exact Compound.Named.parseWith_name ⟨hcompound, by omega, hsuffix, hany⟩ hrecord
    (genericParts_root h.1)

theorem parseWith_quote (value : Text) :
    parseWith (fuel + 1) (quote value) = .stringLiteral value ↔ ok value := by
  have h : (string value).Grammatical := trivial
  have htight : Tight (quote value) := text_tight hquote h
  have hempty : quote value ≠ "{}".toList := text_ne_emptyRecord hquote h rfl
  obtain ⟨hvalue, hnone⟩ := stringLiteral_quote hquote value
  refine ⟨fun heq => ?_, fun hok => parseWith_string htight hempty (hvalue hok)⟩
  by_contra hok
  have hcompound : Compound (quote value) :=
    ⟨htight, hempty, hnone hok, functionTypeParts_text hquote h rfl⟩
  have hsplit : (splitTopLevel (quote value) '|').length = 0 + 1 := length_split_text hquote h
  have hsuffix : stripSuffix "?".toList (quote value) = none := stripSuffix_text hquote h rfl
  obtain ⟨tail, htail⟩ : ∃ tail, quote value = '"' :: tail := ⟨_, hquote.quoted value⟩
  have hany : stripPrefix "any ".toList (quote value) = none := by
    rw [htail]
    rfl
  have hrecord : recordTypeFields (quote value) = none := by
    rw [recordTypeFields, htight.trim, htail]
    rfl
  rw [Compound.Named.parseWith_name ⟨hcompound, by omega, hsuffix, hany⟩ hrecord
    (genericParts_quote hquote value)] at heq
  cases heq

theorem parseWith_genericText {root : Text} {args : List TypeTree}
    (h : (generic root args).Grammatical)
    (hargs : args.map (fun arg => parseWith fuel (arg.text quote)) = exprs args ↔
      TypeTree.PlainAll ok args) :
    parseWith (fuel + 1) ((generic root args).text quote) =
        (generic root args).expr ↔ (generic root args).Plain ok := by
  have hcompound := compound_text hquote h rfl rfl rfl
  have hsplit := length_split_text hquote h
  have hsuffix := stripSuffix_text hquote h rfl
  rw [expr, TypeTree.Plain]
  by_cases hspill : (generic root args).spills '|' 0 = 0
  case neg =>
    rw [hcompound.parseWith_union (by omega)]
    constructor
    · rintro ⟨⟩
    · exact fun hplain => absurd hplain.2.1 hspill
  have hrest : ∀ c tail, '<' :: (joinWith [',', ' '] (texts quote args) ++ ['>']) =
      c :: tail → c ∉ "any ".toList := by
    rintro c tail ⟨⟩
    decide
  have hany : stripPrefix "any ".toList ((generic root args).text quote) = none := by
    rw [GenericScan.text_generic]
    exact stripPrefix_any_root h.1 hrest
  have hrecord : recordTypeFields ((generic root args).text quote) = none := by
    rw [GenericScan.text_generic]
    exact recordTypeFields_root h.1 (GenericScan.text_generic root args ▸ hcompound.tight)
  have hnamed : Compound.Named ((generic root args).text quote) :=
    ⟨hcompound, by omega, hsuffix, hany⟩
  rw [hnamed.parseWith_generic hrecord (genericParts_generic hquote h), TypeExpr.named.injEq,
    texts_eq]
  by_cases hne : args = []
  · subst hne
    constructor
    · intro heq
      cases heq.2
    · exact fun hplain => absurd rfl hplain.1
  by_cases hzero : ∀ arg ∈ args, arg.spills ',' 0 = 0
  · have hparts : splitTopLevel (joinWith [',', ' '] (args.map (text quote))) ',' =
        args.map (text quote) :=
      splitTopLevel_items separates_comma (text_parts hquote h.2)
        (marks_texts_top hquote (.inl rfl) h.2) hne hzero
    rw [hparts, List.map_map]
    constructor
    · exact fun heq => ⟨hne, hspill, hzero, hargs.mp heq.2⟩
    · exact fun hplain => ⟨rfl, hargs.mpr hplain.2.2.2⟩
  have hlength := length_splitTopLevel_items separates_comma (text_parts hquote h.2)
    (marks_texts_top hquote (.inl rfl) h.2) hne hzero
  constructor
  · intro heq
    have hsame := congrArg List.length heq.2
    rw [List.length_map, exprs_eq, List.length_map] at hsame
    exact absurd hsame (Nat.ne_of_gt hlength)
  · exact fun hplain => absurd hplain.2.2.1 hzero

theorem parseWith_anyText {interface : TypeTree} (h : (any interface).Grammatical)
    (hinterface : parseWith fuel (interface.text quote) = interface.expr ↔ interface.Plain ok) :
    parseWith (fuel + 1) ((any interface).text quote) = (any interface).expr ↔
      (any interface).Plain ok := by
  have hcompound := compound_text hquote h rfl rfl rfl
  have hsplit := length_split_text hquote h
  rw [spills] at hsplit
  rw [expr, TypeTree.Plain]
  by_cases hspill : interface.spills '|' 0 = 0
  case neg =>
    rw [hcompound.parseWith_union (by omega)]
    constructor
    · rintro ⟨⟩
    · exact fun hplain => absurd hplain.1 hspill
  cases hends : interface.endsNullable with
  | true =>
    obtain ⟨inner, hinner⟩ := stripSuffix_endsNullable hquote h hends
    rw [hcompound.parseWith_nullable (by omega) hinner]
    constructor
    · rintro ⟨⟩
    · rintro ⟨-, ⟨⟩, -⟩
  | false =>
    have hprefix : stripPrefix "any ".toList ((any interface).text quote) =
        some (interface.text quote) := stripPrefix_append _ _
    rw [hcompound.parseWith_any (by omega) (stripSuffix_text hquote h hends) hprefix,
      (text_tight hquote h.2).trim, TypeExpr.anyInterface.injEq, hinterface]
    constructor
    · exact fun hplain => ⟨hspill, rfl, hplain⟩
    · exact fun hplain => hplain.2.2

theorem parseWith_nullableText {inner : TypeTree} (h : (nullable inner).Grammatical)
    (hinner : parseWith fuel (inner.text quote) = inner.expr ↔ inner.Plain ok) :
    parseWith (fuel + 1) ((nullable inner).text quote) = (nullable inner).expr ↔
      (nullable inner).Plain ok := by
  have hcompound := compound_text hquote h rfl rfl rfl
  have hsplit := length_split_text hquote h
  rw [spills] at hsplit
  rw [expr, TypeTree.Plain]
  by_cases hspill : inner.spills '|' 0 = 0
  case neg =>
    rw [hcompound.parseWith_union (by omega)]
    constructor
    · rintro ⟨⟩
    · exact fun hplain => absurd hplain.1 hspill
  have hsuffix : stripSuffix "?".toList ((nullable inner).text quote) =
      some (inner.text quote) := stripSuffix_append _ _
  rw [hcompound.parseWith_nullable (by omega) hsuffix, TypeExpr.nullable.injEq, hinner]
  constructor
  · exact fun hplain => ⟨hspill, hplain⟩
  · exact fun hplain => hplain.2

theorem parseWith_unionText (h : (union branches).Grammatical)
    (hbranches : branches.map (fun branch => parseWith fuel (branch.text quote)) =
      exprs branches ↔ TypeTree.PlainAll ok branches) :
    parseWith (fuel + 1) ((union branches).text quote) = (union branches).expr ↔
      (union branches).Plain ok := by
  have hcompound := compound_text hquote h rfl rfl rfl
  have hne : branches ≠ [] := by
    rintro rfl
    exact absurd h.1 (by simp)
  have hlength := h.1
  rw [expr, TypeTree.Plain]
  by_cases hzero : ∀ branch ∈ branches, branch.spills '|' 0 = 0
  · have hparts : splitTopLevel ((union branches).text quote) '|' =
        branches.map (text quote) := by
      rw [text, texts_eq]
      exact splitTopLevel_items separates_bar (text_parts hquote h.2.1)
        (marks_texts_top hquote (.inr (.inl rfl)) h.2.1) hne hzero
    rw [hcompound.parseWith_union (by rw [hparts, List.length_map]; omega), hparts, List.map_map,
      TypeExpr.union.injEq]
    constructor
    · exact fun heq => ⟨hzero, hbranches.mp heq⟩
    · exact fun hplain => hbranches.mpr hplain.2
  have hmore : branches.length <
      (splitTopLevel ((union branches).text quote) '|').length := by
    rw [text, texts_eq]
    exact length_splitTopLevel_items separates_bar (text_parts hquote h.2.1)
      (marks_texts_top hquote (.inr (.inl rfl)) h.2.1) hne hzero
  rw [hcompound.parseWith_union (by omega), TypeExpr.union.injEq]
  constructor
  · intro heq
    have hsame := congrArg List.length heq
    rw [List.length_map, exprs_eq, List.length_map] at hsame
    omega
  · exact fun hplain => absurd hplain.1 hzero

theorem parseWith_recordText (h : (record fields).Grammatical)
    (hfields : fields.map (fun field => (field.1, parseWith fuel (field.2.text quote))) =
      fieldExprs fields ↔ TypeTree.PlainFields ok fields) :
    parseWith (fuel + 1) ((record fields).text quote) = (record fields).expr ↔
      (record fields).Plain ok := by
  rw [TypeTree.Plain]
  cases fields with
  | nil =>
    have hparse : parseWith (fuel + 1) "{}".toList = .emptyRecord := rfl
    exact iff_of_true hparse ⟨List.forall_mem_nil _, trivial⟩
  | cons field rest =>
    have hne : field :: rest ≠ [] := List.cons_ne_nil _ _
    have hcompound := compound_text hquote h rfl rfl rfl
    have hsplit := length_split_text hquote h
    rw [spills] at hsplit
    have hsuffix := stripSuffix_text hquote h rfl
    have hany : stripPrefix "any ".toList ((record (field :: rest)).text quote) = none := rfl
    have hnamed : Compound.Named ((record (field :: rest)).text quote) :=
      ⟨hcompound, by omega, hsuffix, hany⟩
    have htext : (record (field :: rest)).text quote =
        ['{', ' '] ++ joinWith [',', ' '] ((field :: rest).map (fieldText quote)) ++
          [' ', '}'] := by
      rw [text, fieldTexts_eq]
    by_cases hzero : ∀ field' ∈ field :: rest, field'.2.spills ',' 0 = 0
    · have hresults := recordTypeFields_plain hquote h hne hzero
      rw [← htext, map_cons] at hresults
      rw [hnamed.parseWith_record hresults, expr, TypeExpr.record.injEq, map_cons, map_map]
      constructor
      · exact fun heq => ⟨hzero, hfields.mp heq⟩
      · exact fun hplain => hfields.mpr hplain.2
    refine iff_of_false ?_ fun hplain => hzero hplain.1
    rw [expr]
    cases hresults : recordTypeFields ((record (field :: rest)).text quote) with
    | none =>
      cases hparts : genericParts ((record (field :: rest)).text quote) with
      | none =>
        rw [hnamed.parseWith_name hresults hparts]
        rintro ⟨⟩
      | some parts =>
        rw [hnamed.parseWith_generic hresults hparts]
        rintro ⟨⟩
    | some results =>
      have hlength := length_lt_of_spill_fields hquote h hzero (htext ▸ hresults)
      cases results with
      | nil => cases hlength
      | cons first more =>
        rw [hnamed.parseWith_record hresults]
        intro heq
        have hsame := congrArg length (TypeExpr.record.inj heq)
        rw [length_map, fieldExprs_eq, length_map] at hsame
        omega

theorem parseWith_functionText
    {returnType : TypeTree} (h : (function params returnType).Grammatical)
    (hparams : params.map (fun param => (param.1, parseWith fuel (param.2.text quote))) =
      fieldExprs params ↔ PlainFields ok params)
    (hreturn : parseWith fuel (returnType.text quote) = returnType.expr ↔ returnType.Plain ok) :
    parseWith (fuel + 1) ((function params returnType).text quote) =
        (function params returnType).expr ↔
      (function params returnType).Plain ok := by
  have htight := text_tight hquote h
  have hempty := text_ne_emptyRecord hquote h rfl
  have hstring := stringLiteral_text hquote h rfl
  have hparts := functionTypeParts_joinWith hquote h
  rw [expr, Plain]
  by_cases hzero : ∀ param ∈ params, param.2.spills ',' 0 = 0
  · rw [functionTypeParams_plain hquote h.1 hzero, Option.map_some] at hparts
    rw [parseWith_function htight hempty hstring hparts, TypeExpr.function.injEq, map_map]
    constructor
    · exact fun heq => ⟨hzero, hparams.mp heq.1, hreturn.mp heq.2⟩
    · exact fun hplain => ⟨hparams.mpr hplain.2.1, hreturn.mpr hplain.2.2⟩
  refine iff_of_false ?_ fun hplain => hzero hplain.1
  cases hresults : functionTypeParams (joinWith [',', ' '] (params.map (fieldText quote))) with
  | none =>
    rw [hresults] at hparts
    have hcompound : Compound ((function params returnType).text quote) :=
      ⟨htight, hempty, hstring, hparts⟩
    exact hcompound.parseWith_ne_function _ _
  | some results =>
    have hlength := length_lt_of_spill_params hquote h.1 hzero hresults
    rw [hresults, Option.map_some] at hparts
    rw [parseWith_function htight hempty hstring hparts]
    intro heq
    have hsame := congrArg length (TypeExpr.function.inj heq).1
    rw [length_map, fieldExprs_eq, length_map] at hsame
    omega

end

/-! ## All trees -/

mutual

/-- `TypeExpr::parse` reads a tree from its text exactly when the tree is plain. -/
theorem parseWith_text (hquote : Quoting quote ok) (fuel : Nat) (tree : TypeTree)
    (h : tree.Grammatical) (hfuel : (tree.text quote).length < fuel) :
    parseWith fuel (tree.text quote) = tree.expr ↔ tree.Plain ok := by
  obtain ⟨fuel, rfl⟩ := Nat.exists_eq_succ_of_ne_zero (Nat.ne_zero_of_lt hfuel)
  cases tree with
  | string value => exact parseWith_quote hquote value
  | name path => exact iff_of_true (parseWith_name hquote h) trivial
  | generic root args =>
    refine parseWith_genericText hquote h (parseWith_texts hquote fuel args h.2 ?_)
    intro arg harg
    have hle := length_text_le quote [',', ' '] arg harg
    rw [text] at hfuel
    simp only [length_append, length_cons] at hfuel
    omega
  | any interface =>
    refine parseWith_anyText hquote h (parseWith_text hquote fuel interface h.2 ?_)
    rw [text, length_append] at hfuel
    simp only [length_cons] at hfuel
    omega
  | function params returnType =>
    rw [text] at hfuel
    simp only [length_append, length_cons] at hfuel
    refine parseWith_functionText hquote h (parseWith_fieldTexts hquote fuel params h.1 ?_)
      (parseWith_text hquote fuel returnType h.2 (by omega))
    intro param hparam
    have hle := length_fieldText_le quote [',', ' '] param hparam
    omega
  | record fields =>
    refine parseWith_recordText hquote h (parseWith_fieldTexts hquote fuel fields h ?_)
    intro field hfield
    have hle := length_fieldText_le quote [',', ' '] field hfield
    cases fields with
    | nil => cases hfield
    | cons first rest =>
      rw [text] at hfuel
      simp only [length_append, length_cons] at hfuel
      omega
  | nullable inner =>
    refine parseWith_nullableText hquote h (parseWith_text hquote fuel inner h.2.2 ?_)
    rw [text, length_append, length_singleton] at hfuel
    omega
  | union branches =>
    refine parseWith_unionText hquote h (parseWith_texts hquote fuel branches h.2.1 ?_)
    intro branch hbranch
    have hlt := length_branch_lt quote h.1 branch hbranch
    omega

theorem parseWith_texts (hquote : Quoting quote ok) (fuel : Nat) (trees : List TypeTree)
    (h : GrammaticalAll trees) (hfuel : ∀ tree ∈ trees, (tree.text quote).length < fuel) :
    trees.map (fun tree => parseWith fuel (tree.text quote)) = exprs trees ↔ PlainAll ok trees := by
  cases trees with
  | nil => exact iff_of_true rfl trivial
  | cons tree rest =>
    have hfirst := parseWith_text hquote fuel tree h.1 (hfuel tree (.head _))
    have hrest := parseWith_texts hquote fuel rest h.2 fun other hother =>
      hfuel other (.tail _ hother)
    rw [map_cons, exprs, PlainAll, cons.injEq, hfirst, hrest]

theorem parseWith_fieldTexts (hquote : Quoting quote ok) (fuel : Nat)
    (fields : List (Text × TypeTree)) (h : GrammaticalFields fields)
    (hfuel : ∀ field ∈ fields, (field.2.text quote).length < fuel) :
    fields.map (fun field => (field.1, parseWith fuel (field.2.text quote))) =
        fieldExprs fields ↔ PlainFields ok fields := by
  cases fields with
  | nil => exact iff_of_true rfl trivial
  | cons field rest =>
    have hfirst := parseWith_text hquote fuel field.2 h.2.1 (hfuel field (.head _))
    have hrest := parseWith_fieldTexts hquote fuel rest h.2.2 fun other hother =>
      hfuel other (.tail _ hother)
    rw [map_cons, fieldExprs, PlainFields, cons.injEq, Prod.mk.injEq,
      hfirst, hrest, eq_self, true_and]

end

theorem parse_text (hquote : Quoting quote ok) {tree : TypeTree} (h : tree.Grammatical) :
    parse (tree.text quote) = tree.expr ↔ tree.Plain ok :=
  parseWith_text hquote _ tree h (Nat.lt_succ_self _)

end

/-! ## Printing -/

mutual

variable {ok : Text → Prop}

theorem TypeTree.Plain.weaken (tree : TypeTree) (h : tree.Plain ok) :
    tree.Plain (fun _ => True) := by
  cases tree with
  | string value => trivial
  | name path => trivial
  | generic root args => exact ⟨h.1, h.2.1, h.2.2.1, plainAll_weaken args h.2.2.2⟩
  | any interface => exact ⟨h.1, h.2.1, TypeTree.Plain.weaken interface h.2.2⟩
  | function params returnType =>
    exact ⟨h.1, plainFields_weaken params h.2.1, TypeTree.Plain.weaken returnType h.2.2⟩
  | record fields => exact ⟨h.1, plainFields_weaken fields h.2⟩
  | nullable inner => exact ⟨h.1, TypeTree.Plain.weaken inner h.2⟩
  | union branches => exact ⟨h.1, plainAll_weaken branches h.2⟩

theorem plainAll_weaken (trees : List TypeTree)
    (h : PlainAll ok trees) : PlainAll (fun _ => True) trees := by
  cases trees with
  | nil => trivial
  | cons tree rest => exact ⟨TypeTree.Plain.weaken tree h.1, plainAll_weaken rest h.2⟩

theorem plainFields_weaken (fields : List (Text × TypeTree))
    (h : PlainFields ok fields) : PlainFields (fun _ => True) fields := by
  cases fields with
  | nil => trivial
  | cons field rest => exact ⟨TypeTree.Plain.weaken field.2 h.1, plainFields_weaken rest h.2⟩

end

mutual

variable [SerdeJson] [SerdeJson.Documented] {ok : Text → Prop}

/-- A plain tree has no empty list of arguments, which `to_type_string` would leave out. -/
theorem toTypeString_expr (tree : TypeTree) (h : tree.Plain ok) :
    tree.expr.toTypeString = tree.text jsonQuote := by
  cases tree with
  | string value => exact congrFun SerdeJson.Documented.toString_eq value
  | name path => rfl
  | generic root args =>
    have hargs := toTypeStrings_exprs args h.2.2.2
    cases args with
    | nil => exact absurd rfl h.1
    | cons arg rest =>
      rw [expr, exprs, toTypeString, text, ← hargs]
      · rfl
      · rintro ⟨⟩
  | any interface =>
    rw [expr, toTypeString, text, toTypeString_expr interface h.2.2]
    rfl
  | function params returnType =>
    rw [expr, toTypeString, text, fieldStrings_fieldExprs params h.2.1,
      toTypeString_expr returnType h.2.2]
    rfl
  | record fields =>
    have hfields := fieldStrings_fieldExprs fields h.2
    cases fields with
    | nil => rfl
    | cons field rest =>
      rw [expr, toTypeString, text, hfields]
      rfl
  | nullable inner => rw [expr, toTypeString, text, toTypeString_expr inner h.2]
  | union branches =>
    rw [expr, toTypeString, text, toTypeStrings_exprs branches h.2]
    rfl

theorem toTypeStrings_exprs (trees : List TypeTree) (h : PlainAll ok trees) :
    toTypeStrings (exprs trees) = texts jsonQuote trees := by
  cases trees with
  | nil => rfl
  | cons tree rest =>
    rw [exprs, toTypeStrings, texts, toTypeString_expr tree h.1, toTypeStrings_exprs rest h.2]

theorem fieldStrings_fieldExprs (fields : List (Text × TypeTree)) (h : PlainFields ok fields) :
    fieldStrings (fieldExprs fields) = fieldTexts jsonQuote fields := by
  cases fields with
  | nil => rfl
  | cons field rest =>
    rw [fieldExprs, fieldStrings, fieldTexts,
      toTypeString_expr field.2 h.1, fieldStrings_fieldExprs rest h.2]
    rfl

end

/-- What is printed is read back. -/
theorem parse_toTypeString [SerdeJson] [SerdeJson.Documented] {ok : Text → Prop}
    {tree : TypeTree} (h : tree.Grammatical) (hplain : tree.Plain ok) :
    parse tree.expr.toTypeString = tree.expr := by
  rw [toTypeString_expr tree hplain]
  exact (parse_text quotingJson h).mpr (TypeTree.Plain.weaken tree hplain)

end Skiff.Syntax
