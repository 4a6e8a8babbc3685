import Skiff.Syntax.TypeDerivations

/-!
# The trees are grammatical

What the parser has in front of it after a type: neither a `?` nor a `|`. So no `?` and no `|`
comes after the return type of a function, which ends its type.
-/

namespace Skiff.Syntax

open List TypeTree

/-! ## Runs of the parser -/

section

variable {α β : Type} {p q : Parser}

theorem bind_ok {x : ParseM α} {f : α → ParseM β} {b : β} (h : (x >>= f) p = .ok (b, q)) :
    ∃ a r, x p = .ok (a, r) ∧ f a r = .ok (b, q) := by
  have hbind : (x >>= f) p = (x p >>= fun result => f result.1 result.2) := rfl
  rw [hbind] at h
  cases hx : x p with
  | error e =>
    rw [hx] at h
    cases h
  | ok result =>
    rw [hx] at h
    exact ⟨result.1, result.2, rfl, h⟩

theorem pure_ok {a b : α} (h : (pure a : ParseM α) p = .ok (b, q)) : a = b ∧ p = q := by
  cases h
  exact ⟨rfl, rfl⟩

theorem checkSymbol_ok {expected : String} {b : Bool} (h : checkSymbol expected p = .ok (b, q)) :
    b = p.checkSymbol expected ∧ p = q := by
  cases h
  exact ⟨rfl, rfl⟩

theorem matchSymbol_ok {expected : String} {b : Bool} (h : matchSymbol expected p = .ok (b, q)) :
    b = p.checkSymbol expected ∧ (b = false → p = q) := by
  obtain ⟨found, r, hcheck, h⟩ := bind_ok h
  obtain ⟨rfl, rfl⟩ := checkSymbol_ok hcheck
  cases hfound : p.checkSymbol expected with
  | true =>
    rw [hfound] at h
    obtain ⟨token, r, -, h⟩ := bind_ok h
    obtain ⟨rfl, rfl⟩ := pure_ok h
    exact ⟨rfl, by rintro ⟨⟩⟩
  | false =>
    rw [hfound] at h
    obtain ⟨rfl, rfl⟩ := pure_ok h
    exact ⟨rfl, fun _ => rfl⟩

end

/-! ## Names -/

theorem IsRoot.append {root suffix : Text} (h : IsRoot root)
    (hsuffix : ∀ ch ∈ suffix, isNameChar ch = true) : IsRoot (root ++ suffix) := by
  cases h with
  | path hne h =>
    refine .path (by simp [hne]) fun ch hch => ?_
    obtain hch | hch := mem_append.mp hch
    · exact h ch hch
    · exact hsuffix ch hch
  | quoted value h =>
    rw [append_assoc]
    refine .quoted value fun ch hch => ?_
    obtain hch | hch := mem_append.mp hch
    · exact h ch hch
    · exact hsuffix ch hch

/-- A name or a literal. -/
inductive IsLeaf : TypeTree → Prop
  | string (value : Text) : IsLeaf (.string value)
  | name {path : Text} (h : (name path).Grammatical) : IsLeaf (.name path)

namespace IsLeaf

variable {leaf : TypeTree}

theorem grammatical (h : IsLeaf leaf) : leaf.Grammatical := by
  cases h with
  | string value => trivial
  | name h => exact h

theorem isPrimary (h : IsLeaf leaf) : leaf.isPrimary = true := by
  cases h with
  | string value => rfl
  | name h => rfl

theorem endsFunction (h : IsLeaf leaf) : leaf.endsFunction = false := by
  cases h with
  | string value => rfl
  | name h => rfl

theorem isRoot (h : IsLeaf leaf) : IsRoot (typeText leaf) := by
  cases h with
  | string value =>
    have hroot : IsRoot (quoteStringType value ++ []) := .quoted value (forall_mem_nil _)
    rwa [append_nil] at hroot
  | name h => exact h.1

theorem ident (value : Ident) : IsLeaf (.name value.text) := by
  have hchars : ∀ ch ∈ value.text, isNameChar ch = true := fun ch => value.isNameChar
  refine .name ⟨.path value.tight.ne_nil hchars, ?_⟩
  intro hlast
  exact absurd (hchars '"' (List.mem_of_getLast? hlast)) (by decide)

/-- A segment after a dot or a slash. -/
theorem segment (h : IsLeaf leaf) {mark : Char} (hmark : isNameChar mark = true) (value : Ident) :
    IsLeaf (.name (typeText leaf ++ mark :: value.text)) := by
  have hchars : ∀ ch ∈ mark :: value.text, isNameChar ch = true := by
    intro ch hch
    obtain rfl | hch := List.mem_cons.mp hch
    · exact hmark
    · exact value.isNameChar hch
  refine .name ⟨h.isRoot.append hchars, ?_⟩
  intro hlast
  have hmem : '"' ∈ mark :: value.text := by
    rw [getLast?_append, getLast?_cons] at hlast
    exact mem_of_getLast? (getLast?_cons.trans hlast)
  exact absurd (hchars '"' hmem) (by decide)

end IsLeaf

section

variable {p q : Parser} {fuel : Nat} {leaf tree : TypeTree}

theorem deriveQualifiers_leaf (hleaf : IsLeaf leaf)
    (h : deriveQualifiers fuel leaf p = .ok (tree, q)) : IsLeaf tree := by
  induction fuel generalizing leaf p with
  | zero => cases h
  | succ fuel ih =>
    rw [deriveQualifiers] at h
    obtain ⟨dotted, r, -, h⟩ := bind_ok h
    cases dotted with
    | true =>
      obtain ⟨value, r', -, h⟩ := bind_ok h
      exact ih (hleaf.segment rfl value) h
    | false =>
      obtain ⟨rfl, -⟩ := pure_ok h
      exact hleaf

theorem deriveTypeName_leaf (h : deriveTypeName fuel p = .ok (tree, q)) : IsLeaf tree := by
  have htail : ∀ {leaf : TypeTree} {r : Parser}, IsLeaf leaf →
      ((do
        if ← matchSymbol "/" then
          let segment ← expectIdent "expected source module after dependency /"
          return .name (typeText leaf ++ '/' :: segment.text)
        else return leaf) >>= deriveQualifiers fuel : ParseM TypeTree) r = .ok (tree, q) →
      IsLeaf tree := by
    intro leaf r hleaf h
    obtain ⟨leaf', r', hslash, h⟩ := bind_ok h
    obtain ⟨slash, s, -, hslash⟩ := bind_ok hslash
    refine deriveQualifiers_leaf ?_ h
    cases slash with
    | true =>
      obtain ⟨value, s', -, hslash⟩ := bind_ok hslash
      obtain ⟨rfl, -⟩ := pure_ok hslash
      exact hleaf.segment rfl value
    | false =>
      obtain ⟨rfl, -⟩ := pure_ok hslash
      exact hleaf
  rw [deriveTypeName] at h
  obtain ⟨token, r, -, h⟩ := bind_ok h
  cases hkind : token.kind with
  | ident value =>
    rw [hkind] at h
    exact htail (.ident value) h
  | string value =>
    rw [hkind] at h
    exact htail (.string value) h
  | _ =>
    rw [hkind] at h
    cases h

end

/-! ## Types -/

/-- After a primary type that ends with a function. -/
structure IsPrimary (tree : TypeTree) (q : Parser) : Prop where
  grammatical : tree.Grammatical
  primary : tree.isPrimary = true
  function : tree.endsFunction = true → q.checkSymbol "|" = false ∧ q.checkSymbol "?" = false

/-- After a branch of a union. -/
structure IsBranch (tree : TypeTree) (q : Parser) : Prop where
  grammatical : tree.Grammatical
  notUnion : tree.isUnion = false
  function : tree.endsFunction = true → q.checkSymbol "|" = false
  notNullable : q.checkSymbol "?" = false

/-- After a type. -/
structure IsType (tree : TypeTree) (q : Parser) : Prop where
  grammatical : tree.Grammatical
  notUnion : q.checkSymbol "|" = false
  notNullable : q.checkSymbol "?" = false

section

variable {p q : Parser} {fuel : Nat} {tree : TypeTree}

theorem deriveNullableMarks_branch (hgrammatical : tree.Grammatical) (hunion : tree.isUnion = false)
    (hfunction : tree.endsFunction = true → p.checkSymbol "|" = false ∧ p.checkSymbol "?" = false)
    {result : TypeTree} (h : deriveNullableMarks fuel tree p = .ok (result, q)) :
    IsBranch result q := by
  induction fuel generalizing tree p with
  | zero => cases h
  | succ fuel ih =>
    rw [deriveNullableMarks] at h
    obtain ⟨marked, r, hmatch, h⟩ := bind_ok h
    obtain ⟨hmarked, hstay⟩ := matchSymbol_ok hmatch
    cases marked with
    | true =>
      have hends : tree.endsFunction = false := by
        by_contra hne
        rw [(hfunction (Bool.of_not_eq_false hne)).2] at hmarked
        cases hmarked
      have hinner : (TypeTree.nullable tree).Grammatical := ⟨hunion, hends, hgrammatical⟩
      exact ih hinner rfl (by rintro ⟨⟩) h
    | false =>
      obtain ⟨rfl, rfl⟩ := pure_ok h
      obtain rfl := hstay rfl
      exact ⟨hgrammatical, hunion, fun hends => (hfunction hends).1, hmarked.symm⟩

/-- The branches so far, the last of which is in front of this state. -/
structure AreBranches (first : TypeTree) (rest : List TypeTree) (q : Parser) : Prop where
  grammatical : TypeTree.GrammaticalAll (first :: rest)
  notUnion : ∀ tree ∈ first :: rest, tree.isUnion = false
  inner : ∀ tree ∈ (first :: rest).dropLast, tree.endsFunction = false
  last : ∀ tree, (first :: rest).getLast? = some tree → tree.endsFunction = true →
    q.checkSymbol "|" = false
  notNullable : q.checkSymbol "?" = false

theorem AreBranches.isType {first : TypeTree} {rest : List TypeTree}
    (h : AreBranches first rest q) (hend : q.checkSymbol "|" = false) :
    IsType (unionOf first rest) q := by
  refine ⟨?_, hend, h.notNullable⟩
  cases rest with
  | nil => exact h.grammatical.1
  | cons next rest =>
    show (TypeTree.union (first :: next :: rest)).Grammatical
    exact ⟨by simp, h.grammatical, h.notUnion, h.inner⟩

theorem AreBranches.concat {first : TypeTree} {rest : List TypeTree} {rhs : TypeTree}
    {r : Parser} (h : AreBranches first rest p) (hmore : p.checkSymbol "|" = true)
    (hrhs : IsBranch rhs r) : AreBranches first (rest ++ [rhs]) r where
  grammatical := by
    rw [grammaticalAll_iff]
    intro tree htree
    rw [← cons_append, mem_append, mem_singleton] at htree
    obtain htree | rfl := htree
    · exact grammaticalAll_iff.mp h.grammatical tree htree
    · exact hrhs.grammatical
  notUnion := by
    intro tree htree
    rw [← cons_append, mem_append, mem_singleton] at htree
    obtain htree | rfl := htree
    · exact h.notUnion tree htree
    · exact hrhs.notUnion
  inner := by
    intro tree htree
    rw [← cons_append, dropLast_concat] at htree
    by_contra hends
    rw [← dropLast_concat_getLast (cons_ne_nil first rest), mem_append, mem_singleton] at htree
    obtain hinner | rfl := htree
    · exact hends (h.inner tree hinner)
    have hlast := getLast?_eq_some_getLast (cons_ne_nil first rest)
    rw [h.last _ hlast (Bool.of_not_eq_false hends)] at hmore
    cases hmore
  last := by
    intro tree hlast hends
    rw [← cons_append, getLast?_concat] at hlast
    cases hlast
    exact hrhs.function hends
  notNullable := hrhs.notNullable

theorem TypeTree.GrammaticalFields.concat {fields : List (Text × TypeTree)}
    (h : GrammaticalFields fields) (name : Ident) {tree : TypeTree}
    (htree : tree.Grammatical) : GrammaticalFields (fields ++ [(name.text, tree)]) := by
  rw [grammaticalFields_iff]
  intro field hfield
  obtain hfield | hfield := mem_append.mp hfield
  · exact grammaticalFields_iff.mp h field hfield
  rw [mem_singleton.mp hfield]
  exact ⟨⟨name, rfl⟩, htree⟩

mutual

theorem deriveType_type (fuel : Nat) (p q : Parser) (tree : TypeTree)
    (h : deriveType fuel p = .ok (tree, q)) : IsType tree q := by
  cases fuel with
  | zero => cases h
  | succ fuel =>
    rw [deriveType] at h
    obtain ⟨first, r, hfirst, h⟩ := bind_ok h
    have hbranch := deriveNullableType_branch fuel p r first hfirst
    refine deriveBranches_type fuel r q first [] tree ?_ h
    exact ⟨⟨hbranch.grammatical, trivial⟩, by simpa using hbranch.notUnion, by simp,
      by simpa using hbranch.function, hbranch.notNullable⟩

theorem deriveBranches_type (fuel : Nat) (p q : Parser) (first : TypeTree)
    (rest : List TypeTree) (tree : TypeTree) (hbranches : AreBranches first rest p)
    (h : deriveBranches fuel first rest p = .ok (tree, q)) : IsType tree q := by
  cases fuel with
  | zero => cases h
  | succ fuel =>
    rw [deriveBranches] at h
    obtain ⟨more, r, hmatch, h⟩ := bind_ok h
    obtain ⟨hmore, hstay⟩ := matchSymbol_ok hmatch
    cases more with
    | true =>
      obtain ⟨rhs, r', hrhs, h⟩ := bind_ok h
      have hbranch := deriveNullableType_branch fuel r r' rhs hrhs
      exact deriveBranches_type fuel r' q first (rest ++ [rhs]) tree
        (hbranches.concat hmore.symm hbranch) h
    | false =>
      obtain ⟨rfl, rfl⟩ := pure_ok h
      obtain rfl := hstay rfl
      exact hbranches.isType hmore.symm

theorem deriveNullableType_branch (fuel : Nat) (p q : Parser) (tree : TypeTree)
    (h : deriveNullableType fuel p = .ok (tree, q)) : IsBranch tree q := by
  cases fuel with
  | zero => cases h
  | succ fuel =>
    rw [deriveNullableType] at h
    obtain ⟨first, r, hfirst, h⟩ := bind_ok h
    have hprimary := derivePrimaryType_primary fuel p r first hfirst
    refine deriveNullableMarks_branch hprimary.grammatical ?_ hprimary.function h
    cases first with
    | union branches => cases hprimary.primary
    | _ => rfl

theorem derivePrimaryType_primary (fuel : Nat) (p q : Parser) (tree : TypeTree)
    (h : derivePrimaryType fuel p = .ok (tree, q)) : IsPrimary tree q := by
  cases fuel with
  | zero => cases h
  | succ fuel =>
    rw [derivePrimaryType] at h
    obtain ⟨any, r, -, h⟩ := bind_ok h
    cases any with
    | true =>
      obtain ⟨interface, r', hinterface, h⟩ := bind_ok h
      obtain ⟨rfl, rfl⟩ := pure_ok h
      have hprimary := derivePrimaryType_primary fuel r r' interface hinterface
      exact ⟨⟨hprimary.primary, hprimary.grammatical⟩, rfl, hprimary.function⟩
    | false =>
      obtain ⟨fn, r', -, h⟩ := bind_ok h
      cases fn with
      | true => exact deriveFunctionType_primary fuel r' q tree h
      | false =>
        obtain ⟨brace, s, -, h⟩ := bind_ok h
        cases brace with
        | true => exact deriveRecordType_primary fuel s q tree h
        | false =>
          obtain ⟨leaf, s', hleaf, h⟩ := bind_ok h
          have hleaf := deriveTypeName_leaf hleaf
          obtain ⟨angle, t, -, h⟩ := bind_ok h
          cases angle with
          | true =>
            obtain ⟨args, t', hargs, h⟩ := bind_ok h
            obtain ⟨-, u, -, h⟩ := bind_ok h
            obtain ⟨rfl, rfl⟩ := pure_ok h
            refine ⟨⟨hleaf.isRoot, ?_⟩, rfl, by rintro ⟨⟩⟩
            obtain ⟨close, u', -, hargs⟩ := bind_ok hargs
            cases close with
            | true =>
              obtain ⟨rfl, -⟩ := pure_ok hargs
              trivial
            | false => exact deriveTypeArgs_all fuel u' t' [] args trivial hargs
          | false =>
            obtain ⟨rfl, rfl⟩ := pure_ok h
            refine ⟨hleaf.grammatical, hleaf.isPrimary, ?_⟩
            rw [hleaf.endsFunction]
            rintro ⟨⟩

theorem deriveTypeArgs_all (fuel : Nat) (p q : Parser) (args results : List TypeTree)
    (hargs : GrammaticalAll args) (h : deriveTypeArgs fuel args p = .ok (results, q)) :
    GrammaticalAll results := by
  cases fuel with
  | zero => cases h
  | succ fuel =>
    rw [deriveTypeArgs] at h
    obtain ⟨ty, r, hty, h⟩ := bind_ok h
    have htype := deriveType_type fuel p r ty hty
    have hmore : GrammaticalAll (args ++ [ty]) := by
      rw [grammaticalAll_iff]
      intro tree htree
      obtain htree | htree := mem_append.mp htree
      · exact grammaticalAll_iff.mp hargs tree htree
      rw [mem_singleton.mp htree]
      exact htype.grammatical
    obtain ⟨more, r', -, h⟩ := bind_ok h
    cases more with
    | true => exact deriveTypeArgs_all fuel r' q (args ++ [ty]) results hmore h
    | false =>
      obtain ⟨rfl, -⟩ := pure_ok h
      exact hmore

theorem deriveFunctionType_primary (fuel : Nat) (p q : Parser) (tree : TypeTree)
    (h : deriveFunctionType fuel p = .ok (tree, q)) : IsPrimary tree q := by
  cases fuel with
  | zero => cases h
  | succ fuel =>
    rw [deriveFunctionType] at h
    obtain ⟨-, r, -, h⟩ := bind_ok h
    obtain ⟨-, r, -, h⟩ := bind_ok h
    obtain ⟨params, r', hparams, h⟩ := bind_ok h
    obtain ⟨-, s, -, h⟩ := bind_ok h
    obtain ⟨-, s, -, h⟩ := bind_ok h
    obtain ⟨returnType, s', hreturn, h⟩ := bind_ok h
    obtain ⟨rfl, rfl⟩ := pure_ok h
    have htype := deriveType_type fuel s s' returnType hreturn
    refine ⟨⟨?_, htype.grammatical⟩, rfl, fun _ => ⟨htype.notUnion, htype.notNullable⟩⟩
    exact deriveParams_fields fuel r r' params hparams

theorem deriveParams_fields (fuel : Nat) (p q : Parser) (params : List (Text × TypeTree))
    (h : deriveParams fuel p = .ok (params, q)) : GrammaticalFields params := by
  cases fuel with
  | zero => cases h
  | succ fuel =>
    rw [deriveParams] at h
    obtain ⟨close, r, -, h⟩ := bind_ok h
    cases close with
    | true =>
      obtain ⟨rfl, -⟩ := pure_ok h
      trivial
    | false => exact deriveParamList_fields fuel r q [] params trivial h

theorem deriveParamList_fields (fuel : Nat) (p q : Parser)
    (params results : List (Text × TypeTree)) (hparams : GrammaticalFields params)
    (h : deriveParamList fuel params p = .ok (results, q)) :
    GrammaticalFields results := by
  cases fuel with
  | zero => cases h
  | succ fuel =>
    rw [deriveParamList] at h
    obtain ⟨-, r, -, h⟩ := bind_ok h
    obtain ⟨name, r, -, h⟩ := bind_ok h
    obtain ⟨-, r, -, h⟩ := bind_ok h
    obtain ⟨ty, r', hty, h⟩ := bind_ok h
    have hmore := hparams.concat name (deriveType_type fuel r r' ty hty).grammatical
    obtain ⟨more, s, -, h⟩ := bind_ok h
    cases more with
    | true => exact deriveParamList_fields fuel s q _ results hmore h
    | false =>
      obtain ⟨rfl, -⟩ := pure_ok h
      exact hmore

theorem deriveRecordType_primary (fuel : Nat) (p q : Parser) (tree : TypeTree)
    (h : deriveRecordType fuel p = .ok (tree, q)) : IsPrimary tree q := by
  cases fuel with
  | zero => cases h
  | succ fuel =>
    rw [deriveRecordType] at h
    obtain ⟨fields, r, hfields, h⟩ := bind_ok h
    obtain ⟨-, r', -, h⟩ := bind_ok h
    obtain ⟨rfl, rfl⟩ := pure_ok h
    refine ⟨?_, rfl, by rintro ⟨⟩⟩
    obtain ⟨close, s, -, hfields⟩ := bind_ok hfields
    cases close with
    | true =>
      obtain ⟨rfl, -⟩ := pure_ok hfields
      trivial
    | false => exact deriveRecordFields_fields fuel s r [] fields trivial hfields

theorem deriveRecordFields_fields (fuel : Nat) (p q : Parser)
    (fields results : List (Text × TypeTree)) (hfields : GrammaticalFields fields)
    (h : deriveRecordFields fuel fields p = .ok (results, q)) :
    GrammaticalFields results := by
  cases fuel with
  | zero => cases h
  | succ fuel =>
    rw [deriveRecordFields] at h
    obtain ⟨name, r, -, h⟩ := bind_ok h
    obtain ⟨-, r, -, h⟩ := bind_ok h
    obtain ⟨ty, r', hty, h⟩ := bind_ok h
    have hmore := hfields.concat name (deriveType_type fuel r r' ty hty).grammatical
    obtain ⟨more, s, -, h⟩ := bind_ok h
    cases more with
    | true =>
      obtain ⟨close, s', -, h⟩ := bind_ok h
      cases close with
      | true =>
        obtain ⟨rfl, -⟩ := pure_ok h
        exact hmore
      | false => exact deriveRecordFields_fields fuel s' q _ results hmore h
    | false =>
      obtain ⟨rfl, -⟩ := pure_ok h
      exact hmore

end

end

end Skiff.Syntax
