import Skiff.Syntax.TypeGenerics

/-!
# How a text begins

A type is told by how its text begins and ends before it is split: a literal is all of its text, a
function begins with `fn(`, and the text of another tree is neither.
-/

namespace Skiff.Syntax

open Recoverable (isWhitespace)
open TypeExpr (joinWith)
open TypeTree List

variable {tree : TypeTree}

namespace TypeTree

def isString : TypeTree → Bool
  | .string _ => true
  | _ => false

def isFunction : TypeTree → Bool
  | .function _ _ => true
  | _ => false

def isEmptyRecord : TypeTree → Bool
  | .record [] => true
  | _ => false

theorem endsFunction_of_isFunction (h : tree.isFunction = true) : tree.endsFunction = true := by
  cases tree with
  | function params returnType => rfl
  | _ => cases h

end TypeTree

section

variable {quote : Text → Text} {ok : Text → Prop}

/-- A union begins with its first branch, and a `|` comes after it. -/
theorem text_union (quote : Text → Text) {branches : List TypeTree} (h : 2 ≤ branches.length) :
    ∃ first tail, branches.head? = some first ∧ first ∈ branches.dropLast ∧
      (union branches).text quote = first.text quote ++ ' ' :: '|' :: tail := by
  match branches, h with
  | first :: next :: rest, _ =>
    refine ⟨first, ' ' :: joinWith [' ', '|', ' '] (texts quote (next :: rest)), rfl, (.head _), ?_⟩
    rw [text, texts, Scan.joinWith_cons (by simp [texts]), append_assoc]
    rfl

theorem IsRoot.head {root : Text} (h : IsRoot root) : ∃ ch tail, root = ch :: tail ∧ ch ≠ '{' := by
  cases h with
  | path hne h =>
    obtain ⟨ch, tail, rfl⟩ := exists_cons_of_ne_nil hne
    exact ⟨ch, tail, rfl, ne_of_isNameChar (h ch (.head _)) rfl⟩
  | quoted value h => exact ⟨'"', _, rfl, by decide⟩

/-- A mark with a character that no name holds is not the beginning of a name. -/
theorem not_prefix_root {root rest mark : Text} (h : IsRoot root) {ch first : Char} {tail : Text}
    (hch : ch ∈ mark) (hname : isNameChar ch = false) (hmark : mark = first :: tail)
    (hfirst : first ≠ '"') (hrest : ∀ c tail, rest = c :: tail → c ∉ mark) :
    ¬ mark <+: root ++ rest := by
  intro hprefix
  cases h with
  | path hne h =>
    obtain hin | hin := prefix_or_prefix_of_prefix hprefix (prefix_append root rest)
    · exact Scan.notMem_of_isNameChar h hname (hin.subset hch)
    obtain ⟨more, rfl⟩ := hin
    rw [prefix_append_right_inj] at hprefix
    cases more with
    | nil =>
      rw [append_nil] at hch
      exact Scan.notMem_of_isNameChar h hname hch
    | cons c more =>
      obtain ⟨tail', rfl⟩ := hprefix
      exact hrest c _ rfl (mem_append_right _ (.head _))
  | quoted value h =>
    rw [hmark, quoteStringType, append_assoc, cons_append, cons_append] at hprefix
    exact hfirst (cons_prefix_cons.mp hprefix).1

theorem notFunction_text (hquote : Quoting quote ok) (tree : TypeTree) (h : tree.Grammatical)
    (hfunction : tree.isFunction = false) (rest : Text)
    (hrest : ∀ c tail, rest = c :: tail → c ∉ ['f', 'n', '(']) :
    ¬ ['f', 'n', '('] <+: tree.text quote ++ rest := by
  match tree with
  | .string value =>
    rw [text, hquote.quoted, cons_append, cons_append]
    exact fun hprefix => absurd (cons_prefix_cons.mp hprefix).1 (by decide)
  | .name path =>
    exact not_prefix_root h.1 (show '(' ∈ ['f', 'n', '('] by decide) rfl rfl (by decide) hrest
  | .generic root args =>
    rw [GenericScan.text_generic, append_assoc]
    refine not_prefix_root h.1 (show '(' ∈ ['f', 'n', '('] by decide) rfl rfl (by decide) ?_
    rintro c tail heq
    rw [cons_append] at heq
    rw [← (cons.inj heq).1]
    decide
  | .any interface | .record (field :: fields) =>
    exact fun hprefix => absurd (cons_prefix_cons.mp hprefix).1 (by decide)
  | .function params returnType => cases hfunction
  | .record [] => exact fun hprefix => absurd (cons_prefix_cons.mp hprefix).1 (by decide)
  | .nullable inner =>
    have hinner : inner.isFunction = false := by
      by_contra hne
      have hends := endsFunction_of_isFunction (Bool.of_not_eq_false hne)
      rw [h.2.1] at hends
      cases hends
    rw [text, append_assoc]
    refine notFunction_text hquote inner h.2.2 hinner _ ?_
    rintro c tail heq
    rw [singleton_append] at heq
    rw [← (cons.inj heq).1]
    decide
  | .union branches =>
    obtain ⟨first, tail, -, hfirst, htext⟩ := text_union quote h.1
    have hmem : first ∈ branches := dropLast_subset _ hfirst
    have hends := h.2.2.2 first hfirst
    have hnone : first.isFunction = false := by
      by_contra hne
      rw [endsFunction_of_isFunction (Bool.of_not_eq_false hne)] at hends
      cases hends
    rw [htext, append_assoc]
    refine notFunction_text hquote first (grammaticalAll_iff.mp h.2.1 first hmem) hnone _ ?_
    rintro c tail heq
    rw [cons_append] at heq
    rw [← (cons.inj heq).1]
    decide

theorem functionTypeParts_text (hquote : Quoting quote ok) (h : tree.Grammatical)
    (hfunction : tree.isFunction = false) :
    TypeExpr.functionTypeParts (tree.text quote) = none := by
  have hprefix := notFunction_text hquote tree h hfunction [] (by rintro c tail ⟨⟩)
  rw [append_nil] at hprefix
  rw [TypeExpr.functionTypeParts, (text_tight hquote h).trim]
  have hnone : stripPrefix "fn(".toList (tree.text quote) = none := by
    rw [stripPrefix, if_neg]
    rw [ isPrefixOf_iff_prefix]
    exact hprefix
  rw [hnone]
  rfl

/-- A text that begins with a quote goes on after the literal, unless it is one. -/
theorem jsonString_text (hquote : Quoting quote ok) (tree : TypeTree) (h : tree.Grammatical)
    (rest : Text) {tail value : Text} (htext : tree.text quote ++ rest = '"' :: tail)
    (hvalue : jsonString tail = some (value, [])) : tree.isString = true ∧ rest = [] := by
  have hend : ∀ {q : Text → Text} {ok' : Text → Prop}, Quoting q ok' → ∀ v more,
      q v ++ more = '"' :: tail → more = [] := by
    intro q ok' hq v more heq
    rw [hq.quoted, cons_append, cons_append, append_assoc, singleton_append] at heq
    rw [← (cons.inj heq).2] at hvalue
    by_cases hok : ok' v
    · rw [hq.decoded v more hok] at hvalue
      exact congrArg Prod.snd (Option.some.inj hvalue)
    rw [hq.refused v more hok] at hvalue
    cases hvalue
  have hpath : ∀ {root more : Text}, IsRoot root → root ++ more = '"' :: tail →
      more = [] ∧ root.getLast? = some '"' := by
    intro root more hroot heq
    cases hroot with
    | path hne h =>
      obtain ⟨ch, chars, rfl⟩ := exists_cons_of_ne_nil hne
      have hch := h ch (.head _)
      rw [cons_append] at heq
      rw [(cons.inj heq).1] at hch
      cases hch
    | @quoted v suffix h =>
      rw [append_assoc] at heq
      obtain ⟨rfl, rfl⟩ := append_eq_nil_iff.mp (hend quotingStringType v _ heq)
      refine ⟨rfl, ?_⟩
      rw [append_nil, quoteStringType, getLast?_append]
      rfl
  cases tree with
  | string v => exact ⟨rfl, hend hquote v rest htext⟩
  | name path => exact absurd (hpath h.1 htext).2 h.2
  | generic root args =>
    rw [GenericScan.text_generic, append_assoc] at htext
    exact absurd (hpath h.1 htext).1 (by simp)
  | any interface | function params returnType => exact absurd (cons.inj htext).1 (by decide)
  | record fields =>
    cases fields with
    | nil | cons field fields => exact absurd (cons.inj htext).1 (by decide)
  | nullable inner =>
    rw [text, append_assoc] at htext
    exact absurd (jsonString_text hquote inner h.2.2 _ htext hvalue).2 (by simp)
  | union branches =>
    obtain ⟨first, more, -, hfirst, heq⟩ := text_union quote h.1
    have hmem : first ∈ branches := dropLast_subset _ hfirst
    rw [heq, append_assoc] at htext
    have hnil := (jsonString_text hquote first (grammaticalAll_iff.mp h.2.1 first hmem) _ htext
      hvalue).2
    exact absurd hnil (by simp)

theorem stringLiteral_text [SerdeJson] [SerdeJson.Documented] (hquote : Quoting quote ok)
    (h : tree.Grammatical) (hstring : tree.isString = false) :
    stringLiteral (tree.text quote) = none := by
  have htight := text_tight hquote h
  rw [stringLiteral_eq, htight.trim]
  split
  case h_1 tail heq =>
    split
    case isTrue =>
      rw [jsonFromStr]
      split
      case h_1 value hvalue =>
        have hboth := jsonString_text hquote tree h [] (by rw [append_nil, heq]) hvalue
        rw [hstring] at hboth
        cases hboth.1
      case h_2 => rfl
    case isFalse => rfl
  case h_2 => rfl

theorem stringLiteral_quote [SerdeJson] [SerdeJson.Documented] (hquote : Quoting quote ok)
    (value : Text) :
    (ok value → stringLiteral (quote value) = some value) ∧
      (¬ ok value → stringLiteral (quote value) = none) := by
  have htight : Tight (quote value) :=
    text_tight hquote (show (string value).Grammatical from trivial)
  have hlast : (hquote.body value ++ ['"']).getLast? = some '"' := by simp
  rw [stringLiteral_eq, htight.trim, hquote.quoted, cons_append]
  simp only [hlast, if_true, jsonFromStr]
  refine ⟨fun hok => ?_, fun hok => ?_⟩
  · rw [hquote.decoded value [] hok]
  · rw [hquote.refused value [] hok]

theorem text_ne_emptyRecord (hquote : Quoting quote ok) (h : tree.Grammatical)
    (hrecord : tree.isEmptyRecord = false) : tree.text quote ≠ "{}".toList := by
  intro heq
  match tree with
  | .string value =>
    rw [text, hquote.quoted] at heq
    exact absurd (cons.inj heq).1 (by decide)
  | .name path | .generic root args =>
    obtain ⟨ch, tail, rfl, hch⟩ := h.1.head
    exact hch (cons.inj heq).1
  | .any interface | .function params returnType => exact absurd (cons.inj heq).1 (by decide)
  | .record [] => cases hrecord
  | .record (field :: fields) => exact absurd (cons.inj (cons.inj heq).2).1 (by decide)
  | .nullable inner =>
    have hmem : '?' ∈ "{}".toList := by
      rw [← heq, text]
      exact mem_append_right _ (.head _)
    exact absurd hmem (by decide)
  | .union branches =>
    obtain ⟨first, more, -, -, htext⟩ := text_union quote h.1
    have hmem : '|' ∈ "{}".toList := by
      rw [← heq, htext]
      exact mem_append_right _ (.tail _ (.head _))
    exact absurd hmem (by decide)

end

end Skiff.Syntax
