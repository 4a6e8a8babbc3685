import Skiff.Syntax.TypeGrammar
import Skiff.Syntax.TypeRoundTrip

/-!
# What the text of a parsed type means

The parser keeps the text of a type, and `TypeExpr::parse` reads it wherever the type is used. It
gives back the tree that the parser read if and only if that tree is plain. So a function type in
two pairs of angle brackets, or one in a single pair that returns a union, changes its meaning.
-/

namespace Skiff.Syntax

open TypeExpr

/-- The text stands for this tree, and goes on to do so when it is printed. -/
def Means [SerdeJson] (ref : TypeRef) (tree : TypeTree) : Prop :=
  parse ref.name = tree.expr ∧ parse (parse ref.name).toTypeString = parse ref.name

variable {tree : TypeTree} {p q : Parser}

theorem means_text [SerdeJson] [SerdeJson.Documented] (h : tree.Grammatical) :
    Means ⟨typeText tree⟩ tree ↔ tree.Plain PlainString := by
  have hparse := parse_text quotingStringType h
  constructor
  · exact fun hmeans => hparse.mp hmeans.1
  intro hplain
  have hexpr : parse (typeText tree) = tree.expr := hparse.mpr hplain
  refine ⟨hexpr, ?_⟩
  show parse (parse (typeText tree)).toTypeString = parse (typeText tree)
  rw [hexpr]
  exact parse_toTypeString h hplain

theorem parseType_derives {fuel : Nat} {ref : TypeRef} (h : parseType fuel p = .ok (ref, q)) :
    ∃ tree, deriveType fuel p = .ok (tree, q) ∧ ref = ⟨typeText tree⟩ := by
  rw [parseType_text, ← bind_pure_comp] at h
  obtain ⟨tree, r, hderive, h⟩ := bind_ok h
  obtain ⟨rfl, rfl⟩ := pure_ok h
  exact ⟨tree, hderive, rfl⟩

theorem parseType_of_derives {fuel : Nat}
    (h : deriveType fuel p = .ok (tree, q)) : parseType fuel p = .ok (⟨typeText tree⟩, q) := by
  rw [parseType_text, ← bind_pure_comp]
  show (deriveType fuel p >>= fun result => _) = _
  rw [h]
  rfl

/-- Every type that the parser accepts has a tree, and its text means that tree if and only if the
tree is plain. -/
theorem parseType_means [SerdeJson] [SerdeJson.Documented] {fuel : Nat} {p q : Parser}
    {ref : TypeRef} (h : parseType fuel p = .ok (ref, q)) :
    ∃ tree, deriveType fuel p = .ok (tree, q) ∧ (Means ref tree ↔ tree.Plain PlainString) := by
  obtain ⟨tree, hderive, rfl⟩ := parseType_derives h
  exact ⟨tree, hderive, means_text (deriveType_type fuel p q tree hderive).grammatical⟩

/-! ## Two types -/

instance : SerdeJson := ⟨fun | '"' :: rest => jsonFromStr rest | _ => none, Json.jsonQuote⟩

instance : SerdeJson.Documented := ⟨fun _ => rfl, rfl⟩

/-- The tokens of a file, at no place in particular. -/
def Parser.ofKinds (kinds : List TokenKind) : Parser where
  tokens := kinds.map (fun kind => ⟨kind, ⟨0, 0, 0⟩⟩) ++ [⟨.eof, ⟨0, 0, 0⟩⟩]
  current := 0
  inBounds := by simp
  ended := ⟨_, _, rfl, rfl⟩

def Ident.letter (ch : Char) (h : isIdentStart ch = true) : Ident := ⟨[ch], ch, [], rfl, h, rfl⟩

def Ident.fn : Ident := ⟨['f', 'n'], 'f', ['n'], rfl, rfl, rfl⟩

/-- `a<b?>` -/
def plainType : Parser :=
  .ofKinds [.ident (.letter 'a' rfl), .symbol "<", .ident (.letter 'b' rfl), .symbol "?",
    .symbol ">"]

/-- `a<fn() -> b | c>` -/
def arrowType : Parser :=
  .ofKinds [.ident (.letter 'a' rfl), .symbol "<", .ident .fn, .symbol "(", .symbol ")",
    .symbol "->", .ident (.letter 'b' rfl), .symbol "|", .ident (.letter 'c' rfl), .symbol ">"]

theorem parseType_means_plainType :
    ∃ ref q tree, parseType 9 plainType = .ok (ref, q) ∧
      deriveType 9 plainType = .ok (tree, q) ∧ tree.Plain PlainString ∧ Means ref tree := by
  obtain ⟨ref, q, h⟩ : ∃ ref q, parseType 9 plainType = .ok (ref, q) := ⟨_, _, rfl⟩
  obtain ⟨tree, hderive, hmeans⟩ := parseType_means h
  have htree : tree = .generic ['a'] [.nullable (.name ['b'])] := by
    cases hderive
    rfl
  have hplain : tree.Plain PlainString := by
    subst htree
    refine ⟨by simp, rfl, ?_, ⟨rfl, trivial⟩, trivial⟩
    intro arg harg
    rw [List.mem_singleton.mp harg]
    rfl
  exact ⟨ref, q, tree, h, hderive, hplain, hmeans.mpr hplain⟩

/-- A generic type that is seen as a union. -/
def TypeTree.isSplit : TypeTree → Bool
  | .generic root args => (TypeTree.generic root args).spills '|' 0 != 0
  | _ => false

theorem TypeTree.not_plain_of_isSplit {ok : Text → Prop}
    (h : tree.isSplit = true) : ¬ tree.Plain ok := by
  cases tree with
  | generic root args =>
    rw [TypeTree.isSplit, bne_iff_ne] at h
    exact fun hplain => h hplain.2.1
  | _ => cases h

theorem arrow_changes_meaning :
    ¬ ∀ (fuel : Nat) (p q : Parser) (ref : TypeRef), parseType fuel p = .ok (ref, q) →
      ∃ tree, deriveType fuel p = .ok (tree, q) ∧ Means ref tree := by
  intro hclaim
  have hsplit : (deriveType 16 arrowType).toOption.any (fun result => result.1.isSplit) = true := by
    decide +kernel
  cases hresult : deriveType 16 arrowType with
  | error e =>
    rw [hresult] at hsplit
    cases hsplit
  | ok result =>
    obtain ⟨tree, q⟩ := result
    rw [hresult] at hsplit
    obtain ⟨tree', hderive, hmeans⟩ := hclaim 16 arrowType q _ (parseType_of_derives hresult)
    rw [hresult] at hderive
    cases hderive
    have hgrammatical := (deriveType_type 16 arrowType q tree hresult).grammatical
    exact TypeTree.not_plain_of_isSplit hsplit ((means_text hgrammatical).mp hmeans)

end Skiff.Syntax
