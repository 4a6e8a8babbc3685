import Skiff.WebSocket.Classify
import Skiff.WebSocket.LexParser

/-!
# Texts that the lexical parser reads

What the grammar of the parser reads, the parser returns, unless it stops at a budget. A
number is read as far as it goes, so that what follows a value must not continue it.
-/

namespace Skiff.WebSocket

open Json

theorem isWs_of_digit {b : UInt8} (h : isDigit b = true) : isWs b = false := by
  simp only [isDigit, Bool.and_eq_true, decide_eq_true_eq, UInt8.le_iff_toNat_le,
    UInt8.reduceToNat] at h
  have hne : ∀ c : UInt8, c.toNat < 0x30 → b ≠ c := by
    rintro c hlt rfl
    omega
  simp [isWs, hne]

theorem numberByte_of_ws {b : UInt8} (h : isWs b = true) : numberByte b = false := by
  cases hdigit : isDigit b with
  | true => rw [isWs_of_digit hdigit] at h; cases h
  | false =>
    simp only [isWs, Bool.or_eq_true, decide_eq_true_eq] at h
    obtain ((rfl | rfl) | rfl) | rfl := h
    · rfl
    · rfl
    · rfl
    · rfl

variable {source rest : List UInt8}

/-- Whitespace and a bracket, a brace or a comma do not continue a number. -/
theorem headNot_of_readsWs {b : UInt8} (h : ReadsWs source (b :: rest))
    (hb : numberByte b = false) : HeadNot numberByte source := by
  cases h with
  | done => exact .cons hb rest
  | more ws _ => exact .cons (numberByte_of_ws ws) _

variable {part : Part}

/-- The first byte of a part that is read is not whitespace and no closing bracket. -/
theorem reads_head {g : JsonGrammar} (h : Reads g part source rest) :
    ∃ first others, source = first :: others ∧ isWs first = false ∧ first ≠ 0x5d ∧
    first ≠ 0x7d := by
  induction h with
  | name h rest =>
    cases h with
    | isTrue | isFalse | isNull => exact ⟨_, _, rfl, rfl, by decide, by decide⟩
  | number h rest =>
    obtain ⟨first, others, rfl, rfl | hfirst⟩ := h.cons
    · exact ⟨_, _, rfl, rfl, by decide, by decide⟩
    refine ⟨first, _, rfl, isWs_of_digit hfirst, ?_, ?_⟩
    · rintro rfl
      cases hfirst
    rintro rfl
    cases hfirst
  | string | emptyArray | array | emptyObject | object | lastMember | member =>
    exact ⟨_, _, rfl, rfl, by decide, by decide⟩
  | lastItem _ _ ih | item _ _ _ _ ih _ => exact ih

theorem skipWs_eq_of_reads {g : JsonGrammar} {source inner rest : List UInt8}
    (hws : ReadsWs source inner) (h : Reads g part inner rest) : skipWs source = inner := by
  obtain ⟨first, others, rfl, hfirst, -⟩ := reads_head h
  exact skipWs_eq hws (tight_cons hfirst)

theorem lexName_complete (name : List UInt8) (node : LexNode) (rest : List UInt8)
    (budget : LexBudget) : Finishes (lexed (lexName name node (name ++ rest) budget))
      fun result => result.1 = node ∧ result.2.1 = rest := by
  rw [lexName, List.take_left, if_pos rfl]
  obtain ⟨next, hnode, -⟩ | hnode := Finishes.node budget
  · rw [lexed_eq_ok.mp hnode]
    exact .ok ⟨rfl, List.drop_left⟩
  obtain ⟨error, herror, heq⟩ := lexed_eq_error.mp hnode
  rw [herror]
  exact .inr (by rw [heq]; rfl)

theorem parseLexNumber_complete {lexeme rest : List UInt8} (h : IsNumber lexeme)
    (hrest : HeadNot numberByte rest) (budget : LexBudget) :
    Finishes (lexed (parseLexNumber (lexeme ++ rest) budget)) fun result =>
      result.1 = .number lexeme ∧ result.2.1 = rest := by
  rw [parseLexNumber, lexNumber_complete h hrest]
  obtain ⟨next, hnode, -⟩ | hnode := Finishes.node budget
  · change Finishes (lexed (budget.node >>= fun budget => _)) _
    rw [lexed_eq_ok.mp hnode]
    exact .ok ⟨rfl, rfl⟩
  obtain ⟨error, herror, heq⟩ := lexed_eq_error.mp hnode
  change Finishes (lexed (budget.node >>= fun budget => _)) _
  rw [herror]
  exact .inr (by rw [heq]; rfl)

/-- The parser returns a part with what it says and what it leaves. -/
def ReadBy : Part → List UInt8 → List UInt8 → Prop
  | .value node, source, rest => HeadNot numberByte rest → ∀ (text : List UInt8) (fuel : Nat)
      (budget : LexBudget), ReadsWs text source → 2 * source.length < fuel →
      Finishes (parseLexNode fuel text budget) fun result => result.1 = node ∧ result.2.1 = rest
  | .items nodes, source, rest => ∀ (text : List UInt8) (fuel : Nat) (budget : LexBudget),
      ReadsWs text source → 2 * source.length + 1 < fuel →
      Finishes (parseLexItems fuel text budget) fun result => result.1 = nodes ∧ result.2.1 = rest
  | .members members, source, rest => ∀ (fuel : Nat) (budget : LexBudget),
      2 * source.length < fuel → Finishes (parseLexMembers fuel source budget) fun result =>
        result.1 = members.map LexMember.entry ∧ result.2.1 = rest

theorem node_name {name : List UInt8} {node : LexNode} (h : IsName name node)
    {rest text : List UInt8} {fuel : Nat} (budget : LexBudget) (hws : ReadsWs text (name ++ rest)) :
    Finishes (parseLexNode (fuel + 1) text budget) fun result =>
      result.1 = node ∧ result.2.1 = rest := by
  have hskip := skipWs_eq_of_reads hws (Reads.name (g := accepted) h rest)
  rw [parseLexNode, hskip]
  cases h with
  | isTrue | isFalse | isNull => exact lexName_complete _ _ rest budget

theorem node_number {lexeme : List UInt8} (h : IsNumber lexeme) {rest text : List UInt8}
    {fuel : Nat} (budget : LexBudget) (hrest : HeadNot numberByte rest)
    (hws : ReadsWs text (lexeme ++ rest)) :
    Finishes (parseLexNode (fuel + 1) text budget) fun result =>
      result.1 = .number lexeme ∧ result.2.1 = rest := by
  have hskip := skipWs_eq_of_reads hws (Reads.number (g := accepted) h rest)
  obtain ⟨first, others, hlexeme, hfirst⟩ := h.cons
  have hread := parseLexNumber_complete h hrest budget
  rw [hlexeme, List.cons_append] at hskip hread
  rw [parseLexNode, hskip]
  have hne := ne_of_number_head hfirst
  have hnumber : (first = 0x2d || isDigit first) = true := by simpa using hfirst
  dsimp only
  rw [if_neg (hne _ (by decide) rfl), if_neg (hne _ (by decide) rfl),
    if_neg (hne _ (by decide) rfl),
    if_neg (hne _ (by decide) rfl), if_neg (hne _ (by decide) rfl), if_neg (hne _ (by decide) rfl),
    if_pos hnumber]
  rw [hlexeme]
  exact hread

theorem readBy (h : Reads accepted part source rest) : ReadBy part source rest := by
  induction h with
  | name h rest =>
    intro _ text fuel budget hws hfuel
    obtain ⟨n, rfl⟩ := exists_fuel hfuel
    exact node_name h budget hws
  | number h rest =>
    intro hrest text fuel budget hws hfuel
    obtain ⟨n, rfl⟩ := exists_fuel hfuel
    exact node_number h budget hrest hws
  | @string value source rest h =>
    intro _ text fuel budget hws hfuel
    obtain ⟨n, rfl⟩ := exists_fuel hfuel
    rw [parseLexNode, skipWs_eq_of_reads hws (.string h)]
    refine (parseLexString_complete h budget).bind ?_
    rintro ⟨value', rest', after⟩ ⟨hvalue, hrest⟩
    exact .ok ⟨congrArg LexNode.string hvalue, hrest⟩
  | @emptyArray source rest ws =>
    intro _ text fuel budget hws hfuel
    obtain ⟨n, rfl⟩ := exists_fuel hfuel
    rw [parseLexNode, skipWs_eq_of_reads hws (.emptyArray (g := accepted) ws)]
    refine (Finishes.enter budget).bind fun entered _ => ?_
    rw [skipWs_eq ws (tight_cons rfl)]
    exact .ok ⟨rfl, rfl⟩
  | @array nodes source inner rest ws h ih =>
    intro _ text fuel budget hws hfuel
    obtain ⟨n, rfl⟩ := exists_fuel hfuel
    rw [parseLexNode, skipWs_eq_of_reads hws (.array ws h)]
    refine (Finishes.enter budget).bind fun entered _ => ?_
    have hinner := skipWs_eq_of_reads ws h
    obtain ⟨first, others, hfirst, -, hclose, -⟩ := reads_head h
    rw [hinner, if_neg (by rw [hfirst]; simpa using hclose)]
    have hle := ws.suffix.length_le
    rw [List.length_cons] at hfuel
    refine (ih inner n entered (.done inner) (by omega)).bind ?_
    rintro ⟨nodes', rest', after⟩ ⟨hnodes, hrest⟩
    exact .ok ⟨congrArg LexNode.array hnodes, hrest⟩
  | @emptyObject source rest ws =>
    intro _ text fuel budget hws hfuel
    obtain ⟨n, rfl⟩ := exists_fuel hfuel
    rw [parseLexNode, skipWs_eq_of_reads hws (.emptyObject (g := accepted) ws)]
    refine (Finishes.enter budget).bind fun entered _ => ?_
    rw [skipWs_eq ws (tight_cons rfl)]
    exact .ok ⟨rfl, rfl⟩
  | @object members source inner rest ws h ih =>
    intro _ text fuel budget hws hfuel
    obtain ⟨n, rfl⟩ := exists_fuel hfuel
    rw [parseLexNode, skipWs_eq_of_reads hws (.object ws h)]
    refine (Finishes.enter budget).bind fun entered _ => ?_
    have hinner := skipWs_eq_of_reads ws h
    obtain ⟨first, others, hfirst, -, -, hclose⟩ := reads_head h
    rw [hinner, if_neg (by rw [hfirst]; simpa using hclose)]
    have hle := ws.suffix.length_le
    rw [List.length_cons] at hfuel
    refine (ih n entered (by omega)).bind ?_
    rintro ⟨entries, rest', after⟩ ⟨hentries, hrest⟩
    exact .ok ⟨congrArg LexNode.object hentries, hrest⟩
  | @lastItem node source after rest h ws ih =>
    intro text fuel budget hws hfuel
    obtain ⟨n, rfl⟩ := exists_fuel hfuel
    rw [parseLexItems]
    refine (ih (headNot_of_readsWs ws rfl) text n budget hws (by omega)).bind ?_
    rintro ⟨node', after', valued⟩ ⟨hnode, rfl : after' = after⟩
    dsimp only
    rw [skipWs_eq ws (tight_cons rfl)]
    exact .ok ⟨congrArg (· :: []) hnode, rfl⟩
  | @item node nodes source after next inner rest h ws ws' h' ih ih' =>
    intro text fuel budget hws hfuel
    obtain ⟨n, rfl⟩ := exists_fuel hfuel
    have hlt := h.consumes.length_lt
    have hle := ws.suffix_tail.length_le
    have hle' := ws'.suffix.length_le
    rw [parseLexItems]
    refine (ih (headNot_of_readsWs ws rfl) text n budget hws (by omega)).bind ?_
    rintro ⟨node', after', valued⟩ ⟨rfl, rfl : after' = after⟩
    dsimp only
    rw [skipWs_eq ws (tight_cons rfl)]
    refine (ih' next n valued ws' (by omega)).bind ?_
    rintro ⟨nodes', rest', left⟩ ⟨hnodes, hrest⟩
    exact .ok ⟨congrArg (node' :: ·) hnodes, hrest⟩
  | @lastMember key text node source colon next after rest hkey beforeColon afterColon h afterValue
      ih =>
    intro fuel budget hfuel
    obtain ⟨n, rfl⟩ := exists_fuel hfuel
    have hlt := hkey.consumes.length_lt
    have hle := beforeColon.suffix_tail.length_le
    have hle' := afterColon.suffix.length_le
    rw [List.length_cons] at hfuel
    rw [parseLexMembers]
    refine (parseLexString_complete hkey budget).bind ?_
    rintro ⟨key', colon', keyed⟩ ⟨rfl, rfl : colon' = colon⟩
    dsimp only
    rw [skipWs_eq beforeColon (tight_cons rfl)]
    refine (ih (headNot_of_readsWs afterValue rfl) next n keyed afterColon (by omega)).bind ?_
    rintro ⟨node', after', valued⟩ ⟨rfl, rfl : after' = after⟩
    dsimp only
    rw [skipWs_eq afterValue (tight_cons rfl)]
    exact .ok ⟨rfl, rfl⟩
  | @member key text node members source colon next after comma inner rest hkey beforeColon
      afterColon
      h afterValue afterComma compact h' ih ih' =>
      intro fuel budget hfuel
      obtain ⟨n, rfl⟩ := exists_fuel hfuel
      obtain rfl := compact rfl
      have hlt := hkey.consumes.length_lt
      have hle := beforeColon.suffix_tail.length_le
      have hle' := afterColon.suffix.length_le
      have hlt' := h.consumes.length_lt
      have hle'' := afterValue.suffix_tail.length_le
      rw [List.length_cons] at hfuel
      rw [parseLexMembers]
      refine (parseLexString_complete hkey budget).bind ?_
      rintro ⟨key', colon', keyed⟩ ⟨rfl, rfl : colon' = colon⟩
      dsimp only
      rw [skipWs_eq beforeColon (tight_cons rfl)]
      refine (ih (headNot_of_readsWs afterValue rfl) next n keyed afterColon (by omega)).bind ?_
      rintro ⟨node', after', valued⟩ ⟨rfl, rfl : after' = after⟩
      dsimp only
      rw [skipWs_eq afterValue (tight_cons rfl)]
      refine (ih' n valued (by omega)).bind ?_
      rintro ⟨entries, rest', left⟩ ⟨hentries, hrest⟩
      exact .ok ⟨congrArg ((key', node') :: ·) hentries, hrest⟩

/-- The parse of a whole frame returns what the grammar says, and only that. -/
theorem parseFrame_eq_ok {frame : List UInt8} (hbudget : parseFrame frame ≠ .error (some .budget)) :
    (∃ node after, parseFrame frame = .ok (node, [], after)) ↔ IsJson accepted frame := by
  constructor
  · rintro ⟨node, after, h⟩
    obtain ⟨inner, hws, hreads⟩ := (sound _).node h
    exact ⟨node, inner, [], hws, hreads, .done [], fun _ => rfl⟩
  rintro ⟨node, inner, rest, hws, hreads, -, hend⟩
  obtain rfl := hend rfl
  have hle := hws.suffix.length_le
  obtain ⟨⟨node', rest, after⟩, h, -, rfl : rest = []⟩ | h :=
    readBy hreads (.nil _) frame (2 * frame.length + 1) ⟨0, 0⟩ hws (by omega)
  · exact ⟨node', after, h⟩
  · exact absurd h hbudget

end Skiff.WebSocket
