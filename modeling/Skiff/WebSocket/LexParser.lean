import Skiff.WebSocket.LexNumbers

/-!
# The lexical parser and its grammar

What the parser returns is read by its grammar, a parse has fuel enough for every text, and
what the grammar reads the parser returns, unless it stops at a budget.
-/

namespace Skiff.Json

open WebSocket List

theorem IsDigits.cons {digits : List UInt8} (h : IsDigits digits) :
    ∃ first others, digits = first :: others ∧ isDigit first = true := by
  obtain ⟨hne, hall⟩ := h
  cases digits with
  | nil => exact absurd rfl hne
  | cons first others => exact ⟨first, others, rfl, hall first (.head _)⟩

theorem IsNumber.cons {lexeme : List UInt8} (h : IsNumber lexeme) :
    ∃ first others, lexeme = first :: others ∧ (first = 0x2d ∨ isDigit first = true) := by
  obtain ⟨sign, integer, fraction, exponent, rfl, hsign, hdigits, -⟩ := h
  obtain rfl | rfl := hsign
  · obtain ⟨first, others, rfl, hfirst⟩ := hdigits.cons
    exact ⟨first, _, rfl, .inr hfirst⟩
  · exact ⟨_, _, rfl, .inl rfl⟩

theorem ne_of_number_head {first : UInt8} (h : first = 0x2d ∨ isDigit first = true) (b : UInt8)
    (hminus : b ≠ 0x2d) (hdigit : isDigit b = false) : first ≠ b := by
  rintro rfl
  exact h.elim hminus fun htrue => absurd (htrue.symm.trans hdigit) (by decide)

variable {g : JsonGrammar}

/-- The text starts with a byte and ends with the rest. -/
def Consumes (source rest : List UInt8) : Prop :=
  ∃ first others, source = first :: others ∧ rest <:+ others

namespace Consumes

variable {source middle rest : List UInt8}

theorem suffix (h : Consumes source rest) : rest <:+ source := by
  obtain ⟨first, others, rfl, h⟩ := h
  exact h.trans (suffix_cons first others)

theorem trans (h : Consumes source middle) (h' : rest <:+ middle) : Consumes source rest := by
  obtain ⟨first, others, rfl, h⟩ := h
  exact ⟨first, others, rfl, h'.trans h⟩

theorem length_lt (h : Consumes source rest) : rest.length < source.length := by
  obtain ⟨first, others, rfl, h⟩ := h
  exact Nat.lt_succ_of_le h.length_le

/-- The text that is consumed. -/
theorem split (h : Consumes source rest) : ∃ text, source = text ++ rest := by
  obtain ⟨text, heq⟩ := h.suffix
  exact ⟨text, heq.symm⟩

end Consumes

variable {source rest : List UInt8}

theorem ReadsWs.suffix (h : ReadsWs source rest) : rest <:+ source := by
  induction h with
  | done => exact suffix_rfl
  | more _ _ ih => exact ih.trans (suffix_cons _ _)

/-- Whitespace and the byte after it. -/
theorem ReadsWs.suffix_tail {b : UInt8} (h : ReadsWs source (b :: rest)) : rest <:+ source :=
  (suffix_cons b rest).trans h.suffix

theorem ReadsChars.consumes {value source rest : List UInt8} (h : ReadsChars g value source rest) :
    Consumes source rest := by
  induction h with
  | close => exact ⟨_, _, rfl, suffix_rfl⟩
  | @unescaped c _ _ _ _ _ ih =>
    obtain ⟨first, others, hbytes, -⟩ := utf8EncodeChar_takes c
    rw [hbytes]
    exact ⟨first, _, rfl, ih.suffix.trans (suffix_append _ _)⟩
  | escape _ _ ih => exact ⟨_, _, rfl, ih.suffix.trans (suffix_cons _ _)⟩
  | unicode _ _ _ ih | lone _ _ _ _ ih =>
    exact ⟨_, _, rfl, ih.suffix.trans ((suffix_append _ _).trans (suffix_cons _ _))⟩
  | @pair first second _ _ _ source _ _ _ _ _ _ _ ih =>
    have hsecond : source <:+ 0x5c :: 0x75 :: (second ++ source) := ⟨0x5c :: 0x75 :: second, rfl⟩
    refine ⟨_, _, rfl, ih.suffix.trans (hsecond.trans ?_)⟩
    exact (suffix_append _ _).trans (suffix_cons _ _)

theorem Reads.consumes {part : Part} (h : Reads g part source rest) : Consumes source rest := by
  induction h with
  | name h rest =>
    cases h with
    | isTrue => exact ⟨_, _, rfl, suffix_append [0x72, 0x75, 0x65] _⟩
    | isFalse => exact ⟨_, _, rfl, suffix_append [0x61, 0x6c, 0x73, 0x65] _⟩
    | isNull => exact ⟨_, _, rfl, suffix_append [0x75, 0x6c, 0x6c] _⟩
  | number h rest =>
    obtain ⟨first, others, rfl, -⟩ := h.cons
    exact ⟨first, _, rfl, suffix_append _ _⟩
  | string h => exact ⟨_, _, rfl, h.consumes.suffix⟩
  | emptyArray ws | emptyObject ws => exact ⟨_, _, rfl, ws.suffix_tail⟩
  | array ws _ ih | object ws _ ih => exact ⟨_, _, rfl, ih.suffix.trans ws.suffix⟩
  | lastItem _ ws ih => exact ih.trans ws.suffix_tail
  | item _ ws ws' _ ih ih' => exact ih.trans (ih'.suffix.trans (ws'.suffix.trans ws.suffix_tail))
  | lastMember hkey beforeColon afterColon _ afterValue ih =>
    refine ⟨_, _, rfl, afterValue.suffix_tail.trans (ih.suffix.trans ?_)⟩
    exact afterColon.suffix.trans (beforeColon.suffix_tail.trans hkey.consumes.suffix)
  | member hkey beforeColon afterColon _ afterValue afterComma _ _ ih ih' =>
    refine ⟨_, _, rfl, ih'.suffix.trans (afterComma.suffix.trans ?_)⟩
    refine afterValue.suffix_tail.trans (ih.suffix.trans (afterColon.suffix.trans ?_))
    exact beforeColon.suffix_tail.trans hkey.consumes.suffix

end Skiff.Json

namespace Skiff.WebSocket

open Json

/-! ## What the parser returns is read by the grammar -/

variable {budget after : LexBudget}

theorem lexName_sound {name source rest : List UInt8} {node result : LexNode}
    (h : lexName name node source budget = .ok (result, rest, after)) :
    result = node ∧ source = name ++ rest := by
  unfold lexName at h
  split at h
  case isTrue hname =>
    obtain ⟨next, -, hpure⟩ := bind_eq_ok.mp h
    obtain ⟨rfl, heq⟩ := Prod.mk.inj (Except.ok.inj hpure)
    cases heq
    refine ⟨rfl, ?_⟩
    calc source = source.take name.length ++ source.drop name.length :=
          (List.take_append_drop _ _).symm
      _ = name ++ source.drop name.length := by rw [hname]
  · cases h

variable {source rest : List UInt8}

theorem parseLexNumber_sound {node : LexNode}
    (h : parseLexNumber source budget = .ok (node, rest, after)) :
    Reads accepted (.value node) source rest := by
  obtain ⟨⟨lexeme, next⟩, hnumber, hnext⟩ := bind_eq_ok.mp h
  obtain ⟨next', -, hpure⟩ := bind_eq_ok.mp hnext
  obtain ⟨rfl, heq⟩ := Prod.mk.inj (Except.ok.inj hpure)
  cases heq
  obtain ⟨rfl, hlexeme⟩ := lexNumber_sound hnumber
  exact .number hlexeme _

theorem readsWs_of_skipWs {b : UInt8} (h : skipWs source = b :: rest) :
    ReadsWs source (b :: rest) := by
  rw [← h]
  exact readsWs_skipWs source

variable {source : List UInt8}

theorem readsWs_of_head? {b : UInt8} (h : (skipWs source).head? = some b) :
    ReadsWs source (b :: (skipWs source).tail) := by
  obtain ⟨rest, hskip⟩ := List.head?_eq_some_iff.mp h
  rw [hskip, List.tail_cons]
  exact readsWs_of_skipWs hskip

/-- Each part that the parser returns with the same fuel is read by the grammar. -/
structure Sound (fuel : Nat) : Prop where
  node : ∀ {source rest : List UInt8} {node : LexNode} {budget after : LexBudget},
    parseLexNode fuel source budget = .ok (node, rest, after) →
    ∃ inner, ReadsWs source inner ∧ Reads accepted (.value node) inner rest
  members : ∀ {source rest : List UInt8} {entries : List (List UInt8 × LexNode)}
    {budget after : LexBudget}, parseLexMembers fuel source budget = .ok (entries, rest, after) →
    ∃ members, entries = members.map LexMember.entry ∧ Reads accepted (.members members) source rest
  items : ∀ {source rest : List UInt8} {nodes : List LexNode} {budget after : LexBudget},
    parseLexItems fuel source budget = .ok (nodes, rest, after) →
    ∃ inner, ReadsWs source inner ∧ Reads accepted (.items nodes) inner rest

variable {fuel : Nat}

theorem Sound.node_succ (ih : Sound fuel) {node : LexNode}
    (h : parseLexNode (fuel + 1) source budget = .ok (node, rest, after)) :
    ∃ inner, ReadsWs source inner ∧ Reads accepted (.value node) inner rest := by
  rw [parseLexNode] at h
  split at h
  · cases h
  case h_2 byte next hskip =>
  refine ⟨byte :: next, readsWs_of_skipWs hskip, ?_⟩
  split at h
  case isTrue hbyte =>
    subst hbyte
    obtain ⟨entered, -, hbody⟩ := bind_eq_ok.mp h
    split at hbody
    case isTrue hclose =>
      obtain ⟨rfl, heq⟩ := Prod.mk.inj (Except.ok.inj hbody)
      cases heq
      exact .emptyObject (readsWs_of_head? hclose)
    · obtain ⟨⟨entries, rest', after'⟩, hmembers, hpure⟩ := bind_eq_ok.mp hbody
      obtain ⟨rfl, heq⟩ := Prod.mk.inj (Except.ok.inj hpure)
      cases heq
      obtain ⟨members, rfl, hreads⟩ := ih.members hmembers
      exact .object (readsWs_skipWs next) hreads
  split at h
  case isTrue hbyte =>
    subst hbyte
    obtain ⟨entered, -, hbody⟩ := bind_eq_ok.mp h
    split at hbody
    case isTrue hclose =>
      obtain ⟨rfl, heq⟩ := Prod.mk.inj (Except.ok.inj hbody)
      cases heq
      exact .emptyArray (readsWs_of_head? hclose)
    · obtain ⟨⟨nodes, rest', after'⟩, hitems, hpure⟩ := bind_eq_ok.mp hbody
      obtain ⟨rfl, heq⟩ := Prod.mk.inj (Except.ok.inj hpure)
      cases heq
      obtain ⟨inner, hws, hreads⟩ := ih.items hitems
      exact .array (readsWs_trans (readsWs_skipWs next) hws) hreads
  split at h
  case isTrue hbyte =>
    obtain ⟨⟨value, rest', after'⟩, hstring, hpure⟩ := bind_eq_ok.mp h
    obtain ⟨rfl, heq⟩ := Prod.mk.inj (Except.ok.inj hpure)
    cases heq
    obtain ⟨chars, hsource, hreads⟩ := parseLexString_sound hstring
    rw [hsource]
    exact .string hreads
  split at h
  case isTrue hbyte =>
    obtain ⟨rfl, hsource⟩ := lexName_sound (lexed_eq_ok.mp h)
    rw [hsource]
    exact .name .isTrue rest
  split at h
  case isTrue hbyte =>
    obtain ⟨rfl, hsource⟩ := lexName_sound (lexed_eq_ok.mp h)
    rw [hsource]
    exact .name .isFalse rest
  split at h
  case isTrue hbyte =>
    obtain ⟨rfl, hsource⟩ := lexName_sound (lexed_eq_ok.mp h)
    rw [hsource]
    exact .name .isNull rest
  split at h
  · exact parseLexNumber_sound (lexed_eq_ok.mp h)
  · cases h

theorem Sound.members_succ (ih : Sound fuel) {entries : List (List UInt8 × LexNode)}
    (h : parseLexMembers (fuel + 1) source budget = .ok (entries, rest, after)) :
    ∃ members, entries = members.map LexMember.entry ∧
      Reads accepted (.members members) source rest := by
  rw [parseLexMembers] at h
  obtain ⟨⟨key, colonSource, keyed⟩, hkey, hcolon⟩ := bind_eq_ok.mp h
  obtain ⟨chars, rfl, hchars⟩ := parseLexString_sound hkey
  dsimp only at hcolon
  split at hcolon
  · cases hcolon
  case h_2 colon next hskip =>
  split at hcolon
  · cases hcolon
  case isFalse hisColon =>
  obtain rfl := not_not.mp hisColon
  obtain ⟨⟨value, after', valued⟩, hvalue, hafter⟩ := bind_eq_ok.mp hcolon
  obtain ⟨inner, hws, hreads⟩ := ih.node hvalue
  obtain ⟨text, rfl⟩ := hreads.consumes.split
  dsimp only at hafter
  split at hafter
  · cases hafter
  case h_2 byte comma hskip' =>
  split at hafter
  case isTrue hcomma =>
    subst hcomma
    obtain ⟨⟨others, rest', after''⟩, hothers, hpure⟩ := bind_eq_ok.mp hafter
    obtain ⟨rfl, heq⟩ := Prod.mk.inj (Except.ok.inj hpure)
    cases heq
    obtain ⟨members, rfl, hmembers⟩ := ih.members hothers
    refine ⟨⟨key, value, text⟩ :: members, rfl, ?_⟩
    exact .member hchars (readsWs_of_skipWs hskip) hws hreads (readsWs_of_skipWs hskip')
      (.done comma) (fun _ => rfl) hmembers
  split at hafter
  case isTrue hbrace =>
    subst hbrace
    obtain ⟨rfl, heq⟩ := Prod.mk.inj (Except.ok.inj hafter)
    cases heq
    refine ⟨[⟨key, value, text⟩], rfl, ?_⟩
    exact .lastMember hchars (readsWs_of_skipWs hskip) hws hreads (readsWs_of_skipWs hskip')
  · cases hafter

theorem Sound.items_succ (ih : Sound fuel) {nodes : List LexNode}
    (h : parseLexItems (fuel + 1) source budget = .ok (nodes, rest, after)) :
    ∃ inner, ReadsWs source inner ∧ Reads accepted (.items nodes) inner rest := by
  rw [parseLexItems] at h
  obtain ⟨⟨item, after', valued⟩, hitem, hafter⟩ := bind_eq_ok.mp h
  obtain ⟨inner, hws, hreads⟩ := ih.node hitem
  refine ⟨inner, hws, ?_⟩
  dsimp only at hafter
  split at hafter
  · cases hafter
  case h_2 byte comma hskip =>
  split at hafter
  case isTrue hcomma =>
    subst hcomma
    obtain ⟨⟨others, rest', after''⟩, hothers, hpure⟩ := bind_eq_ok.mp hafter
    obtain ⟨rfl, heq⟩ := Prod.mk.inj (Except.ok.inj hpure)
    cases heq
    obtain ⟨inner', hws', hitems⟩ := ih.items hothers
    exact .item hreads (readsWs_of_skipWs hskip) hws' hitems
  split at hafter
  case isTrue hbracket =>
    subst hbracket
    obtain ⟨rfl, heq⟩ := Prod.mk.inj (Except.ok.inj hafter)
    cases heq
    exact .lastItem hreads (readsWs_of_skipWs hskip)
  · cases hafter

theorem sound (fuel : Nat) : Sound fuel := by
  induction fuel with
  | zero => exact ⟨fun h => (by cases h), fun h => (by cases h), fun h => (by cases h)⟩
  | succ fuel ih => exact ⟨ih.node_succ, ih.members_succ, ih.items_succ⟩

/-! ## The fuel is enough -/

theorem lexStringLoop_fuel {value source : List UInt8} (hfuel : source.length < fuel) :
    lexStringLoop fuel value source ≠ .error none := by
  induction fuel generalizing value source with
  | zero => omega
  | succ fuel ih =>
    intro h
    obtain hstep | ⟨⟨piece, next⟩, hstep, hnext⟩ := bind_eq_error.mp h
    · obtain ⟨error, -, hnone⟩ := lexed_eq_error.mp hstep
      cases hnone
    have hlt := (lexStringStep_sound (lexed_eq_ok.mp hstep)).1
    dsimp only at hnext
    split at hnext
    · cases hnext
    split at hnext
    · cases hnext
    · exact ih (by omega) hnext

theorem parseLexString_fuel (source : List UInt8) (budget : LexBudget) :
    parseLexString source budget ≠ .error none := by
  intro h
  unfold parseLexString at h
  split at h
  · cases h
  split at h
  · cases h
  obtain hnode | ⟨next, -, hloop⟩ := bind_eq_error.mp h
  · obtain ⟨error, -, hnone⟩ := lexed_eq_error.mp hnode
    cases hnone
  obtain hloop | ⟨result, -, hpure⟩ := bind_eq_error.mp hloop
  · exact lexStringLoop_fuel (Nat.lt_succ_self _) hloop
  · cases hpure

theorem lexed_ne_none {α : Type} (result : Except LexError α) : lexed result ≠ .error none := by
  intro h
  obtain ⟨error, -, hnone⟩ := lexed_eq_error.mp h
  cases hnone

/-- No part of a text runs out of fuel. A node and a list of items may start at the same
place, so that each byte takes two rounds. -/
structure Enough (fuel : Nat) : Prop where
  node : ∀ {source : List UInt8} (budget : LexBudget), 2 * source.length < fuel →
    parseLexNode fuel source budget ≠ .error none
  members : ∀ {source : List UInt8} (budget : LexBudget), 2 * source.length < fuel →
    parseLexMembers fuel source budget ≠ .error none
  items : ∀ {source : List UInt8} (budget : LexBudget), 2 * source.length + 1 < fuel →
    parseLexItems fuel source budget ≠ .error none

theorem length_of_skipWs {b : UInt8} (h : skipWs source = b :: rest) :
    rest.length < source.length := by
  have hle := (readsWs_of_skipWs h).suffix.length_le
  rwa [List.length_cons] at hle

theorem length_skipWs_le (source : List UInt8) : (skipWs source).length ≤ source.length :=
  (readsWs_skipWs source).suffix.length_le

theorem parseLexNode_length {node : LexNode}
    (h : parseLexNode fuel source budget = .ok (node, rest, after)) :
    rest.length < source.length := by
  obtain ⟨inner, hws, hreads⟩ := (sound fuel).node h
  have hlt := hreads.consumes.length_lt
  have hle := hws.suffix.length_le
  omega

theorem parseLexString_length {source value rest : List UInt8}
    (h : parseLexString source budget = .ok (value, rest, after)) :
    rest.length < source.length := by
  obtain ⟨chars, rfl, hreads⟩ := parseLexString_sound h
  have hlt := hreads.consumes.length_lt
  rw [List.length_cons]
  omega

theorem Enough.node_succ (ih : Enough fuel) (budget : LexBudget)
    (hfuel : 2 * source.length < fuel + 1) :
    parseLexNode (fuel + 1) source budget ≠ .error none := by
  intro h
  rw [parseLexNode] at h
  split at h
  · cases h
  case h_2 byte next hskip =>
  have hlt := length_of_skipWs hskip
  have hle := length_skipWs_le next
  split at h
  case isTrue =>
    obtain hbudget | ⟨entered, -, hbody⟩ := bind_eq_error.mp h
    · exact lexed_ne_none _ hbudget
    split at hbody
    · cases hbody
    obtain hmembers | ⟨result, -, hpure⟩ := bind_eq_error.mp hbody
    · exact ih.members entered (by omega) hmembers
    · cases hpure
  split at h
  case isTrue =>
    obtain hbudget | ⟨entered, -, hbody⟩ := bind_eq_error.mp h
    · exact lexed_ne_none _ hbudget
    split at hbody
    · cases hbody
    obtain hitems | ⟨result, -, hpure⟩ := bind_eq_error.mp hbody
    · exact ih.items entered (by omega) hitems
    · cases hpure
  split at h
  case isTrue =>
    obtain hstring | ⟨result, -, hpure⟩ := bind_eq_error.mp h
    · exact parseLexString_fuel _ _ hstring
    · cases hpure
  split at h
  · exact lexed_ne_none _ h
  split at h
  · exact lexed_ne_none _ h
  split at h
  · exact lexed_ne_none _ h
  split at h
  · exact lexed_ne_none _ h
  · cases h

theorem Enough.members_succ (ih : Enough fuel)
    (budget : LexBudget) (hfuel : 2 * source.length < fuel + 1) :
    parseLexMembers (fuel + 1) source budget ≠ .error none := by
  intro h
  rw [parseLexMembers] at h
  obtain hkey | ⟨⟨key, colonSource, keyed⟩, hkey, hcolon⟩ := bind_eq_error.mp h
  · exact parseLexString_fuel _ _ hkey
  have hlt := parseLexString_length hkey
  dsimp only at hcolon
  split at hcolon
  · cases hcolon
  case h_2 colon next hskip =>
  have hlt' := length_of_skipWs hskip
  split at hcolon
  · cases hcolon
  obtain hvalue | ⟨⟨value, after', valued⟩, hvalue, hafter⟩ := bind_eq_error.mp hcolon
  · exact ih.node keyed (by omega) hvalue
  have hlt'' := parseLexNode_length hvalue
  dsimp only at hafter
  split at hafter
  · cases hafter
  case h_2 byte comma hskip' =>
  have hle := length_of_skipWs hskip'
  split at hafter
  · obtain hothers | ⟨result, -, hpure⟩ := bind_eq_error.mp hafter
    · exact ih.members valued (by omega) hothers
    · cases hpure
  split at hafter
  · cases hafter
  · cases hafter

theorem Enough.items_succ (ih : Enough fuel)
    (budget : LexBudget) (hfuel : 2 * source.length + 1 < fuel + 1) :
    parseLexItems (fuel + 1) source budget ≠ .error none := by
  intro h
  rw [parseLexItems] at h
  obtain hitem | ⟨⟨item, after', valued⟩, hitem, hafter⟩ := bind_eq_error.mp h
  · exact ih.node budget (by omega) hitem
  have hlt := parseLexNode_length hitem
  dsimp only at hafter
  split at hafter
  · cases hafter
  case h_2 byte comma hskip =>
  have hle := length_of_skipWs hskip
  split at hafter
  · obtain hothers | ⟨result, -, hpure⟩ := bind_eq_error.mp hafter
    · exact ih.items valued (by omega) hothers
    · cases hpure
  split at hafter
  · cases hafter
  · cases hafter

theorem enough (fuel : Nat) : Enough fuel := by
  induction fuel with
  | zero =>
    refine ⟨?_, ?_, ?_⟩
    · intro source budget hfuel
      omega
    · intro source budget hfuel
      omega
    intro source budget hfuel
    omega
  | succ fuel ih => exact ⟨ih.node_succ, ih.members_succ, ih.items_succ⟩

end Skiff.WebSocket
