import Skiff.WebSocket.LexReads

/-!
# Which frames are parse errors

A frame that is JSON contains no escape with a plus sign, and where the parser reads no such
escape it reads only JSON. The parser's verdict is compared with RFC 8259 by that scan.
-/

namespace Skiff.Json

open WebSocket List

/-- No whitespace after a comma inside an object or after the text, and no surrogate
escaped by itself. -/
def strict : JsonGrammar := ⟨false, false, false, false, true⟩

/-- The grammar reads more texts. -/
structure JsonGrammar.Le (g g' : JsonGrammar) : Prop where
  afterComma : g.afterComma = true → g'.afterComma = true
  afterText : g.afterText = true → g'.afterText = true
  signedEscape : g.signedEscape = true → g'.signedEscape = true
  loneSurrogate : g.loneSurrogate = true → g'.loneSurrogate = true
  surrogatePair : g.surrogatePair = true → g'.surrogatePair = true

theorem eq_false_of_imp {a b : Bool} (h : a = true → b = true) (hb : b = false) : a = false := by
  cases a with
  | false => rfl
  | true => rw [h rfl] at hb; cases hb

section mono

variable {g g' : JsonGrammar} (hle : g.Le g')

include hle

theorem HexDigits.mono {digits : List UInt8} {n : Nat} (h : HexDigits g digits n) :
    HexDigits g' digits n :=
  ⟨h.1, h.2.imp id fun signed => ⟨hle.signedEscape signed.1, signed.2⟩⟩

theorem ReadsChars.mono {value source rest : List UInt8} (h : ReadsChars g value source rest) :
    ReadsChars g' value source rest := by
  induction h with
  | close rest => exact .close rest
  | unescaped plain _ ih => exact .unescaped plain ih
  | escape simple _ ih => exact .escape simple ih
  | unicode hex scalar _ ih => exact .unicode (hex.mono hle) scalar ih
  | pair allowed hex high hex' low _ ih =>
    exact .pair (hle.surrogatePair allowed) (hex.mono hle) high (hex'.mono hle) low ih
  | lone allowed hex surrogate _ ih =>
    exact .lone (hle.loneSurrogate allowed) (hex.mono hle) surrogate ih

theorem Reads.mono {part : Part} {source rest : List UInt8} (h : Reads g part source rest) :
    Reads g' part source rest := by
  induction h with
  | name h rest => exact .name h rest
  | number h rest => exact .number h rest
  | string h => exact .string (h.mono hle)
  | emptyArray ws => exact .emptyArray ws
  | array ws _ ih => exact .array ws ih
  | emptyObject ws => exact .emptyObject ws
  | object ws _ ih => exact .object ws ih
  | lastItem _ ws ih => exact .lastItem ih ws
  | item _ ws ws' _ ih ih' => exact .item ih ws ws' ih'
  | lastMember hkey beforeColon afterColon _ afterValue ih =>
    exact .lastMember (hkey.mono hle) beforeColon afterColon ih afterValue
  | member hkey beforeColon afterColon _ afterValue afterComma compact _ ih ih' =>
    refine .member (hkey.mono hle) beforeColon afterColon ih afterValue afterComma ?_ ih'
    intro hcompact
    exact compact (eq_false_of_imp hle.afterComma hcompact)

theorem IsJson.mono {source : List UInt8} (h : IsJson g source) : IsJson g' source := by
  obtain ⟨node, inner, rest, hws, hreads, hrest, hend⟩ := h
  refine ⟨node, inner, rest, hws, hreads.mono hle, hrest, fun hg => ?_⟩
  exact hend (eq_false_of_imp hle.afterText hg)

end mono

/-! ## Escapes with a plus sign -/

/-- Whether a `\u` escape starts with a plus sign. -/
def signedEscapes : List UInt8 → Bool
  | [] => false
  | [_] => false
  | b :: e :: rest =>
    if b = 0x5c then (e = 0x75 && rest.head? = some 0x2b) || signedEscapes rest
    else signedEscapes (e :: rest)

theorem signedEscapes_cons {b : UInt8} (h : b ≠ 0x5c) (rest : List UInt8) :
    signedEscapes (b :: rest) = signedEscapes rest := by
  cases rest with
  | nil => rfl
  | cons e rest => rw [signedEscapes, if_neg h]

theorem signedEscapes_append {bytes : List UInt8} (h : ∀ b ∈ bytes, b ≠ 0x5c) (rest : List UInt8) :
    signedEscapes (bytes ++ rest) = signedEscapes rest := by
  induction bytes with
  | nil => rfl
  | cons b bytes ih =>
    rw [cons_append, signedEscapes_cons (h b mem_cons_self)]
    exact ih fun b' hb' => h b' (.tail _ hb')

theorem signedEscapes_escape (e : UInt8) (rest : List UInt8) :
    signedEscapes (0x5c :: e :: rest) =
      ((e = 0x75 && rest.head? = some 0x2b) || signedEscapes rest) := rfl

theorem signedEscapes_ws {source rest : List UInt8} (h : ReadsWs source rest) :
    signedEscapes source = signedEscapes rest := by
  induction h with
  | done => rfl
  | @more b _ _ ws _ ih =>
    rw [signedEscapes_cons, ih]
    rintro rfl
    cases ws

variable {digits : List UInt8}

theorem hexValue_plain {n : Nat} (h : hexValue digits = some n) :
    ∀ b ∈ digits, b ≠ 0x5c ∧ b ≠ 0x2b := by
  intro b hb
  obtain ⟨value, hvalue⟩ := hexValue_digits h b hb
  constructor
  · rintro rfl
    cases hvalue
  rintro rfl
  cases hvalue

variable {g : JsonGrammar}

/-- The digits of an escape hide no escape. -/
theorem HexDigits.scan {n : Nat} (h : HexDigits g digits n)
    (rest : List UInt8) : signedEscapes (digits ++ rest) = signedEscapes rest := by
  apply signedEscapes_append
  obtain ⟨-, hvalue | ⟨-, others, rfl, hvalue⟩⟩ := h
  · exact fun b hb => (hexValue_plain hvalue b hb).1
  intro b hb
  obtain rfl | hb := mem_cons.mp hb
  · decide
  · exact (hexValue_plain hvalue b hb).1

theorem HexDigits.unsigned_iff {n : Nat} (h : HexDigits g digits n) (rest : List UInt8) :
    (digits ++ rest).head? ≠ some 0x2b ↔ hexValue digits = some n := by
  obtain ⟨hfour, hvalue⟩ := h
  cases digits with
  | nil => cases hfour
  | cons d digits =>
    rw [cons_append, head?_cons]
    constructor
    · intro hhead
      obtain hvalue | ⟨-, others, heq, -⟩ := hvalue
      · exact hvalue
      · exact absurd (congrArg some (cons.inj heq).1) hhead
    intro hvalue heq
    exact (hexValue_plain hvalue d (.head _)).2 (Option.some.inj heq)

theorem unescaped_bytes {c : Char} (h : Unescaped c) :
    ∀ b ∈ String.utf8EncodeChar c, b ≠ 0x22 ∧ b ≠ 0x5c := by
  have hne : ∀ b : UInt8, 0x80 ≤ b.toNat → b ≠ 0x22 ∧ b ≠ 0x5c := by
    intro b hb
    constructor
    · rintro rfl
      exact absurd hb (by decide)
    rintro rfl
    exact absurd hb (by decide)
  intro b hb
  by_cases hascii : c.toNat ≤ 0x7f
  · rw [utf8EncodeChar_ascii hascii, List.mem_singleton] at hb
    have hvalue : b.toNat = c.toNat := by
      rw [hb, UInt8.toNat_ofNat']
      omega
    constructor
    · rintro rfl
      exact h.2.1 (Char.toNat_inj.mp hvalue.symm)
    rintro rfl
    exact h.2.2 (Char.toNat_inj.mp hvalue.symm)
  obtain ⟨first, others, hbytes, hstarts, hothers⟩ := utf8EncodeChar_wide (Nat.not_le.mp hascii)
  rw [hbytes] at hb
  obtain rfl | hb := mem_cons.mp hb
  · apply hne
    obtain ⟨hlow, -⟩ | ⟨hlow, -⟩ | ⟨hlow, -⟩ := hstarts <;> omega
  · exact hne b (hothers b hb)

section scan

variable {g : JsonGrammar} (hplain : g.signedEscape = false)

include hplain

theorem HexDigits.unsigned {digits : List UInt8} {n : Nat} (h : HexDigits g digits n) :
    hexValue digits = some n := by
  obtain ⟨-, hvalue | ⟨hsigned, -⟩⟩ := h
  · exact hvalue
  rw [hplain] at hsigned
  cases hsigned

theorem HexDigits.scan_escape {digits : List UInt8} {n : Nat} (h : HexDigits g digits n)
    (rest : List UInt8) :
    signedEscapes (0x5c :: 0x75 :: (digits ++ rest)) = signedEscapes rest := by
  have hhead := (h.unsigned_iff rest).mpr (h.unsigned hplain)
  rw [signedEscapes_escape, h.scan rest, decide_eq_false hhead, Bool.and_false, Bool.false_or]

theorem ReadsChars.scan {value source rest : List UInt8} (h : ReadsChars g value source rest) :
    signedEscapes source = signedEscapes rest := by
  induction h with
  | close rest => exact signedEscapes_cons (by decide) rest
  | unescaped plain _ ih =>
    rw [signedEscapes_append fun b hb => (unescaped_bytes plain b hb).2]
    exact ih
  | @escape b _ _ source _ simple _ ih =>
    have hne : b ≠ 0x75 := by
      rintro rfl
      cases simple
    rw [signedEscapes_escape, ih]
    simp [hne]
  | unicode hex _ _ ih | lone _ hex _ _ ih => rw [hex.scan_escape hplain, ih]
  | pair _ hex _ hex' _ _ ih => rw [hex.scan_escape hplain, hex'.scan_escape hplain, ih]

end scan

theorem IsNumber.bytes {lexeme : List UInt8} (h : IsNumber lexeme) :
    ∀ b ∈ lexeme, numeralByte b = true := by
  have hdigits : ∀ {digits : List UInt8}, IsDigits digits → ∀ b ∈ digits, numeralByte b = true := by
    intro digits h b hb
    simp [numeralByte, h.2 b hb]
  obtain ⟨sign, integer, fraction, exponent, rfl, hsign, hinteger, -, hfraction, hexponent⟩ := h
  intro b hb
  obtain hb | hb | hb | hb : b ∈ sign ∨ b ∈ integer ∨ b ∈ fraction ∨ b ∈ exponent := by
    simpa using hb
  · obtain rfl | rfl := hsign
    · cases hb
    rw [List.mem_singleton.mp hb]
    rfl
  · exact hdigits hinteger b hb
  · obtain rfl | ⟨digits, rfl, h⟩ := hfraction
    · cases hb
    obtain rfl | hb := mem_cons.mp hb
    · rfl
    · exact hdigits h b hb
  obtain rfl | ⟨e, sign, digits, rfl, he, hsign, h⟩ := hexponent
  · cases hb
  obtain rfl | hb | hb : b = e ∨ b ∈ sign ∨ b ∈ digits := by simpa using hb
  · obtain rfl | rfl := he <;> rfl
  · obtain rfl | rfl | rfl := hsign
    · cases hb
    · rw [List.mem_singleton.mp hb]
      rfl
    rw [List.mem_singleton.mp hb]
    rfl
  · exact hdigits h b hb

theorem IsNumber.plain {lexeme : List UInt8} (h : IsNumber lexeme) : ∀ b ∈ lexeme, b ≠ 0x5c := by
  rintro b hb rfl
  exact absurd (h.bytes _ hb) (by decide)

theorem IsName.plain {name : List UInt8} {node : LexNode} (h : IsName name node) :
    ∀ b ∈ name, b ≠ 0x5c := by
  rintro b hb rfl
  cases h <;> simp at hb

/-- A part without signed escapes leaves the scan as it was. -/
theorem Reads.scan (hplain : g.signedEscape = false) {part : Part}
    {source rest : List UInt8} (h : Reads g part source rest) :
    signedEscapes source = signedEscapes rest := by
  have hcons : ∀ {b : UInt8} {source rest : List UInt8}, ReadsWs source (b :: rest) → b ≠ 0x5c →
      signedEscapes source = signedEscapes rest := by
    intro b source rest hws hb
    rw [signedEscapes_ws hws, signedEscapes_cons hb]
  induction h with
  | name h rest | number h rest => exact signedEscapes_append h.plain rest
  | string h => rw [signedEscapes_cons (by decide), h.scan hplain]
  | emptyArray ws | emptyObject ws => rw [signedEscapes_cons (by decide), hcons ws (by decide)]
  | array ws _ ih | object ws _ ih => rw [signedEscapes_cons (by decide), signedEscapes_ws ws, ih]
  | lastItem _ ws ih => rw [ih, hcons ws (by decide)]
  | item _ ws ws' _ ih ih' => rw [ih, hcons ws (by decide), signedEscapes_ws ws', ih']
  | lastMember hkey beforeColon afterColon _ afterValue ih =>
    rw [signedEscapes_cons (by decide), hkey.scan hplain, hcons beforeColon (by decide),
      signedEscapes_ws afterColon, ih, hcons afterValue (by decide)]
  | member hkey beforeColon afterColon _ afterValue afterComma _ _ ih ih' =>
    rw [signedEscapes_cons (by decide), hkey.scan hplain, hcons beforeColon (by decide),
      signedEscapes_ws afterColon, ih, hcons afterValue (by decide), signedEscapes_ws afterComma,
      ih']

/-! ## Texts without signed escapes -/

/-- The grammar without signed escapes. -/
def JsonGrammar.unsigned (g : JsonGrammar) : JsonGrammar := { g with signedEscape := false }

section unsigned

variable {g : JsonGrammar}

theorem HexDigits.toUnsigned {digits : List UInt8} {n : Nat} (h : HexDigits g digits n)
    {rest : List UInt8} (hscan : signedEscapes (0x5c :: 0x75 :: (digits ++ rest)) = false) :
    HexDigits g.unsigned digits n ∧ signedEscapes rest = false := by
  rw [signedEscapes_escape, h.scan rest, Bool.or_eq_false_iff, decide_eq_true rfl, Bool.true_and,
    decide_eq_false_iff_not] at hscan
  exact ⟨⟨h.1, .inl ((h.unsigned_iff rest).mp hscan.1)⟩, hscan.2⟩

theorem ReadsChars.toUnsigned {value source rest : List UInt8} (h : ReadsChars g value source rest)
    (hscan : signedEscapes source = false) : ReadsChars g.unsigned value source rest := by
  induction h with
  | close rest => exact .close rest
  | unescaped plain _ ih =>
    rw [signedEscapes_append fun b hb => (unescaped_bytes plain b hb).2] at hscan
    exact .unescaped plain (ih hscan)
  | escape simple _ ih =>
    rw [signedEscapes_escape, Bool.or_eq_false_iff] at hscan
    exact .escape simple (ih hscan.2)
  | unicode hex scalar _ ih =>
    obtain ⟨hex, hrest⟩ := hex.toUnsigned hscan
    exact .unicode hex scalar (ih hrest)
  | pair allowed hex high hex' low _ ih =>
    obtain ⟨hex, hsecond⟩ := hex.toUnsigned hscan
    obtain ⟨hex', hrest⟩ := hex'.toUnsigned hsecond
    exact .pair allowed hex high hex' low (ih hrest)
  | lone allowed hex surrogate _ ih =>
    obtain ⟨hex, hrest⟩ := hex.toUnsigned hscan
    exact .lone allowed hex surrogate (ih hrest)

variable {source rest : List UInt8}

/-- The rest of a text without signed escapes has none, after each token. -/
theorem scan_of_ws (h : ReadsWs source rest)
    (hscan : signedEscapes source = false) : signedEscapes rest = false := by
  rw [← signedEscapes_ws h]
  exact hscan

theorem scan_of_ws_cons {b : UInt8} (h : ReadsWs source (b :: rest))
    (hb : b ≠ 0x5c) (hscan : signedEscapes source = false) : signedEscapes rest = false := by
  rw [← signedEscapes_cons hb]
  exact scan_of_ws h hscan

theorem scan_of_reads {part : Part} (h : Reads g.unsigned part source rest)
    (hscan : signedEscapes source = false) : signedEscapes rest = false := by
  rw [← h.scan rfl]
  exact hscan

theorem scan_of_chars {value source rest : List UInt8} (h : ReadsChars g.unsigned value source rest)
    (hscan : signedEscapes source = false) : signedEscapes rest = false := by
  rw [← h.scan rfl]
  exact hscan

theorem Reads.toUnsigned {part : Part} (h : Reads g part source rest)
    (hscan : signedEscapes source = false) : Reads g.unsigned part source rest := by
  induction h with
  | name h rest => exact .name h rest
  | number h rest => exact .number h rest
  | string h =>
    rw [signedEscapes_cons (by decide)] at hscan
    exact .string (h.toUnsigned hscan)
  | emptyArray ws => exact .emptyArray ws
  | array ws _ ih =>
    rw [signedEscapes_cons (by decide)] at hscan
    exact .array ws (ih (scan_of_ws ws hscan))
  | emptyObject ws => exact .emptyObject ws
  | object ws _ ih =>
    rw [signedEscapes_cons (by decide)] at hscan
    exact .object ws (ih (scan_of_ws ws hscan))
  | lastItem _ ws ih => exact .lastItem (ih hscan) ws
  | item _ ws ws' _ ih ih' =>
    have hitem := ih hscan
    have hafter := scan_of_ws_cons ws (by decide) (scan_of_reads hitem hscan)
    exact .item hitem ws ws' (ih' (scan_of_ws ws' hafter))
  | lastMember hkey beforeColon afterColon _ afterValue ih =>
    rw [signedEscapes_cons (by decide)] at hscan
    have hchars := hkey.toUnsigned hscan
    have hcolon := scan_of_ws_cons beforeColon (by decide) (scan_of_chars hchars hscan)
    exact .lastMember hchars beforeColon afterColon (ih (scan_of_ws afterColon hcolon)) afterValue
  | member hkey beforeColon afterColon _ afterValue afterComma compact _ ih ih' =>
    rw [signedEscapes_cons (by decide)] at hscan
    have hchars := hkey.toUnsigned hscan
    have hcolon := scan_of_ws_cons beforeColon (by decide) (scan_of_chars hchars hscan)
    have hsource := scan_of_ws afterColon hcolon
    have hvalue := ih hsource
    have hcomma := scan_of_ws_cons afterValue (by decide) (scan_of_reads hvalue hsource)
    exact .member hchars beforeColon afterColon hvalue afterValue afterComma compact
      (ih' (scan_of_ws afterComma hcomma))

end unsigned

theorem IsJson.scan (hplain : g.signedEscape = false) {source : List UInt8}
    (h : IsJson g source) : signedEscapes source = false := by
  obtain ⟨node, inner, rest, hws, hreads, hrest, -⟩ := h
  rw [signedEscapes_ws hws, hreads.scan hplain, signedEscapes_ws hrest]
  rfl

theorem IsJson.toUnsigned {source : List UInt8} (h : IsJson g source)
    (hscan : signedEscapes source = false) : IsJson g.unsigned source := by
  obtain ⟨node, inner, rest, hws, hreads, hrest, hend⟩ := h
  exact ⟨node, inner, rest, hws, hreads.toUnsigned (scan_of_ws hws hscan), hrest, hend⟩

end Skiff.Json

namespace Skiff.WebSocket

open Json

/-- The parser reads a text that is JSON if it meets the strict grammar, and no other. -/
theorem accepted_and_rfc_iff {source : List UInt8} :
    IsJson accepted source ∧ IsJson rfc8259 source ↔ IsJson strict source := by
  constructor
  · rintro ⟨haccepted, hrfc⟩
    exact haccepted.toUnsigned (hrfc.scan rfl)
  intro h
  exact ⟨h.mono (by constructor <;> decide), h.mono (by constructor <;> decide)⟩

theorem of_ite_eq {α : Type} {p : Prop} [Decidable p] {a b c : α} (h : (if p then a else b) = c)
    (hne : a ≠ c) : b = c := by
  split at h
  · exact absurd h hne
  · exact h

theorem classifyRequestOrNotification_ne_parse (members : List (List UInt8 × LexNode)) :
    classifyRequestOrNotification members ≠ .ok (.platformError .parse) := by
  intro h
  rw [classifyRequestOrNotification] at h
  have h := of_ite_eq h (by intro h; cases h)
  split at h
  case h_2 => cases h
  split at h
  · cases h
  split at h
  · cases h
  obtain ⟨id, -, hid⟩ := bind_eq_ok.mp h
  split at hid
  · cases hid
  split at hid <;> cases hid

theorem classifyResponse_ne_parse (members : List (List UInt8 × LexNode)) :
    classifyResponse members ≠ .ok (.platformError .parse) := by
  intro h
  unfold classifyResponse at h
  dsimp only at h
  split at h
  · cases h
  split at h
  case h_2 => cases h
  split at h
  · cases h
  split at h
  · split at h <;> cases h
  split at h
  · cases h
  split at h
  case h_2 => cases h
  obtain ⟨valid, -, hvalid⟩ := bind_eq_ok.mp h
  cases valid <;> cases hvalid

/-- A frame that parses is classified by its node, and never as a parse error. -/
theorem classifyNode_ne_parse (node : LexNode) :
    (classifyNode node).toOption ≠ some (.platformError .parse) := by
  intro h
  have hok : classifyNode node = .ok (.platformError .parse) := by
    cases hresult : classifyNode node with
    | ok action => rw [hresult] at h; exact congrArg _ (Option.some.inj h)
    | error => rw [hresult] at h; cases h
  unfold classifyNode at hok
  split at hok
  case h_2 => cases hok
  split at hok
  · cases hok
  split at hok
  · exact classifyResponse_ne_parse _ hok
  split at hok
  · exact classifyRequestOrNotification_ne_parse _ hok
  · cases hok

/-- The verdict of the classifier is that of the grammar that its parser reads. -/
theorem classify_eq_parse {frame : List UInt8}
    (hlength : frame.length ≤ websocketJsonrpcMaxTextBytes) (hutf8 : isUtf8 frame = true)
    (hbudget : parseFrame frame ≠ .error (some .budget)) :
    classifyJsonrpc20TextFrame frame = some (.platformError .parse) ↔ ¬ IsJson accepted frame := by
  rw [← parseFrame_eq_ok hbudget]
  have hfuel : parseFrame frame ≠ .error none := (enough _).node _ (by omega)
  rw [classifyJsonrpc20TextFrame, if_neg (Nat.not_lt.mpr hlength), hutf8]
  cases hparse : parseFrame frame with
  | ok result =>
    obtain ⟨node, rest, after⟩ := result
    dsimp only
    by_cases hrest : rest = []
    · subst hrest
      have hne := classifyNode_ne_parse node
      simp [hne]
    · simp [hrest]
  | error error =>
    cases error with
    | none => exact absurd hparse hfuel
    | some error =>
      cases error with
      | parse => simp
      | budget => exact absurd hparse hbudget

/-- The parse of every frame ends. Within the budgets the classifier answers with a parse
error exactly for what is not JSON, where the text has no whitespace after a comma inside
an object or after its value and no surrogate escaped by itself, or is no JSON even if a
plus sign may stand for the first digit of an escape. -/
theorem classify_parse_iff (frame : List UInt8) : parseFrame frame ≠ .error none ∧
    (frame.length ≤ websocketJsonrpcMaxTextBytes → isUtf8 frame = true →
      parseFrame frame ≠ .error (some .budget) →
      ((classifyJsonrpc20TextFrame frame = some (.platformError .parse) ↔ ¬ IsJson rfc8259 frame) ↔
        IsJson strict frame ∨ ¬ IsJson rfc8259 frame ∧ ¬ IsJson accepted frame)) := by
  refine ⟨(enough _).node _ (by omega), ?_⟩
  intro hlength hutf8 hbudget
  rw [classify_eq_parse hlength hutf8 hbudget, ← accepted_and_rfc_iff]
  by_cases haccepted : IsJson accepted frame
  · simp [haccepted]
  · simp [haccepted]

/-- The text `{"a":1}`. -/
def compactObject : List UInt8 := [0x7b, 0x22, 0x61, 0x22, 0x3a, 0x31, 0x7d]

theorem classify_parse_compact : (classifyJsonrpc20TextFrame compactObject =
    some (.platformError .parse) ↔ ¬ IsJson rfc8259 compactObject) ↔
      IsJson strict compactObject ∨ ¬ IsJson rfc8259 compactObject ∧
        ¬ IsJson accepted compactObject :=
  (classify_parse_iff compactObject).2 (by decide) (by decide +kernel) (by
    intro h
    have hok : parseFrame compactObject = .ok (.object [([0x61], .number [0x31])], [], ⟨0, 3⟩) :=
      rfl
    rw [hok] at h
    cases h)

/-- The text `{"a":1, "b":2}`. -/
def spacedObject : List UInt8 :=
  [0x7b, 0x22, 0x61, 0x22, 0x3a, 0x31, 0x2c, 0x20, 0x22, 0x62, 0x22, 0x3a, 0x32, 0x7d]

/-- JSON with a space after a comma is a parse error. -/
theorem classify_parse_spaced : spacedObject.length ≤ websocketJsonrpcMaxTextBytes ∧
    isUtf8 spacedObject = true ∧ parseFrame spacedObject ≠ .error (some .budget) ∧
    classifyJsonrpc20TextFrame spacedObject = some (.platformError .parse) ∧
    IsJson rfc8259 spacedObject := by
  have hparse : parseFrame spacedObject = .error (some .parse) := rfl
  have hutf8 : isUtf8 spacedObject = true := by decide +kernel
  have hdigit : ∀ d : UInt8, isDigit d = true → IsNumber [d] := by
    intro d hd
    refine ⟨[], [d], [], [], rfl, .inl rfl, ⟨by simp, ?_⟩, fun _ => rfl, .inl rfl, .inl rfl⟩
    intro b hb
    rw [List.mem_singleton.mp hb]
    exact hd
  have hkeyA (rest : List UInt8) : ReadsChars rfc8259 [0x61] (0x61 :: 0x22 :: rest) rest :=
    .unescaped (c := 'a') (by constructor <;> decide) (.close rest)
  have hkeyB (rest : List UInt8) : ReadsChars rfc8259 [0x62] (0x62 :: 0x22 :: rest) rest :=
    .unescaped (c := 'b') (by constructor <;> decide) (.close rest)
  refine ⟨by decide, hutf8, ?_, ?_, ?_⟩
  · rw [hparse]
    intro h
    cases h
  · rw [classifyJsonrpc20TextFrame, if_neg (by decide), hutf8, hparse]
    rfl
  have hlast : Reads rfc8259 (.members [⟨[0x62], .number [0x32], [0x32]⟩])
      [0x22, 0x62, 0x22, 0x3a, 0x32, 0x7d] [] :=
    .lastMember (hkeyB _) (.done _) (.done _) (.number (hdigit 0x32 rfl) [0x7d]) (.done _)
  have hmembers : Reads rfc8259 (.members [⟨[0x61], .number [0x31], [0x31]⟩,
      ⟨[0x62], .number [0x32], [0x32]⟩]) spacedObject.tail [] :=
    .member (hkeyA _) (.done _) (.done _) (.number (hdigit 0x31 rfl) _) (.done _)
      (.more rfl (.done _)) (by intro h; cases h) hlast
  exact ⟨_, _, [], .done _, .object (.done _) hmembers, .done [], fun _ => rfl⟩

end Skiff.WebSocket
