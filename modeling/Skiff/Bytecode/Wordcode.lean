import Skiff.Bytecode.Opcodes
import Mathlib.Algebra.Order.Ring.Nat

/-!
# Wordcode

`encode.rs` and `decode.rs` of `artifact-model/src/bytecode`. An instruction is a header word and
the operand words that its descriptor declares, and a function body is a run of instructions without
separators. The decoder counts the words of the body in 32 bits.
-/

namespace Skiff.Bytecode

open List

def maxWordsPerFunction : Nat := 1000000

namespace Opcode

/-- The byte of an opcode in the table. -/
def encoding : Opcode → UInt8
  | .const => 0x00
  | .copySlot => 0x01
  | .moveSlot => 0x02
  | .storeSlot => 0x03
  | .drop => 0x04
  | .dup => 0x05
  | .loadSlot => 0x06
  | .takeSlot => 0x07
  | .pop => 0x08
  | .jump => 0x10
  | .jumpIfTrue => 0x11
  | .jumpIfFalse => 0x12
  | .switchTag => 0x13
  | .budgetCheckpoint => 0x14
  | .trap => 0x15
  | .callLocal => 0x20
  | .tailCallLocal => 0x21
  | .callService => 0x22
  | .callActor => 0x23
  | .callInterface => 0x24
  | .functionReturn => 0x25
  | .callLocalInOut => 0x26
  | .interfaceBoxLocal => 0x30
  | .interfaceBoxRemote => 0x31
  | .makeCallback => 0x32
  | .invokeCallback => 0x33
  | .newRecord => 0x40
  | .getDenseField => 0x41
  | .setWritablePath => 0x42
  | .representationWrap => 0x43
  | .takeDenseField => 0x44
  | .newArrayBuilder => 0x50
  | .arrayBuilderPush => 0x51
  | .freezeArray => 0x52
  | .arrayGet => 0x53
  | .arrayPushOwned => 0x54
  | .newMapBuilder => 0x55
  | .mapBuilderPut => 0x56
  | .freezeMap => 0x57
  | .mapGet => 0x58
  | .mapPutOwned => 0x59
  | .arrayLen => 0x5A
  | .mapLen => 0x5B
  | .mapEntryAt => 0x5C
  | .streamNext => 0x60
  | .emitStream => 0x61
  | .throw => 0x70
  | .rethrow => 0x71
  | .enterRegion => 0x72
  | .leaveRegion => 0x73
  | .invokeHost => 0x80
  | .invokeIntrinsic => 0x81
  | .not => 0x90
  | .negate => 0x91
  | .add => 0x92
  | .subtract => 0x93
  | .multiply => 0x94
  | .divide => 0x95
  | .equal => 0x96
  | .notEqual => 0x97
  | .lessThan => 0x98
  | .lessOrEqual => 0x99
  | .greaterThan => 0x9A
  | .greaterOrEqual => 0x9B

/-- The rows of the table, in order. -/
def all : List Opcode :=
  [.const, .copySlot, .moveSlot, .storeSlot, .drop, .dup, .loadSlot, .takeSlot, .pop, .jump,
    .jumpIfTrue, .jumpIfFalse, .switchTag, .budgetCheckpoint, .trap, .callLocal, .tailCallLocal,
    .callService, .callActor, .callInterface, .functionReturn, .callLocalInOut,
    .interfaceBoxLocal, .interfaceBoxRemote, .makeCallback, .invokeCallback, .newRecord,
    .getDenseField, .setWritablePath, .representationWrap, .takeDenseField, .newArrayBuilder,
    .arrayBuilderPush, .freezeArray, .arrayGet, .arrayPushOwned, .newMapBuilder, .mapBuilderPut,
    .freezeMap, .mapGet, .mapPutOwned, .arrayLen, .mapLen, .mapEntryAt, .streamNext, .emitStream,
    .throw, .rethrow, .enterRegion, .leaveRegion, .invokeHost, .invokeIntrinsic, .not, .negate,
    .add, .subtract, .multiply, .divide, .equal, .notEqual, .lessThan, .lessOrEqual,
    .greaterThan, .greaterOrEqual]

def operandWordCount (opcode : Opcode) : Nat := (contractForOpcode opcode).operands.length

end Opcode

def opcodeFor (value : UInt8) : Option Opcode :=
  Opcode.all.find? fun opcode => opcode.encoding = value

/-! ## Encoding -/

inductive EncodeError where
  | unknownOpcode (opcode : UInt8)
  | operandCountMismatch (opcode : UInt8) (expected actual : Nat)
  | arithmeticOverflow (context : String)

structure EncodedInstruction where
  opcode : UInt8
  operands : List UInt32

def encodeInstruction (opcode : UInt8) (operands : List UInt32) :
    Except EncodeError (List UInt32) :=
  match opcodeFor opcode with
  | none => .error (.unknownOpcode opcode)
  | some descriptor =>
    let expected := descriptor.operandWordCount
    if operands.length ≠ expected then
      .error (.operandCountMismatch opcode expected operands.length)
    else .ok (opcode.toUInt32 :: operands)

/-- The checked sum of the instruction lengths. -/
def wordTotal (total : Nat) : List EncodedInstruction → Except EncodeError Nat
  | [] => .ok total
  | instruction :: rest =>
    match opcodeFor instruction.opcode with
    | none => .error (.unknownOpcode instruction.opcode)
    | some descriptor =>
      let next := total + (descriptor.operandWordCount + 1)
      if 2 ^ 32 ≤ next then .error (.arithmeticOverflow "assemble_function word total")
      else wordTotal next rest

def encodeAll : List EncodedInstruction → Except EncodeError (List UInt32)
  | [] => .ok []
  | instruction :: rest =>
    match encodeInstruction instruction.opcode instruction.operands with
    | .error error => .error error
    | .ok words => (encodeAll rest).map (words ++ ·)

def assembleFunction (instructions : List EncodedInstruction) : Except EncodeError (List UInt32) :=
  match wordTotal 0 instructions with
  | .error error => .error error
  | .ok _ => encodeAll instructions

/-! ## Decoding -/

inductive BytecodeDecodeError where
  | unknownOpcode (pc : Nat) (word : UInt32)
  | truncatedInstruction (pc expectedWords available : Nat)
  | arithmeticOverflow (context : String)
  | limitExceeded (limit : String) (actual max : Nat)

structure DecodedInstruction where
  pc : Nat
  descriptor : Opcode
  operandWords : List UInt32

structure DecodedFunction where
  instructions : List DecodedInstruction
  headerPcs : List Nat

/-- The descriptor that a header word names. -/
def descriptorFor (word : UInt32) : Option Opcode :=
  if word ≤ 0xFF then opcodeFor word.toUInt8 else none

/-- `words.len() as u32`. -/
def wordCount (words : List UInt32) : Nat := words.length % 2 ^ 32

def decodeLoop (words : List UInt32) (pc : Nat) (decoded : DecodedFunction) :
    Except BytecodeDecodeError DecodedFunction :=
  if pc < wordCount words then
    match words[pc]? with
    | none => .ok decoded
    | some word =>
      match descriptorFor word with
      | none => .error (.unknownOpcode pc word)
      | some descriptor =>
        let stop := pc + 1 + descriptor.operandWordCount
        if 2 ^ 32 ≤ stop then .error (.arithmeticOverflow "decode instruction extent")
        else if wordCount words < stop then
          .error (.truncatedInstruction pc (descriptor.operandWordCount + 1) (wordCount words - pc))
        else
          let operandWords := (words.drop (pc + 1)).take descriptor.operandWordCount
          let next : DecodedFunction :=
            ⟨decoded.instructions ++ [⟨pc, descriptor, operandWords⟩], decoded.headerPcs ++ [pc]⟩
          if maxWordsPerFunction < next.instructions.length then
            .error (.limitExceeded "MAX_WORDS_PER_FUNCTION" next.instructions.length
              maxWordsPerFunction)
          else decodeLoop words stop next
  else .ok decoded
termination_by wordCount words - pc

def decodeFunction (words : List UInt32) : Except BytecodeDecodeError DecodedFunction :=
  decodeLoop words 0 ⟨[], []⟩

/-! ## Bodies -/

theorem opcodeFor_encoding (opcode : Opcode) : opcodeFor opcode.encoding = some opcode := by
  cases opcode <;> rfl

theorem encoding_of_opcodeFor {value : UInt8} {opcode : Opcode}
    (h : opcodeFor value = some opcode) : opcode.encoding = value := by
  rw [opcodeFor] at h
  simpa using find?_some h

theorem descriptorFor_encoding (opcode : Opcode) :
    descriptorFor opcode.encoding.toUInt32 = some opcode := by
  cases opcode <;> rfl

theorem encoding_of_descriptorFor {word : UInt32} {opcode : Opcode}
    (h : descriptorFor word = some opcode) : opcode.encoding.toUInt32 = word := by
  rw [descriptorFor] at h
  split at h
  case isTrue hle =>
    rw [encoding_of_opcodeFor h]
    apply UInt32.toNat_inj.mp
    have hbound : word.toNat ≤ 255 := UInt32.le_iff_toNat_le.mp hle
    rw [UInt8.toNat_toUInt32, UInt32.toNat_toUInt8]
    omega
  case isFalse => cases h

namespace EncodedInstruction

def words (instruction : EncodedInstruction) : List UInt32 :=
  instruction.opcode.toUInt32 :: instruction.operands

/-- The opcode is in the table, and the operands are as many as it declares. -/
def Valid (instruction : EncodedInstruction) : Prop :=
  ∃ descriptor, opcodeFor instruction.opcode = some descriptor ∧
    instruction.operands.length = descriptor.operandWordCount

end EncodedInstruction

def body (instructions : List EncodedInstruction) : List UInt32 :=
  instructions.flatMap EncodedInstruction.words

section

variable {instructions : List EncodedInstruction} {words : List UInt32}

theorem body_cons (instruction : EncodedInstruction) (rest : List EncodedInstruction) :
    body (instruction :: rest) = instruction.words ++ body rest := flatMap_cons

theorem encodeInstruction_eq_ok {instruction : EncodedInstruction} :
    encodeInstruction instruction.opcode instruction.operands = .ok words ↔
      instruction.Valid ∧ words = instruction.words := by
  rw [encodeInstruction, EncodedInstruction.Valid]
  cases hopcode : opcodeFor instruction.opcode with
  | none => simp
  | some descriptor =>
    dsimp only
    split
    case isTrue hcount => simp [hcount]
    case isFalse hcount =>
      rw [not_not] at hcount
      simp [hcount, EncodedInstruction.words, eq_comm]

theorem encodeAll_eq_ok :
    encodeAll instructions = .ok words ↔
      (∀ instruction ∈ instructions, instruction.Valid) ∧ words = body instructions := by
  induction instructions generalizing words with
  | nil => simp [encodeAll, body, eq_comm]
  | cons instruction rest ih =>
    rw [encodeAll]
    cases hfirst : encodeInstruction instruction.opcode instruction.operands with
    | error error =>
      refine iff_of_false (fun h => by cases h) ?_
      rintro ⟨hvalid, -⟩
      have hok := encodeInstruction_eq_ok.mpr ⟨hvalid instruction (.head _), rfl⟩
      rw [hfirst] at hok
      cases hok
    | ok first =>
      obtain ⟨hvalid, rfl⟩ := encodeInstruction_eq_ok.mp hfirst
      rw [forall_mem_cons, body_cons]
      constructor
      · intro h
        cases hrest : encodeAll rest with
        | error error =>
          rw [hrest] at h
          cases h
        | ok others =>
          rw [hrest] at h
          cases h
          obtain ⟨hothers, rfl⟩ := ih.mp hrest
          exact ⟨⟨hvalid, hothers⟩, rfl⟩
      rintro ⟨⟨-, hothers⟩, rfl⟩
      rw [ih.mpr ⟨hothers, rfl⟩]
      rfl

theorem wordTotal_isOk {total : Nat} (htotal : total < 2 ^ 32)
    (hvalid : ∀ instruction ∈ instructions, instruction.Valid) :
    (∃ sum, wordTotal total instructions = .ok sum) ↔
      total + (body instructions).length < 2 ^ 32 := by
  induction instructions generalizing total with
  | nil => simpa [wordTotal, body] using htotal
  | cons instruction rest ih =>
    obtain ⟨descriptor, hopcode, hcount⟩ := hvalid instruction (.head _)
    have hlength : (body (instruction :: rest)).length =
        descriptor.operandWordCount + 1 + (body rest).length := by
      rw [body_cons, length_append, EncodedInstruction.words, length_cons, hcount]
    rw [wordTotal, hopcode, hlength]
    dsimp only
    split
    case isTrue hbig =>
      refine iff_of_false (fun h => ?_) (by omega)
      obtain ⟨sum, hsum⟩ := h
      cases hsum
    case isFalse hsmall =>
      rw [ih (by omega) fun other hother => hvalid other (mem_cons_of_mem _ hother)]
      omega

/-- Valid instructions with fewer than `2 ^ 32` words are assembled to their body. -/
theorem assembleFunction_eq_ok :
    assembleFunction instructions = .ok words ↔
      (∀ instruction ∈ instructions, instruction.Valid) ∧ words = body instructions ∧
        words.length < 2 ^ 32 := by
  rw [assembleFunction]
  constructor
  · intro h
    cases htotal : wordTotal 0 instructions with
    | error error =>
      rw [htotal] at h
      cases h
    | ok sum =>
      rw [htotal] at h
      obtain ⟨hvalid, rfl⟩ := encodeAll_eq_ok.mp h
      have hlength := (wordTotal_isOk (by decide) hvalid).mp ⟨sum, htotal⟩
      exact ⟨hvalid, rfl, by simpa using hlength⟩
  rintro ⟨hvalid, rfl, hlength⟩
  have htotal : 0 + (body instructions).length < 2 ^ 32 := by rwa [Nat.zero_add]
  obtain ⟨sum, hsum⟩ := (wordTotal_isOk (by decide) hvalid).mpr htotal
  rw [hsum]
  exact encodeAll_eq_ok.mpr ⟨hvalid, rfl⟩

end

/-- The words of an instruction say where it ends. -/
theorem body_prefix {first second : List EncodedInstruction} {rest : List UInt32}
    (hfirst : ∀ instruction ∈ first, instruction.Valid)
    (hsecond : ∀ instruction ∈ second, instruction.Valid) (h : body second = body first ++ rest) :
    ∃ others, second = first ++ others ∧ body others = rest := by
  induction first generalizing second with
  | nil => exact ⟨second, rfl, h⟩
  | cons instruction first ih =>
    cases second with
    | nil => cases h
    | cons other second =>
      obtain ⟨⟨descriptor, hopcode, hcount⟩, hfirst⟩ := forall_mem_cons.mp hfirst
      obtain ⟨⟨descriptor', hopcode', hcount'⟩, hsecond⟩ := forall_mem_cons.mp hsecond
      rw [body_cons, body_cons, append_assoc] at h
      obtain ⟨hheader, htail⟩ := cons.inj h
      have hsame : other.opcode = instruction.opcode := by
        have hbytes := congrArg UInt32.toUInt8 hheader
        simpa using hbytes
      rw [hsame, hopcode] at hopcode'
      cases hopcode'
      obtain ⟨hoperands, hbody⟩ := append_inj htail (hcount'.trans hcount.symm)
      obtain ⟨others, rfl, hothers⟩ := ih hfirst hsecond hbody
      refine ⟨others, ?_, hothers⟩
      obtain ⟨opcode, operands⟩ := other
      cases hsame
      cases hoperands
      rfl

/-- The wordcode is a prefix code: a function whose words begin those of another one begins it. -/
theorem assembled_begins {first second : List EncodedInstruction} {words rest : List UInt32}
    (hfirst : assembleFunction first = .ok words)
    (hsecond : assembleFunction second = .ok (words ++ rest)) :
    ∃ others, second = first ++ others ∧ assembleFunction others = .ok rest := by
  obtain ⟨hvalid, rfl, -⟩ := assembleFunction_eq_ok.mp hfirst
  obtain ⟨hvalid', hwords, hlength⟩ := assembleFunction_eq_ok.mp hsecond
  obtain ⟨others, rfl, rfl⟩ := body_prefix hvalid hvalid' hwords.symm
  refine ⟨others, rfl, assembleFunction_eq_ok.mpr ⟨fun other hmem => ?_, rfl, ?_⟩⟩
  · exact hvalid' other (mem_append_right _ hmem)
  · rw [length_append] at hlength
    omega

theorem assembled_begins_pop : ∃ others,
    [⟨0x08, []⟩, ⟨0x90, []⟩] = [⟨0x08, []⟩] ++ others ∧ assembleFunction others = .ok [0x90] :=
  @assembled_begins _ _ [0x08] [0x90] rfl rfl

/-! ## Decoded bodies -/

namespace DecodedInstruction

def encoded (instruction : DecodedInstruction) : EncodedInstruction :=
  ⟨instruction.descriptor.encoding, instruction.operandWords⟩

/-- The pc behind the instruction. -/
def stop (instruction : DecodedInstruction) : Nat :=
  instruction.pc + 1 + instruction.operandWords.length

end DecodedInstruction

def DecodedFunction.encoded (decoded : DecodedFunction) : List EncodedInstruction :=
  decoded.instructions.map DecodedInstruction.encoded

/-- The extents of the instructions follow one another from `start` to `stop`. -/
inductive Extents : Nat → List DecodedInstruction → Nat → Prop
  | nil (pc : Nat) : Extents pc [] pc
  | cons {instruction : DecodedInstruction} {rest : List DecodedInstruction} {stop : Nat}
      (h : Extents instruction.stop rest stop) : Extents instruction.pc (instruction :: rest) stop

theorem Extents.lt_of_mem {start stop : Nat} {instructions : List DecodedInstruction}
    (h : Extents start instructions stop) :
    ∀ instruction ∈ instructions, start ≤ instruction.pc := by
  induction h with
  | nil pc => exact fun instruction hmem => absurd hmem not_mem_nil
  | @cons first rest stop h ih =>
    intro instruction hmem
    obtain rfl | hmem := mem_cons.mp hmem
    · exact Nat.le_refl _
    have hstop := ih instruction hmem
    rw [DecodedInstruction.stop] at hstop
    omega

/-- The header pcs of a partition ascend. -/
theorem Extents.pcs_ascend {start stop : Nat} {instructions : List DecodedInstruction}
    (h : Extents start instructions stop) :
    (instructions.map DecodedInstruction.pc).Pairwise (· < ·) := by
  induction h with
  | nil pc => exact .nil
  | @cons first rest stop h ih =>
    refine pairwise_cons.mpr ⟨fun pc hpc => ?_, ih⟩
    obtain ⟨instruction, hmem, rfl⟩ := mem_map.mp hpc
    have hstop := h.lt_of_mem instruction hmem
    rw [DecodedInstruction.stop] at hstop
    omega

section

variable {words : List UInt32}

/-- The words that the decoder counts, from a pc on. -/
def tailFrom (words : List UInt32) (pc : Nat) : List UInt32 :=
  (words.take (wordCount words)).drop pc

theorem wordCount_le : wordCount words ≤ words.length := Nat.mod_le _ _

theorem tailFrom_eq_cons {pc : Nat} {word : UInt32} (hpc : pc < wordCount words)
    (hword : words[pc]? = some word) : tailFrom words pc = word :: tailFrom words (pc + 1) := by
  have htake : (words.take (wordCount words))[pc]? = some word := by
    rw [List.getElem?_take_of_lt hpc, hword]
  obtain ⟨hlt, heq⟩ := List.getElem?_eq_some_iff.mp htake
  rw [tailFrom, List.drop_eq_getElem_cons hlt, heq]
  rfl

theorem tailFrom_split {pc count : Nat} (hstop : pc + count ≤ wordCount words) :
    tailFrom words pc = (words.drop pc).take count ++ tailFrom words (pc + count) := by
  rw [tailFrom, ← take_append_drop count ((words.take (wordCount words)).drop pc),
    drop_drop, tailFrom, drop_take, take_take, Nat.min_eq_left (by omega)]

theorem tailFrom_length (pc : Nat) : (tailFrom words pc).length = wordCount words - pc := by
  rw [tailFrom, length_drop, length_take, Nat.min_eq_left wordCount_le]

/-- The operand words of an instruction that fits. -/
theorem length_operandWords {pc count : Nat} (hstop : pc + 1 + count ≤ wordCount words) :
    ((words.drop (pc + 1)).take count).length = count := by
  have hle := @wordCount_le words
  rw [length_take, length_drop]
  omega

theorem tailFrom_instruction {pc : Nat} {word : UInt32} {descriptor : Opcode}
    (hpc : pc < wordCount words) (hword : words[pc]? = some word)
    (hdescriptor : descriptorFor word = some descriptor)
    (hstop : pc + 1 + descriptor.operandWordCount ≤ wordCount words) :
    tailFrom words pc =
      (descriptor.encoding.toUInt32 :: (words.drop (pc + 1)).take descriptor.operandWordCount) ++
        tailFrom words (pc + 1 + descriptor.operandWordCount) := by
  rw [tailFrom_eq_cons hpc hword, tailFrom_split hstop, encoding_of_descriptorFor hdescriptor]
  rfl

/-- What the loop accepts: the words from the pc on are the body of the decoded instructions. -/
theorem decodeLoop_ok {pc : Nat} {decoded result : DecodedFunction}
    (h : decodeLoop words pc decoded = .ok result) (hpc : pc ≤ wordCount words) :
    ∃ more, result = ⟨decoded.instructions ++ more,
        decoded.headerPcs ++ more.map DecodedInstruction.pc⟩ ∧
      Extents pc more (wordCount words) ∧
      tailFrom words pc = body (more.map DecodedInstruction.encoded) ∧
      (∀ instruction ∈ more, instruction.encoded.Valid) ∧
      (decoded.instructions.length ≤ maxWordsPerFunction →
        result.instructions.length ≤ maxWordsPerFunction) := by
  fun_induction decodeLoop words pc decoded with
  | case1 pc decoded hlt hnone =>
    have hle := @wordCount_le words
    have hlength := getElem?_eq_none_iff.mp hnone
    omega
  | case2 pc decoded hlt word hword hdescriptor
  | case3 pc decoded hlt word hword descriptor hdescriptor stop hoverflow
  | case4 pc decoded hlt word hword descriptor hdescriptor stop hfits htruncated | case5 => cases h
  | case6 pc decoded hlt word hword descriptor hdescriptor stop hfits htruncated operandWords next
      hlimit ih =>
      have hstop : pc + 1 + descriptor.operandWordCount ≤ wordCount words :=
        Nat.not_lt.mp htruncated
      obtain ⟨more, hresult, hextents, htail, hvalid, hbound⟩ := ih h hstop
      have hcount : operandWords.length = descriptor.operandWordCount := length_operandWords hstop
      let first : DecodedInstruction := ⟨pc, descriptor, operandWords⟩
      have hfirst : first.stop = stop := congrArg (pc + 1 + ·) hcount
      refine ⟨first :: more, ?_, ?_, ?_, ?_, fun _ => hbound (Nat.not_lt.mp hlimit)⟩
      · rw [hresult]
        simp [next, first]
      · rw [← hfirst] at hextents
        exact .cons hextents
      · rw [tailFrom_instruction hlt hword hdescriptor hstop, map_cons, body_cons, ← htail]
        rfl
      intro instruction hmem
      obtain rfl | hmem := mem_cons.mp hmem
      · exact ⟨descriptor, opcodeFor_encoding descriptor, hcount⟩
      · exact hvalid instruction hmem
  | case7 pc decoded hge =>
    cases h
    have heq : pc = wordCount words := by omega
    refine ⟨[], by simp, heq ▸ .nil pc, ?_, fun instruction hmem => absurd hmem not_mem_nil, id⟩
    exact eq_nil_of_length_eq_zero (by rw [tailFrom_length]; omega)

/-- The loop decodes the body of valid instructions, up to the limit. -/
theorem decodeLoop_body {instructions : List EncodedInstruction} {pc : Nat}
    {decoded : DecodedFunction} (hvalid : ∀ instruction ∈ instructions, instruction.Valid)
    (htail : tailFrom words pc = body instructions) (hpc : pc ≤ wordCount words)
    (hlimit : decoded.instructions.length + instructions.length ≤ maxWordsPerFunction) :
    ∃ result, decodeLoop words pc decoded = .ok result ∧
      result.encoded = decoded.encoded ++ instructions := by
  induction instructions generalizing pc decoded with
  | nil =>
    have hlength := congrArg length htail
    rw [tailFrom_length] at hlength
    have hend : ¬ pc < wordCount words := by
      intro hlt
      have hzero : wordCount words - pc = 0 := hlength
      omega
    rw [decodeLoop, if_neg hend]
    exact ⟨decoded, rfl, (append_nil _).symm⟩
  | cons instruction rest ih =>
    obtain ⟨descriptor, hopcode, hcount⟩ := hvalid instruction (.head _)
    have hencoding := encoding_of_opcodeFor hopcode
    rw [body_cons, EncodedInstruction.words, ← hencoding] at htail
    have hlength := congrArg length htail
    rw [tailFrom_length, length_append, length_cons, hcount] at hlength
    have hlt : pc < wordCount words := by omega
    have hstop : pc + 1 + descriptor.operandWordCount ≤ wordCount words := by omega
    have hbound : wordCount words < 2 ^ 32 := Nat.mod_lt _ (by decide)
    obtain ⟨word, hword⟩ : ∃ word, words[pc]? = some word :=
      ⟨_, getElem?_eq_getElem (Nat.lt_of_lt_of_le hlt wordCount_le)⟩
    have hhead := tailFrom_eq_cons hlt hword
    rw [htail, cons_append] at hhead
    obtain ⟨rfl, hoperands⟩ := cons.inj hhead
    rw [tailFrom_split hstop] at hoperands
    obtain ⟨hwords, hrest⟩ := append_inj hoperands (hcount.trans (length_operandWords hstop).symm)
    let next : DecodedFunction :=
      ⟨decoded.instructions ++
        [⟨pc, descriptor, (words.drop (pc + 1)).take descriptor.operandWordCount⟩],
        decoded.headerPcs ++ [pc]⟩
    have hnext : next.instructions.length + rest.length ≤ maxWordsPerFunction := by
      rw [length_cons] at hlimit
      rw [length_append, length_singleton]
      omega
    have hstep : decodeLoop words pc decoded =
        decodeLoop words (pc + 1 + descriptor.operandWordCount) next := by
      rw [decodeLoop, if_pos hlt, hword]
      dsimp only
      rw [descriptorFor_encoding]
      dsimp only
      rw [if_neg (by omega), if_neg (by omega)]
      exact if_neg (Nat.not_lt.mpr (Nat.le_trans (Nat.le_add_right _ _) hnext))
    obtain ⟨result, hresult, hencoded⟩ := ih
      (fun other hother => hvalid other (.tail _ hother)) hrest.symm hstop hnext
    rw [hstep]
    refine ⟨result, hresult, ?_⟩
    rw [hencoded, DecodedFunction.encoded, DecodedFunction.encoded, map_append,
      append_assoc, ← hwords]
    cases instruction
    cases hencoding
    rfl

/-- What the decoder accepts: the counted words are the body of the decoded instructions. -/
theorem decodeFunction_ok {decoded : DecodedFunction} (h : decodeFunction words = .ok decoded) :
    Extents 0 decoded.instructions (wordCount words) ∧
      decoded.headerPcs = decoded.instructions.map DecodedInstruction.pc ∧
      decoded.instructions.length ≤ maxWordsPerFunction ∧
      assembleFunction decoded.encoded = .ok (words.take (wordCount words)) := by
  obtain ⟨more, hresult, hextents, htail, hvalid, hbound⟩ := decodeLoop_ok h (Nat.zero_le _)
  have hlimit := hbound (Nat.zero_le _)
  rw [hresult] at hlimit ⊢
  refine ⟨hextents, rfl, hlimit, assembleFunction_eq_ok.mpr ⟨?_, htail, ?_⟩⟩
  · intro instruction hmem
    obtain ⟨source, hsource, rfl⟩ := mem_map.mp hmem
    exact hvalid source hsource
  rw [length_take, Nat.min_eq_left wordCount_le]
  exact Nat.mod_lt _ (by decide)

/-- The decoder accepts what is assembled from few enough instructions. -/
theorem decodeFunction_assembled {instructions : List EncodedInstruction}
    (h : assembleFunction instructions = .ok (words.take (wordCount words)))
    (hlimit : instructions.length ≤ maxWordsPerFunction) :
    ∃ decoded, decodeFunction words = .ok decoded ∧ decoded.encoded = instructions := by
  obtain ⟨hvalid, htail, -⟩ := assembleFunction_eq_ok.mp h
  have hfrom : tailFrom words 0 = body instructions := htail
  have hroom : ([] : List DecodedInstruction).length + instructions.length ≤
      maxWordsPerFunction := by
    rwa [length_nil, Nat.zero_add]
  obtain ⟨decoded, hdecoded, hencoded⟩ :=
    @decodeLoop_body words instructions 0 ⟨[], []⟩ hvalid hfrom (Nat.zero_le _) hroom
  exact ⟨decoded, hdecoded, hencoded⟩

/-- The round trips of a word array. -/
structure RoundTrips (words : List UInt32) : Prop where
  assembled : ∀ instructions, assembleFunction instructions = .ok words →
    words.length < 2 ^ 32 → instructions.length ≤ maxWordsPerFunction →
    ∃ decoded, decodeFunction words = .ok decoded ∧ decoded.encoded = instructions ∧
      decoded.headerPcs.Pairwise (· < ·) ∧ Extents 0 decoded.instructions words.length
  decoded : ∀ decoded, decodeFunction words = .ok decoded →
    assembleFunction decoded.encoded = .ok words
  refused : (∀ instructions, assembleFunction instructions = .ok words →
    ¬ instructions.length ≤ maxWordsPerFunction) → ∃ error, decodeFunction words = .error error

/-- A word array of fewer than `2 ^ 32` words makes its round trips. -/
theorem roundTrips_of_lt (hlength : words.length < 2 ^ 32) : RoundTrips words := by
  have hcount : wordCount words = words.length := Nat.mod_eq_of_lt hlength
  have htake : words.take (wordCount words) = words := by rw [hcount, take_length]
  refine ⟨fun instructions h _ hlimit => ?_, fun decoded h => ?_, fun hnone => ?_⟩
  · rw [← htake] at h
    obtain ⟨decoded, hdecoded, hencoded⟩ := decodeFunction_assembled h hlimit
    obtain ⟨hextents, hpcs, -⟩ := decodeFunction_ok hdecoded
    refine ⟨decoded, hdecoded, hencoded, ?_, hcount ▸ hextents⟩
    rw [hpcs]
    exact hextents.pcs_ascend
  · have hassembled := (decodeFunction_ok h).2.2.2
    rwa [htake] at hassembled
  cases hdecoded : decodeFunction words with
  | error error => exact ⟨error, rfl⟩
  | ok decoded =>
    obtain ⟨-, -, hlimit, hassembled⟩ := decodeFunction_ok hdecoded
    rw [htake] at hassembled
    refine absurd ?_ (hnone _ hassembled)
    rwa [DecodedFunction.encoded, length_map]

/-- A constant with its index, and its drop: what is assembled is decoded. -/
theorem roundTrips_of_lt_const : RoundTrips [0x00, 7, 0x08] ∧
    ∃ decoded, decodeFunction [0x00, 7, 0x08] = .ok decoded ∧
      decoded.encoded = [⟨0x00, [7]⟩, ⟨0x08, []⟩] := by
  have trips : RoundTrips [0x00, 7, 0x08] := roundTrips_of_lt (by decide)
  obtain ⟨decoded, hdecoded, hencoded, -⟩ :=
    trips.assembled [⟨0x00, [7]⟩, ⟨0x08, []⟩] rfl (by decide) (by decide)
  exact ⟨trips, decoded, hdecoded, hencoded⟩

end

end Skiff.Bytecode
