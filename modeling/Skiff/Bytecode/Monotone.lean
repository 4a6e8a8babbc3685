import Skiff.Bytecode.Stability

/-!
# Transfers are monotone in liveness

A state is below another when both have the same operand stack, regions and loans, and every
slot is at most as live. What a transfer accepts it also accepts from above, with one
exception: a copy between slots takes the narrowed type of its source along, and the order
says nothing about it. `CopyAccepted` asks for that copy.
-/

namespace Skiff.Bytecode

open Mut

open Mut (Stable)

/-- How much is known of a slot. -/
def LinkedSlotState.rank : LinkedSlotState → Nat
  | uninitialized => 0
  | moved => 1
  | live _ => 2

/-- Every slot of the second list is at least as live. -/
def SlotsBelow (low high : List LinkedSlotState) : Prop :=
  List.Forall₂ (fun a b => a.rank ≤ b.rank) low high

variable {slot : Nat} {value : LinkedStackValue}

namespace SlotsBelow

variable {low high : List LinkedSlotState}

theorem refl (slots : List LinkedSlotState) : SlotsBelow slots slots := by
  induction slots with
  | nil => exact .nil
  | cons slot rest ih => exact .cons (le_refl _) ih

theorem trans {a b c : List LinkedSlotState} (hab : SlotsBelow a b) (hbc : SlotsBelow b c) :
    SlotsBelow a c := by
  induction hab generalizing c with
  | nil => exact hbc
  | cons hfirst _ ih =>
    cases hbc with
    | cons hfirst' hrest => exact .cons (hfirst.trans hfirst') (ih hrest)

theorem length_eq (h : SlotsBelow low high) : low.length = high.length := List.Forall₂.length_eq h

theorem set (h : SlotsBelow low high) (slot : Nat) {a b : LinkedSlotState} (hab : a.rank ≤ b.rank) :
    SlotsBelow (low.set slot a) (high.set slot b) := by
  induction h generalizing slot with
  | nil => exact .nil
  | cons hfirst hrest ih =>
    cases slot with
    | zero => exact .cons hab hrest
    | succ slot => exact .cons hfirst (ih slot)

theorem get? (h : SlotsBelow low high) {a : LinkedSlotState} (ha : low[slot]? = some a) :
    ∃ b, high[slot]? = some b ∧ a.rank ≤ b.rank := by
  induction h generalizing slot with
  | nil => cases ha
  | cons hfirst hrest ih =>
    cases slot with
    | zero =>
      cases ha
      exact ⟨_, rfl, hfirst⟩
    | succ slot => exact ih ha

/-- A slot that is live below is live above. -/
theorem live (h : SlotsBelow low high)
    (ha : low[slot]? = some (.live value)) : ∃ value, high[slot]? = some (.live value) := by
  obtain ⟨b, hb, hrank⟩ := h.get? ha
  cases b with
  | live value => exact ⟨value, hb⟩
  | moved => exact absurd hrank (Nat.not_succ_le_self 1)
  | uninitialized => exact absurd hrank (Nat.not_succ_le_zero 1)

end SlotsBelow

instance : Preorder MachineState where
  le a b := a.stack = b.stack ∧ a.activeRegions = b.activeRegions ∧
    a.writableLoans = b.writableLoans ∧
    SlotsBelow a.slots b.slots
  le_refl a := ⟨rfl, rfl, rfl, .refl _⟩
  le_trans a b c hab hbc := ⟨hab.1.trans hbc.1, hab.2.1.trans hbc.2.1, hab.2.2.1.trans hbc.2.2.1,
    hab.2.2.2.trans hbc.2.2.2⟩

/-! ## Declared slots -/

/-- The declared type of a slot is an anonymous union. -/
def DeclaresUnion (linker : TypeLinker) (frame : LinkedFrameLayout) (slot : FrameSlotIndex) :
    Prop :=
  ∃ ty items, frame.slotTypes[slot]? = some ty ∧ linker.linkedTypeRef ty = some (.union items)

/-- Only a slot of union type can hold anything but its declared value. -/
def Framed (linker : TypeLinker) (frame : LinkedFrameLayout) (slots : List LinkedSlotState) :
    Prop :=
  ∀ slot value, slots[slot]? = some (.live value) →
    frame.slotValue slot = some value ∨ DeclaresUnion linker frame slot

variable {frame : LinkedFrameLayout}

theorem DeclaresUnion.mono {linker later : TypeLinker} {slot : FrameSlotIndex}
    (h : DeclaresUnion linker frame slot) (hle : linker ≤ later) :
    DeclaresUnion later frame slot := by
  obtain ⟨ty, items, hty, href⟩ := h
  exact ⟨ty, items, hty, TypeLinker.linkedTypeRef_mono hle href⟩

namespace Framed

variable {linker later : TypeLinker} {frame : LinkedFrameLayout} {slots : List LinkedSlotState}

theorem mono (h : Framed linker frame slots) (hle : linker ≤ later) : Framed later frame slots := by
  intro slot value hvalue
  obtain hdeclared | hunion := h slot value hvalue
  · exact .inl hdeclared
  · exact .inr (hunion.mono hle)

theorem set (h : Framed linker frame slots) {state : LinkedSlotState}
    (hstate : ∀ value, state = .live value → frame.slotValue slot = some value ∨
      DeclaresUnion linker frame slot) :
    Framed linker frame (slots.set slot state) := by
  intro other value hvalue
  rw [List.getElem?_set] at hvalue
  split at hvalue
  case isTrue heq =>
    subst heq
    split at hvalue
    case isTrue => exact hstate value (Option.some.inj hvalue)
    case isFalse => cases hvalue
  case isFalse => exact h other value hvalue

end Framed

theorem slotValue_eq_some {slot : FrameSlotIndex} :
    frame.slotValue slot = some value ↔
      frame.slotTypes[slot]? = some value.ty ∧ frame.slotPlans[slot]? = some value.plan := by
  unfold LinkedFrameLayout.slotValue
  split
  case h_1 ty plan hty hplan =>
    rw [hty, hplan]
    constructor
    · intro h
      cases h
      exact ⟨rfl, rfl⟩
    rintro ⟨h, h'⟩
    rw [Option.some.inj h, Option.some.inj h']
  case h_2 hnone =>
    constructor
    · intro h
      cases h
    rintro ⟨h, h'⟩
    exact absurd h' (hnone _ _ h)

/-! ## Slot effects -/

section

variable {context : StackMapContext} {instruction : LinkedInstruction} {pc : Option Nat}
variable {linker linker' later : TypeLinker}

theorem check_bind_eq_ok {α : Type} {holds : TypeLinker → Bool} {error : TypeLinker → LinkError}
    {f : Unit → LinkM α} {a : α} :
    (check holds error >>= f) linker = (.ok a, linker') ↔ holds linker = true ∧
    f () linker = (.ok a, linker') := by
  unfold check
  rw [read_bind_eq_ok]
  cases holds linker with
  | true => exact ⟨fun ⟨_, _, h⟩ => ⟨rfl, h⟩, fun ⟨_, h⟩ => ⟨(), rfl, h⟩⟩
  | false => simp

theorem lookup_bind_eq_ok {α β : Type} {find : TypeLinker → Option α} {error : LinkError}
    {f : α → LinkM β} {b : β} :
    (lookup find error >>= f) linker = (.ok b, linker') ↔
      ∃ a, find linker = some a ∧ f a linker = (.ok b, linker') := by
  unfold lookup
  simp only [read_bind_eq_ok, required_eq_ok]

/-- A slot accepts what matches its declared value, and then holds that or a union branch. -/
theorem validateSlotWrite_eq_ok {value stored : LinkedStackValue}
    (h : validateSlotWrite context pc slot value linker = (.ok stored, linker')) :
    linker' = linker ∧ (∃ declared, context.frame.slotValue slot = some declared ∧
      linker.linkedValueMatches declared value = true) ∧
      (context.frame.slotValue slot = some stored ∨ DeclaresUnion linker context.frame slot) := by
  obtain ⟨ty, hty, h⟩ := ofExcept_bind_eq_ok.mp h
  obtain ⟨plan, hplan, h⟩ := ofExcept_bind_eq_ok.mp h
  obtain ⟨hmatch, h⟩ := check_bind_eq_ok.mp h
  obtain ⟨expectedRef, hexpected, h⟩ := lookup_bind_eq_ok.mp h
  obtain ⟨actualRef, hactual, h⟩ := lookup_bind_eq_ok.mp h
  obtain ⟨hstored, hlinker⟩ := pure_eq_ok.mp h
  have hdeclared : context.frame.slotValue slot = some ⟨ty, plan⟩ :=
    slotValue_eq_some.mpr ⟨required_eq_ok.mp hty, required_eq_ok.mp hplan⟩
  refine ⟨hlinker, ⟨_, hdeclared, hmatch⟩, ?_⟩
  split at hstored
  case isTrue hunion =>
    -- Only a union has branches.
    cases expectedRef with
    | union items => exact .inr ⟨ty, items, required_eq_ok.mp hty, hexpected⟩
    | builtin name args | nominal reference => cases hunion
  case isFalse =>
    rw [hstored] at hdeclared
    exact .inl hdeclared

variable (pc) in
theorem validateSlotWrite_ok {declared value : LinkedStackValue}
    (hdeclared : context.frame.slotValue slot = some declared)
    (hmatch : linker.linkedValueMatches declared value = true) :
    ∃ stored, validateSlotWrite context pc slot value linker = (.ok stored, linker) := by
  obtain ⟨hty, hplan⟩ := slotValue_eq_some.mp hdeclared
  have hrefs : ∃ expectedRef actualRef, linker.linkedTypeRef declared.ty = some expectedRef ∧
      linker.linkedTypeRef value.ty = some actualRef := by
    unfold TypeLinker.linkedValueMatches at hmatch
    split at hmatch
    case h_1 expectedRef actualRef _ _ hexpected hactual _ _ =>
      exact ⟨expectedRef, actualRef, hexpected, hactual⟩
    case h_2 => cases hmatch
  obtain ⟨expectedRef, actualRef, hexpected, hactual⟩ := hrefs
  refine ⟨if unionBranchAssignableRefs expectedRef actualRef then value else declared, ?_⟩
  refine ofExcept_bind_eq_ok.mpr ⟨declared.ty, required_eq_ok.mpr hty, ?_⟩
  refine ofExcept_bind_eq_ok.mpr ⟨declared.plan, required_eq_ok.mpr hplan, ?_⟩
  refine check_bind_eq_ok.mpr ⟨hmatch, ?_⟩
  refine lookup_bind_eq_ok.mpr ⟨expectedRef, hexpected, ?_⟩
  refine lookup_bind_eq_ok.mpr ⟨actualRef, hactual, ?_⟩
  exact pure_eq_ok.mpr ⟨rfl, rfl⟩

theorem requireLive_eq_ok {current : LinkedSlotState} {action : SlotAction} {result : Unit} :
    requireLive pc current slot action = .ok result ↔ ∃ value, current = .live value := by
  cases current <;> simp [requireLive]

variable {inputs : List (List LinkedStackValue)} {before slots slots' : List LinkedSlotState}
variable {effect : SlotEffectContract}

/-- What one effect can do. -/
theorem applySlotEffect_cases
    (h : applySlotEffect context instruction pc inputs before slots effect linker =
      (.ok slots', linker')) :
    linker' = linker ∧ ∃ slot current, operandWord instruction effect.operand pc = .ok slot ∧
      before[slot]? = some current ∧
      ((effect.action ≠ .write ∧ (∃ value, current = .live value) ∧
        slots' = effect.action.leave slot slots) ∨
        (effect.action = .write ∧ ∃ value stored,
          slotWriteValue instruction pc effect.value inputs before = .ok value ∧
          validateSlotWrite context pc slot value linker = (.ok stored, linker) ∧
          slots' = slots.set slot (.live stored))) := by
  obtain ⟨slot, hslot, h⟩ := ofExcept_bind_eq_ok.mp h
  obtain ⟨current, hcurrent, h⟩ := ofExcept_bind_eq_ok.mp h
  have hcurrent := required_eq_ok.mp hcurrent
  split at h
  case isTrue hwrite =>
    obtain ⟨value, hvalue, h⟩ := Mut.ofExcept_bind_eq_ok.mp h
    obtain ⟨stored, next, hstored, hlast⟩ := Mut.bind_eq_ok.mp h
    obtain rfl := (validateSlotWrite_eq_ok hstored).1
    obtain ⟨rfl, rfl⟩ := pure_eq_ok.mp hlast
    exact ⟨rfl, slot, current, hslot, hcurrent, .inr ⟨hwrite, value, stored, hvalue, hstored, rfl⟩⟩
  case isFalse hwrite =>
    obtain ⟨_, hlive, h⟩ := ofExcept_bind_eq_ok.mp h
    obtain ⟨rfl, rfl⟩ := pure_eq_ok.mp h
    exact ⟨rfl, slot, current, hslot, hcurrent, .inl ⟨hwrite, requireLive_eq_ok.mp hlive, rfl⟩⟩

theorem length_leave (action : SlotAction) (slot : Nat) (slots : List LinkedSlotState) :
    (action.leave slot slots).length = slots.length := by
  cases action <;> simp [SlotAction.leave]

theorem Framed.leave {slots : List LinkedSlotState} (h : Framed linker frame slots)
    (action : SlotAction) (slot : Nat) : Framed linker frame (action.leave slot slots) := by
  have hmoved : Framed linker frame (slots.set slot .moved) := h.set fun _ hvalue => by cases hvalue
  cases action with
  | take | drop => exact hmoved
  | read | readShare | write | mutate => exact h

variable {low high : List LinkedSlotState}

theorem SlotsBelow.leave (h : SlotsBelow low high) (action : SlotAction)
    (slot : Nat) : SlotsBelow (action.leave slot low) (action.leave slot high) := by
  have hmoved : SlotsBelow (low.set slot .moved) (high.set slot .moved) := h.set slot (le_refl _)
  cases action with
  | take | drop => exact hmoved
  | read | readShare | write | mutate => exact h

theorem applySlotEffect_framed (hframed : Framed linker context.frame slots)
    (h : applySlotEffect context instruction pc inputs before slots effect linker =
      (.ok slots', linker')) :
    slots'.length = slots.length ∧ Framed linker' context.frame slots' := by
  obtain ⟨rfl, slot, current, -, -, ⟨-, -, rfl⟩ | ⟨-, value, stored, -, hstored, rfl⟩⟩ :=
    applySlotEffect_cases h
  · exact ⟨length_leave _ _ _, hframed.leave _ _⟩
  refine ⟨List.length_set, hframed.set fun other heq => ?_⟩
  cases heq
  exact (validateSlotWrite_eq_ok hstored).2.2

/-- A copy from a slot of union type takes a value that the destination accepts. -/
def WriteAccepted (linker : TypeLinker) (context : StackMapContext)
    (instruction : LinkedInstruction) (pc : Option Nat) (before : List LinkedSlotState)
    (effect : SlotEffectContract) : Prop :=
  ∀ operand source destination value declared, effect.action = .write →
    effect.value = .slot operand →
    operandWord instruction operand pc = .ok source →
    operandWord instruction effect.operand pc = .ok destination →
    DeclaresUnion linker context.frame source → before[source]? = some (.live value) →
    context.frame.slotValue destination = some declared →
      linker.linkedValueMatches declared value = true

/-- The value to write from above, which the slot accepts too. -/
theorem slotWriteValue_mono {value declared : LinkedStackValue} (hbelow : SlotsBelow low high)
    (hlow : Framed later context.frame low) (hhigh : Framed later context.frame high)
    (haccepted : WriteAccepted later context instruction pc high effect)
    (hwrite : effect.action = .write) (hslot : operandWord instruction effect.operand pc = .ok slot)
    (hvalue : slotWriteValue instruction pc effect.value inputs low = .ok value)
    (hdeclared : context.frame.slotValue slot = some declared)
    (hmatch : later.linkedValueMatches declared value = true) :
    ∃ value', slotWriteValue instruction pc effect.value inputs high = .ok value' ∧
      later.linkedValueMatches declared value' = true := by
  obtain ⟨values, hsource, hone⟩ := bind_eq_ok.mp hvalue
  unfold slotWriteSource at hsource
  split at hsource
  case h_1 operand hoperand =>
    obtain ⟨source, hword, hsource⟩ := bind_eq_ok.mp hsource
    split at hsource
    case h_1 held hheld =>
      cases hsource
      cases hone
      obtain ⟨value', hvalue'⟩ := hbelow.live hheld
      have hread : slotWriteValue instruction pc effect.value inputs high = .ok value' := by
        simp only [slotWriteValue, slotWriteSource, hoperand, hword, hvalue', bind, Except.bind]
      refine ⟨value', hread, ?_⟩
      -- A slot without branches holds its declared value on both paths.
      obtain hsame | hunion := hlow source _ hheld
      · obtain hsame' | hunion := hhigh source _ hvalue'
        · rw [hsame] at hsame'
          cases hsame'
          exact hmatch
        · exact haccepted operand source slot value' declared hwrite hoperand hword hslot hunion
            hvalue' hdeclared
      · exact haccepted operand source slot value' declared hwrite hoperand hword hslot hunion
          hvalue' hdeclared
    case h_2 => cases hsource
  case h_2 group hgroup =>
    refine ⟨value, ?_, hmatch⟩
    rw [← hvalue, hgroup]
    rfl
  case h_3 => cases hsource

variable {lowBefore highBefore low high low' : List LinkedSlotState}
variable {effects : List SlotEffectContract}

theorem applySlotEffect_mono (hbefore : SlotsBelow lowBefore highBefore)
    (hbelow : SlotsBelow low high) (hlow : Framed later context.frame lowBefore)
    (hhigh : Framed later context.frame highBefore)
    (haccepted : WriteAccepted later context instruction pc highBefore effect)
    (h : applySlotEffect context instruction pc inputs lowBefore low effect linker =
      (.ok low', linker'))
    (hle : linker' ≤ later) :
    ∃ high', applySlotEffect context instruction pc inputs highBefore high effect later =
      (.ok high', later) ∧
      SlotsBelow low' high' := by
  obtain ⟨rfl, slot, current, hslot, hcurrent,
    ⟨hread, ⟨value, rfl⟩, rfl⟩ | ⟨hwrite, value, stored, hvalue, hstored, rfl⟩⟩ :=
    applySlotEffect_cases h
  · obtain ⟨value', hvalue'⟩ := hbefore.live hcurrent
    refine ⟨effect.action.leave slot high, ?_, hbelow.leave _ _⟩
    refine ofExcept_bind_eq_ok.mpr ⟨slot, hslot, ?_⟩
    refine ofExcept_bind_eq_ok.mpr ⟨_, required_eq_ok.mpr hvalue', ?_⟩
    rw [if_neg hread]
    refine ofExcept_bind_eq_ok.mpr ⟨(), requireLive_eq_ok.mpr ⟨value', rfl⟩, ?_⟩
    exact pure_eq_ok.mpr ⟨rfl, rfl⟩
  obtain ⟨-, ⟨declared, hdeclared, hmatch⟩, -⟩ := validateSlotWrite_eq_ok hstored
  obtain ⟨value', hvalue', hmatch'⟩ :=
    slotWriteValue_mono hbefore hlow hhigh haccepted hwrite hslot hvalue
    hdeclared (linkedValueMatches_mono hle hmatch)
  obtain ⟨stored', hstored'⟩ := validateSlotWrite_ok pc hdeclared hmatch'
  obtain ⟨current', hcurrent', -⟩ := hbefore.get? hcurrent
  refine ⟨high.set slot (.live stored'), ?_, hbelow.set slot (le_refl 2)⟩
  refine ofExcept_bind_eq_ok.mpr ⟨slot, hslot, ?_⟩
  refine ofExcept_bind_eq_ok.mpr ⟨current', required_eq_ok.mpr hcurrent', ?_⟩
  rw [if_pos hwrite]
  refine Mut.ofExcept_bind_eq_ok.mpr ⟨value', hvalue', ?_⟩
  exact Mut.bind_eq_ok.mpr ⟨stored', later, hstored', Mut.pure_eq_ok.mpr ⟨rfl, rfl⟩⟩

theorem applyEffects_framed (hframed : Framed linker context.frame slots)
    (h : applyEffects context instruction pc inputs before effects slots linker =
      (.ok slots', linker')) :
    slots'.length = slots.length ∧ Framed linker' context.frame slots' := by
  induction effects generalizing slots linker with
  | nil =>
    obtain ⟨rfl, rfl⟩ := pure_eq_ok.mp h
    exact ⟨rfl, hframed⟩
  | cons effect rest ih =>
    obtain ⟨middle, next, hfirst, hrest⟩ := Mut.bind_eq_ok.mp h
    obtain ⟨hlength, hmiddle⟩ := applySlotEffect_framed hframed hfirst
    obtain ⟨hlength', hlast⟩ := ih hmiddle hrest
    exact ⟨hlength'.trans hlength, hlast⟩

theorem applyEffects_mono (hbefore : SlotsBelow lowBefore highBefore) (hbelow : SlotsBelow low high)
    (hlow : Framed later context.frame lowBefore) (hhigh : Framed later context.frame highBefore)
    (haccepted : ∀ effect ∈ effects, WriteAccepted later context instruction pc highBefore effect)
    (h : applyEffects context instruction pc inputs lowBefore effects low linker =
      (.ok low', linker'))
    (hle : linker' ≤ later) :
    ∃ high', applyEffects context instruction pc inputs highBefore effects high later =
      (.ok high', later) ∧
      SlotsBelow low' high' := by
  induction effects generalizing low high linker with
  | nil =>
    obtain ⟨rfl, -⟩ := pure_eq_ok.mp h
    exact ⟨high, pure_eq_ok.mpr ⟨rfl, rfl⟩, hbelow⟩
  | cons effect rest ih =>
    obtain ⟨middle, next, hfirst, hrest⟩ := Mut.bind_eq_ok.mp h
    have hgrows :=
      (applyEffects_stable context instruction pc inputs lowBefore rest middle).grows hrest
    obtain ⟨middle', hfirst', hmiddle⟩ := applySlotEffect_mono hbefore hbelow hlow hhigh
      (haccepted effect (.head _)) hfirst (hgrows.trans hle)
    obtain ⟨high', hrest', hlast⟩ := ih hmiddle
      (fun other hother => haccepted other (.tail _ hother)) hrest
    exact ⟨high', Mut.bind_eq_ok.mpr ⟨middle', later, hfirst', hrest'⟩, hlast⟩

/-- The effects of a contract. -/
def SlotContract.effectList : SlotContract → List SlotEffectContract
  | .effects list => list
  | _ => []

theorem applySlotContract_framed {contract : SlotContract} {slots slots' : List LinkedSlotState}
    (hframed : Framed linker context.frame slots)
    (h : applySlotContract context instruction pc contract inputs slots linker =
      (.ok slots', linker')) :
    slots'.length = slots.length ∧ Framed linker' context.frame slots' := by
  cases contract with
  | none =>
    obtain ⟨rfl, rfl⟩ := pure_eq_ok.mp h
    exact ⟨rfl, hframed⟩
  | inOutCallLoans target layout => cases h
  | effects effects => exact applyEffects_framed hframed h

theorem applySlotContract_mono {contract : SlotContract} {low high low' : List LinkedSlotState}
    (hbelow : SlotsBelow low high) (hlow : Framed later context.frame low)
    (hhigh : Framed later context.frame high)
    (haccepted : ∀ effect ∈ contract.effectList,
      WriteAccepted later context instruction pc high effect)
    (h : applySlotContract context instruction pc contract inputs low linker = (.ok low', linker'))
    (hle : linker' ≤ later) :
    ∃ high', applySlotContract context instruction pc contract inputs high later =
      (.ok high', later) ∧
      SlotsBelow low' high' := by
  cases contract with
  | none =>
    obtain ⟨rfl, -⟩ := pure_eq_ok.mp h
    exact ⟨high, pure_eq_ok.mpr ⟨rfl, rfl⟩, hbelow⟩
  | inOutCallLoans target layout => cases h
  | effects effects => exact applyEffects_mono hbelow hbelow hlow hhigh haccepted h hle

/-! ## Instructions -/

variable {state next : MachineState}

/-- Regions and loans do not touch the stack and the slots, nor look at them. -/
theorem applyRegionEffects_frame (h : applyRegionEffects instruction pc state = .ok next) :
    next.stack = state.stack ∧ next.slots = state.slots ∧ ∀ slots,
      applyRegionEffects instruction pc { state with slots := slots } =
        .ok { next with slots := slots } := by
  unfold applyRegionEffects at h ⊢
  split at h
  case h_1 =>
    obtain ⟨region, hregion, h⟩ := bind_eq_ok.mp h
    cases h
    refine ⟨rfl, rfl, fun slots => ?_⟩
    rw [hregion]
    rfl
  case h_2 =>
    obtain ⟨region, hregion, h⟩ := bind_eq_ok.mp h
    split at h
    case isTrue hlast =>
      cases h
      refine ⟨rfl, rfl, fun slots => ?_⟩
      rw [hregion]
      exact if_pos hlast
    case isFalse => cases h
  case h_3 =>
    obtain ⟨root, hroot, h⟩ := bind_eq_ok.mp h
    obtain ⟨path, hpath, h⟩ := bind_eq_ok.mp h
    cases h
    refine ⟨rfl, rfl, fun slots => ?_⟩
    rw [hroot, hpath]
    rfl
  case h_4 =>
    cases h
    exact ⟨rfl, rfl, fun slots => rfl⟩

theorem applyInstructionWithoutResults_eq_ok :
    applyInstructionWithoutResults context instruction pc state linker =
      (.ok (next, inputs), linker') ↔
      ∃ stack middle slots,
        takeStackInputs context instruction pc
          (contractForOpcode instruction.opcode).stackIn state.stack linker =
          (.ok (stack, inputs), middle) ∧
        applySlotContract context instruction pc
          (contractForOpcode instruction.opcode).slots inputs state.slots middle =
          (.ok slots, linker') ∧
        applyRegionEffects instruction pc { state with stack := stack, slots := slots } =
          .ok next := by
  constructor
  · intro h
    obtain ⟨⟨first, values⟩, middle, htake, h⟩ := Mut.bind_eq_ok.mp h
    obtain ⟨⟨stack, values'⟩, middle', htaken, hpure⟩ := Mut.bind_eq_ok.mp htake
    obtain ⟨hpair, rfl⟩ := pure_eq_ok.mp hpure
    cases hpair
    obtain ⟨second, last, heffects, h⟩ := Mut.bind_eq_ok.mp h
    obtain ⟨slots, last', hslots, hpure⟩ := Mut.bind_eq_ok.mp heffects
    obtain ⟨rfl, rfl⟩ := pure_eq_ok.mp hpure
    obtain ⟨third, hregions, h⟩ := ofExcept_bind_eq_ok.mp h
    obtain ⟨hpair, rfl⟩ := pure_eq_ok.mp h
    cases hpair
    exact ⟨stack, middle, slots, htaken, hslots, hregions⟩
  rintro ⟨stack, middle, slots, htaken, hslots, hregions⟩
  refine Mut.bind_eq_ok.mpr ⟨({ state with stack := stack }, inputs), middle, ?_, ?_⟩
  · exact Mut.bind_eq_ok.mpr ⟨(stack, inputs), middle, htaken, Mut.pure_eq_ok.mpr ⟨rfl, rfl⟩⟩
  refine Mut.bind_eq_ok.mpr ⟨{ state with stack := stack, slots := slots }, linker', ?_, ?_⟩
  · exact Mut.bind_eq_ok.mpr ⟨slots, linker', hslots, Mut.pure_eq_ok.mpr ⟨rfl, rfl⟩⟩
  · exact ofExcept_bind_eq_ok.mpr ⟨next, hregions, pure_eq_ok.mpr ⟨rfl, rfl⟩⟩

theorem applyInstructionWithoutResults_framed (hframed : Framed linker context.frame state.slots)
    (h : applyInstructionWithoutResults context instruction pc state linker =
      (.ok (next, inputs), linker')) :
    next.slots.length = state.slots.length ∧ Framed linker' context.frame next.slots := by
  obtain ⟨stack, middle, slots, htaken, hslots, hregions⟩ :=
    applyInstructionWithoutResults_eq_ok.mp h
  have hgrows := (takeStackInputs_stable context instruction pc _ state.stack).grows htaken
  have hnext : next.slots = slots := (applyRegionEffects_frame hregions).2.1
  rw [hnext]
  exact applySlotContract_framed (hframed.mono hgrows) hslots

theorem applyInstructionWithoutResults_mono {low high next : MachineState} (hbelow : low ≤ high)
    (hlow : Framed later context.frame low.slots) (hhigh : Framed later context.frame high.slots)
    (haccepted : ∀ effect ∈ (contractForOpcode instruction.opcode).slots.effectList,
      WriteAccepted later context instruction pc high.slots effect)
    (h : applyInstructionWithoutResults context instruction pc low linker =
      (.ok (next, inputs), linker'))
    (hle : linker' ≤ later) :
    ∃ next', applyInstructionWithoutResults context instruction pc high later =
      (.ok (next', inputs), later) ∧
      next ≤ next' := by
  obtain ⟨hstack, hactive, hloans, hslotsBelow⟩ := hbelow
  obtain ⟨stack, middle, slots, htaken, hslots, hregions⟩ :=
    applyInstructionWithoutResults_eq_ok.mp h
  have hgrows := (applySlotContract_stable context instruction pc _ inputs low.slots).grows hslots
  have htaken' := (takeStackInputs_stable context instruction pc _ low.stack).again htaken
    (hgrows.trans hle)
  obtain ⟨slots', hslots', hslotsBelow'⟩ :=
    applySlotContract_mono hslotsBelow hlow hhigh haccepted hslots hle
  obtain ⟨-, hnextSlots, hregions'⟩ := applyRegionEffects_frame hregions
  have hstate : { low with stack := stack, slots := slots' } =
    { high with stack := stack, slots := slots' } := by
    rw [hactive, hloans]
  refine ⟨{ next with slots := slots' }, ?_, rfl, rfl, rfl, ?_⟩
  · refine applyInstructionWithoutResults_eq_ok.mpr ⟨stack, later, slots', ?_, hslots', ?_⟩
    · rw [← hstack]
      exact htaken'
    rw [← hstate]
    exact hregions' slots'
  rw [hnextSlots]
  exact hslotsBelow'

variable {state last : MachineState}

theorem applyInstruction_eq_ok :
    applyInstruction context instruction pc state linker = (.ok last, linker') ↔
      ∃ next inputs middle outputs,
        applyInstructionWithoutResults context instruction pc state linker =
          (.ok (next, inputs), middle) ∧
        collect (outputValues context instruction pc inputs)
        (contractForOpcode instruction.opcode).stackOut middle =
          (.ok outputs, linker') ∧
        last = { next with stack := next.stack ++ outputs.flatten } := by
  constructor
  · intro h
    obtain ⟨⟨next, inputs⟩, middle, happly, h⟩ := Mut.bind_eq_ok.mp h
    obtain ⟨outputs, last', houtputs, hpure⟩ := Mut.bind_eq_ok.mp h
    obtain ⟨rfl, rfl⟩ := pure_eq_ok.mp hpure
    exact ⟨next, inputs, middle, outputs, happly, houtputs, rfl⟩
  rintro ⟨next, inputs, middle, outputs, happly, houtputs, rfl⟩
  refine Mut.bind_eq_ok.mpr ⟨(next, inputs), middle, happly, ?_⟩
  exact Mut.bind_eq_ok.mpr ⟨outputs, linker', houtputs, Mut.pure_eq_ok.mpr ⟨rfl, rfl⟩⟩

theorem applyInstruction_framed (hframed : Framed linker context.frame state.slots)
    (h : applyInstruction context instruction pc state linker = (.ok last, linker')) :
    last.slots.length = state.slots.length ∧ Framed linker' context.frame last.slots := by
  obtain ⟨next, inputs, middle, outputs, happly, houtputs, rfl⟩ := applyInstruction_eq_ok.mp h
  obtain ⟨hlength, hnext⟩ := applyInstructionWithoutResults_framed hframed happly
  exact ⟨hlength, hnext.mono
    ((Stable.collect (outputValues_stable context instruction pc inputs)).grows houtputs)⟩

theorem applyInstruction_mono {low high last : MachineState} (hbelow : low ≤ high)
    (hlow : Framed later context.frame low.slots) (hhigh : Framed later context.frame high.slots)
    (haccepted : ∀ effect ∈ (contractForOpcode instruction.opcode).slots.effectList,
      WriteAccepted later context instruction pc high.slots effect)
    (h : applyInstruction context instruction pc low linker = (.ok last, linker'))
    (hle : linker' ≤ later) :
    ∃ last', applyInstruction context instruction pc high later = (.ok last', later) ∧
    last ≤ last' := by
  obtain ⟨next, inputs, middle, outputs, happly, houtputs, rfl⟩ := applyInstruction_eq_ok.mp h
  have hstable : Stable (collect (outputValues context instruction pc inputs)
      (contractForOpcode instruction.opcode).stackOut) :=
    .collect (outputValues_stable context instruction pc inputs)
  obtain ⟨next', happly', hnext⟩ :=
    applyInstructionWithoutResults_mono hbelow hlow hhigh haccepted happly
    ((hstable.grows houtputs).trans hle)
  obtain ⟨hstack, hactive, hloans, hslots⟩ := hnext
  refine ⟨{ next' with stack := next'.stack ++ outputs.flatten }, ?_, ?_, hactive, hloans, hslots⟩
  · exact applyInstruction_eq_ok.mpr
      ⟨next', inputs, later, outputs, happly', hstable.again houtputs hle, rfl⟩
  · rw [hstack]

end

end Skiff.Bytecode
