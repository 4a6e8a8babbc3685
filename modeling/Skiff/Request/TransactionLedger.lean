import Skiff.Data.Run

/-!
# The request transaction ledger

`RequestTransactionLedger` (`runtime/request/src/memory_ledger.rs`) hands out the token of
the one database transaction of a request. All clones share one flag behind a mutex.
`begin` is one critical section. `finish_inner` is not: it marks the token, then clears the
flag under the lock, and runs the cleanup closure after the lock is released. Each of
these is a step of its own here, so that other threads, or the closure itself, can call
`begin` in between.
-/

namespace Skiff.Request

open List Run

/-- What is left to do for the thread that consumes a token. `dropped` is false inside
`finish`, where dropping the token calls `finish_inner` once more. -/
inductive TokenCall where
  | unused
  | lock (dropped : Bool)
  | takeCleanup (dropped : Bool)
  | inCleanup (dropped : Bool)
  | drop
  | ended
deriving DecidableEq

/-- A token with its consuming call. `given` is the closure it was made with. -/
structure RequestTransactionToken (κ : Type u) where
  given : κ
  cleanup : Option κ
  finished : Bool
  call : TokenCall

inductive TransactionLedgerError where
  | alreadyActive

/-- The shared flag, the tokens of all successful `begin` calls in order, and the closures
that were run, each under the number of its token. -/
structure TransactionLedger (κ : Type u) where
  active : Bool := false
  tokens : List (RequestTransactionToken κ) := []
  ran : List (Nat × κ) := []

namespace TokenCall

/-- `finish_inner` has returned. -/
def returned : Bool → TokenCall
  | true => ended
  | false => drop

/-- The flag of the ledger is still set for this token. -/
def HoldsFlag : TokenCall → Prop
  | unused | lock _ => True
  | takeCleanup _ | inCleanup _ | drop | ended => False

/-- The flag is cleared and the cleanup has not completed. -/
def CleanupPending : TokenCall → Prop
  | takeCleanup _ | inCleanup _ => True
  | unused | lock _ | drop | ended => False

/-- The interval from `begin` to the completion of the cleanup. -/
def Open (call : TokenCall) : Prop := call.HoldsFlag ∨ call.CleanupPending

/-- The closure was called. -/
def CleanupCalled : TokenCall → Prop
  | inCleanup _ | drop | ended => True
  | unused | lock _ | takeCleanup _ => False

instance : DecidablePred CleanupCalled := fun call => by
  cases call <;> unfold CleanupCalled <;> infer_instance

end TokenCall

namespace RequestTransactionToken

variable {κ : Type u}

/-- `finish_inner` up to its lock. -/
def finishInner (token : RequestTransactionToken κ) (dropped : Bool) : RequestTransactionToken κ :=
  if token.finished then { token with call := .returned dropped }
  else { token with finished := true, call := .lock dropped }

/-- The next step of the consuming call: the token, the flag, and the closure that is
called. -/
def advance (token : RequestTransactionToken κ) (active : Bool) :
    Option (RequestTransactionToken κ × Bool × Option κ) :=
  match token.call with
  | .unused => none
  | .lock dropped => some ({ token with call := .takeCleanup dropped }, false, none)
  | .takeCleanup dropped =>
    match token.cleanup with
    | some cleanup =>
      some ({ token with cleanup := none, call := .inCleanup dropped }, active, some cleanup)
    | none => some ({ token with call := .returned dropped }, active, none)
  -- A closure that panics ends here as well: unwinding drops the token.
  | .inCleanup dropped => some ({ token with call := .returned dropped }, active, none)
  | .drop => some (token.finishInner true, active, none)
  | .ended => none

end RequestTransactionToken

/-- One atomic step of some thread: a call of `begin`, the start of `finish` or of a drop,
and the next step of the call that consumes a token. -/
inductive TransactionEvent (κ : Type u) where
  | begin (cleanup : κ)
  | finish (id : Nat)
  | drop (id : Nat)
  | advance (id : Nat)

namespace TransactionLedger

variable {κ : Type u}

/-- `RequestTransactionLedger::begin`. -/
def begin (ledger : TransactionLedger κ) (cleanup : κ) :
    Except TransactionLedgerError (TransactionLedger κ) :=
  if ledger.active then .error .alreadyActive
  else .ok { ledger with
    active := true
    tokens := ledger.tokens ++ [⟨cleanup, some cleanup, false, .unused⟩] }

/-- Start to consume a token. A token is affine: only an unused one can be consumed. -/
def consume (ledger : TransactionLedger κ) (id : Nat) (dropped : Bool) :
    Option (TransactionLedger κ) :=
  match ledger.tokens[id]? with
  | none => none
  | some token =>
    if token.call = .unused then
      some { ledger with tokens := ledger.tokens.set id (token.finishInner dropped) }
    else none

def advance (ledger : TransactionLedger κ) (id : Nat) : Option (TransactionLedger κ) :=
  match ledger.tokens[id]? with
  | none => none
  | some token =>
    match token.advance ledger.active with
    | none => none
    | some (token, active, called) =>
      some {
        active := active
        tokens := ledger.tokens.set id token
        ran := ledger.ran ++ (called.map fun cleanup => (id, cleanup)).toList }

/-- A refused `begin` changes nothing. -/
def apply (ledger : TransactionLedger κ) : TransactionEvent κ → Option (TransactionLedger κ)
  | .begin cleanup =>
    match ledger.begin cleanup with
    | .ok next => some next
    | .error .alreadyActive => some ledger
  | .finish id => ledger.consume id false
  | .drop id => ledger.consume id true
  | .advance id => ledger.advance id

def Step (ledger : TransactionLedger κ) (event : TransactionEvent κ)
    (next : TransactionLedger κ) : Prop :=
  ledger.apply event = some next

abbrev Runs (events : List (TransactionEvent κ)) (ledger : TransactionLedger κ) : Prop :=
  Run Step {} events ledger

/-! ## What is asked of a ledger -/

/-- No two transactions are between their `begin` and the end of their cleanup. -/
def Exclusive (ledger : TransactionLedger κ) : Prop :=
  ∀ ⦃i j : Nat⦄ ⦃token token' : RequestTransactionToken κ⦄, ledger.tokens[i]? = some token →
    ledger.tokens[j]? = some token' → token.call.Open → token'.call.Open → i = j

/-- The closure of a token has run once when its call has passed it, and not before. -/
def CleansOnce (ledger : TransactionLedger κ) : Prop :=
  ∀ ⦃i : Nat⦄ ⦃token : RequestTransactionToken κ⦄, ledger.tokens[i]? = some token →
    ledger.ran.filter (fun r => r.1 = i) =
      if token.call.CleanupCalled then [(i, token.given)] else []

/-- A `begin` that finds the flag clear finds no cleanup that is still to run. -/
def BeginsClean (ledger : TransactionLedger κ) : TransactionEvent κ → Prop
  | .begin _ => ledger.active = false → ∀ token ∈ ledger.tokens, ¬ token.call.CleanupPending
  | .finish _ | .drop _ | .advance _ => True

end TransactionLedger

namespace RequestTransactionToken

variable {κ : Type u} {token next : RequestTransactionToken κ}

/-! ## One token -/

/-- The fields of a token agree with the place of its call. -/
def Shape (token : RequestTransactionToken κ) : Prop :=
  match token.call with
  | .unused => token.finished = false ∧ token.cleanup = some token.given
  | .lock _ | .takeCleanup _ => token.finished = true ∧ token.cleanup = some token.given
  | .inCleanup _ | .drop | .ended => token.finished = true ∧ token.cleanup = none

/-- A call of `finish_inner` on a finished token, or the start of a first one. -/
theorem finishInner_of_unused (hshape : token.Shape) (hunused : token.call = .unused)
    (dropped : Bool) :
    token.finishInner dropped = { token with finished := true, call := .lock dropped } := by
  simp only [Shape, hunused] at hshape
  simp [finishInner, hshape.1]

/-- The two kinds of steps: the flag is cleared, or the cleanup runs and the call returns. -/
theorem advance_cases (hshape : token.Shape) {active active' : Bool} {called : Option κ}
    (h : token.advance active = some (next, active', called)) :
    next.Shape ∧ next.given = token.given ∧ ¬ next.call.HoldsFlag ∧
      ((token.call.HoldsFlag ∧ next.call.CleanupPending ∧ ¬ token.call.CleanupCalled ∧
          ¬ next.call.CleanupCalled ∧ active' = false ∧ called = none) ∨
        (¬ token.call.HoldsFlag ∧ (next.call.CleanupPending → token.call.CleanupPending) ∧
          next.call.CleanupCalled ∧ active' = active ∧
          called = if token.call.CleanupCalled then none else some token.given)) := by
  obtain ⟨given, cleanup, finished, call⟩ := token
  cases call with
  | unused | ended => cases h
  | lock dropped =>
    cases h
    exact ⟨hshape, rfl, not_false, .inl ⟨trivial, trivial, not_false, not_false, rfl, rfl⟩⟩
  | takeCleanup dropped =>
    obtain ⟨hfinished, hcleanup⟩ := hshape
    dsimp only at hfinished hcleanup
    subst hfinished hcleanup
    cases h
    exact ⟨⟨rfl, rfl⟩, rfl, not_false, .inr ⟨not_false, id, trivial, rfl, rfl⟩⟩
  | inCleanup dropped =>
    cases h
    cases dropped with
    | true | false =>
      exact ⟨hshape, rfl, not_false, .inr ⟨not_false, False.elim, trivial, rfl, rfl⟩⟩
  | drop =>
    obtain ⟨hfinished, hcleanup⟩ := hshape
    dsimp only at hfinished hcleanup
    subst hfinished hcleanup
    cases h
    exact ⟨⟨rfl, rfl⟩, rfl, not_false, .inr ⟨not_false, False.elim, trivial, rfl, rfl⟩⟩

end RequestTransactionToken

namespace TransactionLedger

variable {κ : Type u} {ledger next : TransactionLedger κ}

/-! ## Every run -/

/-- What holds of a ledger after any steps: each token is in shape, the flag is set for at
most one token and only while it is set, and each cleanup was run at most once. -/
structure Sound (ledger : TransactionLedger κ) : Prop where
  shapes : ∀ ⦃i : Nat⦄ ⦃token : RequestTransactionToken κ⦄, ledger.tokens[i]? = some token →
    token.Shape
  flagged : ∀ ⦃i : Nat⦄ ⦃token : RequestTransactionToken κ⦄, ledger.tokens[i]? = some token →
    token.call.HoldsFlag → ledger.active = true
  sole : ∀ ⦃i j : Nat⦄ ⦃token token' : RequestTransactionToken κ⦄, ledger.tokens[i]? = some token →
    ledger.tokens[j]? = some token' → token.call.HoldsFlag → token'.call.HoldsFlag → i = j
  cleans : ledger.CleansOnce
  numbered : ∀ r ∈ ledger.ran, r.1 < ledger.tokens.length

theorem sound_empty : ({} : TransactionLedger κ).Sound where
  shapes := by simp
  flagged := by simp
  sole := by simp
  cleans := by simp [CleansOnce]
  numbered := by simp

/-- The tokens after one is appended. -/
theorem getElem?_append_one {α : Type u} {xs : List α} {y x : α} {i : Nat} :
    (xs ++ [y])[i]? = some x ↔ xs[i]? = some x ∨ i = xs.length ∧ x = y := by
  obtain hi | rfl | hi := Nat.lt_trichotomy i xs.length
  · rw [getElem?_append_left hi]
    simp only [hi.ne, false_and, or_false]
  · rw [getElem?_concat_length, getElem?_eq_none (Nat.le_refl _)]
    simp [eq_comm]
  rw [getElem?_eq_none (by simp; omega), getElem?_eq_none (Nat.le_of_lt hi)]
  simp [hi.ne']

/-- The tokens after one is replaced. -/
theorem getElem?_set_some {α : Type u} {xs : List α} {old y x : α} {i j : Nat}
    (hold : xs[i]? = some old) :
    (xs.set i y)[j]? = some x ↔ j = i ∧ x = y ∨ j ≠ i ∧ xs[j]? = some x := by
  obtain ⟨hlt, -⟩ := List.getElem?_eq_some_iff.mp hold
  rw [List.getElem?_set]
  by_cases hj : i = j
  · subst hj
    simp [hlt, eq_comm]
  · simp [hj, Ne.symm hj]

variable {cleanup : κ}

theorem begin_eq_ok (h : ledger.begin cleanup = .ok next) :
    ledger.active = false ∧ next = { ledger with
      active := true
      tokens := ledger.tokens ++ [⟨cleanup, some cleanup, false, .unused⟩] } := by
  unfold begin at h
  split at h
  case isTrue => cases h
  case isFalse hactive =>
    cases h
    exact ⟨by simpa using hactive, rfl⟩

variable {id : Nat}

variable {dropped : Bool} {event : TransactionEvent κ}

theorem consume_eq_some (h : ledger.consume id dropped = some next) :
    ∃ token, ledger.tokens[id]? = some token ∧ token.call = .unused ∧
      next = { ledger with tokens := ledger.tokens.set id (token.finishInner dropped) } := by
  unfold consume at h
  cases hget : ledger.tokens[id]? with
  | none => simp [hget] at h
  | some token =>
    simp only [hget] at h
    split at h
    case isTrue hunused =>
      cases h
      exact ⟨token, rfl, hunused, rfl⟩
    case isFalse => cases h

theorem advance_eq_some (h : ledger.advance id = some next) :
    ∃ token moved active called, ledger.tokens[id]? = some token ∧
      token.advance ledger.active = some (moved, active, called) ∧
      next = {
        active := active
        tokens := ledger.tokens.set id moved
        ran := ledger.ran ++ (called.map fun cleanup => (id, cleanup)).toList } := by
  unfold advance at h
  cases hget : ledger.tokens[id]? with
  | none => simp [hget] at h
  | some token =>
    cases hmove : token.advance ledger.active with
    | none => simp [hget, hmove] at h
    | some result =>
      obtain ⟨moved, active, called⟩ := result
      simp only [hget, hmove, Option.some.injEq] at h
      exact ⟨token, moved, active, called, rfl, hmove, h.symm⟩

theorem Sound.begin (hs : ledger.Sound) (h : ledger.begin cleanup = .ok next) : next.Sound := by
  obtain ⟨hactive, rfl⟩ := begin_eq_ok h
  -- The flag was clear, so no older token holds it.
  have hnone : ∀ ⦃i : Nat⦄ ⦃token : RequestTransactionToken κ⦄, ledger.tokens[i]? = some token →
      ¬ token.call.HoldsFlag := by
    intro i token hget hholds
    rw [hs.flagged hget hholds] at hactive
    cases hactive
  constructor
  · intro i token hget
    obtain hget | ⟨-, rfl⟩ := getElem?_append_one.mp hget
    · exact hs.shapes hget
    · exact ⟨rfl, rfl⟩
  · intro i token _ _
    rfl
  · intro i j token token' hi hj hti htj
    obtain hi | ⟨rfl, -⟩ := getElem?_append_one.mp hi
    · exact absurd hti (hnone hi)
    obtain hj | ⟨rfl, -⟩ := getElem?_append_one.mp hj
    · exact absurd htj (hnone hj)
    rfl
  · intro i token hget
    obtain hget | ⟨rfl, rfl⟩ := getElem?_append_one.mp hget
    · exact hs.cleans hget
    rw [filter_eq_nil_iff.mpr]
    · rfl
    intro r hr
    have hlt := hs.numbered r hr
    simp only [decide_eq_true_eq]
    omega
  intro r hr
  have hlt := hs.numbered r hr
  rw [length_append, length_singleton]
  omega

theorem Sound.consume (hs : ledger.Sound)
    (h : ledger.consume id dropped = some next) : next.Sound := by
  obtain ⟨token, hid, hunused, rfl⟩ := consume_eq_some h
  have hfinish := RequestTransactionToken.finishInner_of_unused (hs.shapes hid) hunused dropped
  have hshape := hs.shapes hid
  have hcleans := hs.cleans hid
  have hholds : token.call.HoldsFlag := by
    rw [hunused]
    trivial
  simp only [RequestTransactionToken.Shape, hunused] at hshape
  simp only [hunused] at hcleans
  rw [hfinish]
  constructor
  · intro i other hget
    obtain ⟨rfl, rfl⟩ | ⟨-, hget⟩ := (getElem?_set_some hid).mp hget
    · exact ⟨rfl, hshape.2⟩
    · exact hs.shapes hget
  · intro i other hget hother
    obtain ⟨rfl, rfl⟩ | ⟨-, hget⟩ := (getElem?_set_some hid).mp hget
    · exact hs.flagged hid hholds
    · exact hs.flagged hget hother
  · intro i j one two hi hj hone htwo
    obtain ⟨rfl, rfl⟩ | ⟨-, hi'⟩ := (getElem?_set_some hid).mp hi
    · obtain ⟨rfl, rfl⟩ | ⟨-, hj'⟩ := (getElem?_set_some hid).mp hj
      · rfl
      · exact hs.sole hid hj' hholds htwo
    obtain ⟨rfl, rfl⟩ | ⟨-, hj'⟩ := (getElem?_set_some hid).mp hj
    · exact hs.sole hi' hid hone hholds
    · exact hs.sole hi' hj' hone htwo
  · intro i other hget
    obtain ⟨rfl, rfl⟩ | ⟨-, hget⟩ := (getElem?_set_some hid).mp hget
    · exact hcleans
    · exact hs.cleans hget
  intro r hr
  rw [length_set]
  exact hs.numbered r hr

theorem Sound.advance (hs : ledger.Sound) (h : ledger.advance id = some next) : next.Sound := by
  obtain ⟨token, moved, active, called, hid, hmove, rfl⟩ := advance_eq_some h
  obtain ⟨hshape, hgiven, hnot, hkind⟩ :=
    RequestTransactionToken.advance_cases (hs.shapes hid) hmove
  constructor
  · intro i other hget
    obtain ⟨rfl, rfl⟩ | ⟨-, hget⟩ := (getElem?_set_some hid).mp hget
    · exact hshape
    · exact hs.shapes hget
  · intro i other hget hother
    obtain ⟨rfl, rfl⟩ | ⟨hne, hget⟩ := (getElem?_set_some hid).mp hget
    · exact absurd hother hnot
    obtain ⟨hholds, -⟩ | ⟨-, -, -, hactive, -⟩ := hkind
    · exact absurd (hs.sole hget hid hother hholds) hne
    show active = true
    rw [hactive]
    exact hs.flagged hget hother
  · intro i j one two hi hj hone htwo
    obtain ⟨rfl, rfl⟩ | ⟨-, hi⟩ := (getElem?_set_some hid).mp hi
    · exact absurd hone hnot
    obtain ⟨rfl, rfl⟩ | ⟨-, hj⟩ := (getElem?_set_some hid).mp hj
    · exact absurd htwo hnot
    exact hs.sole hi hj hone htwo
  · intro i other hget
    show (ledger.ran ++ _).filter _ = _
    rw [filter_append]
    obtain ⟨rfl, rfl⟩ | ⟨hne, hget⟩ := (getElem?_set_some hid).mp hget
    · rw [hs.cleans hid, hgiven]
      obtain ⟨-, -, hbefore, hafter, -, rfl⟩ | ⟨-, -, hafter, -, rfl⟩ := hkind
      · simp [hbefore, hafter]
      by_cases hbefore : token.call.CleanupCalled
      · simp [hbefore, hafter]
      · simp [hbefore, hafter]
    rw [hs.cleans hget, filter_eq_nil_iff.mpr, append_nil]
    intro r hr
    cases called with
    | none => cases hr
    | some cleanup =>
      obtain rfl := mem_singleton.mp hr
      simpa using Ne.symm hne
  intro r hr
  rw [length_set]
  obtain hr | hr := mem_append.mp hr
  · exact hs.numbered r hr
  obtain ⟨hlt, -⟩ := List.getElem?_eq_some_iff.mp hid
  cases called with
  | none => cases hr
  | some cleanup =>
    obtain rfl := mem_singleton.mp hr
    exact hlt

/-- A `begin` is refused while the flag is set, and opens a transaction otherwise. -/
theorem step_begin (h : ledger.Step (.begin cleanup) next) :
    (ledger.active = true ∧ next = ledger) ∨ ledger.begin cleanup = .ok next := by
  have happly : ledger.apply (.begin cleanup) = some next := h
  simp only [apply] at happly
  cases hbegin : ledger.begin cleanup with
  | error e =>
    cases e
    simp only [hbegin, Option.some.injEq] at happly
    refine .inl ⟨?_, happly.symm⟩
    unfold begin at hbegin
    split at hbegin
    case isTrue hactive => exact hactive
    case isFalse => cases hbegin
  | ok after =>
    simp only [hbegin, Option.some.injEq] at happly
    exact .inr (congrArg _ happly)

theorem Sound.step (hs : ledger.Sound) (h : ledger.Step event next) : next.Sound := by
  cases event with
  | begin cleanup =>
    obtain ⟨-, rfl⟩ | hbegin := step_begin h
    · exact hs
    · exact hs.begin hbegin
  | finish id | drop id => exact hs.consume h
  | advance id => exact hs.advance h

variable {events : List (TransactionEvent κ)}

theorem sound_runs (h : Runs events ledger) : ledger.Sound :=
  invariant (fun hs hstep => hs.step hstep) h sound_empty

theorem step_functional : Functional (Step (κ := κ)) := by
  intro s e t t' h h'
  exact Option.some.inj (h.symm.trans h')

/-! ## When transactions exclude each other -/

/-- The steps of a run in which no `begin` comes between the end of a transaction's flag
and the end of its cleanup. -/
def CleanStep (ledger : TransactionLedger κ) (event : TransactionEvent κ)
    (next : TransactionLedger κ) : Prop :=
  ledger.Step event next ∧ ledger.BeginsClean event

/-- A token may be replaced by one that is open only if it was. -/
theorem Exclusive.set (he : ledger.Exclusive)
    {token moved : RequestTransactionToken κ} (hid : ledger.tokens[id]? = some token)
    (hopen : moved.call.Open → token.call.Open)
    (hnext : next.tokens = ledger.tokens.set id moved) : next.Exclusive := by
  intro i j one two hi hj hone htwo
  rw [hnext] at hi hj
  obtain ⟨rfl, rfl⟩ | ⟨-, hi'⟩ := (getElem?_set_some hid).mp hi
  · obtain ⟨rfl, rfl⟩ | ⟨-, hj'⟩ := (getElem?_set_some hid).mp hj
    · rfl
    · exact he hid hj' (hopen hone) htwo
  obtain ⟨rfl, rfl⟩ | ⟨-, hj'⟩ := (getElem?_set_some hid).mp hj
  · exact he hi' hid hone (hopen htwo)
  · exact he hi' hj' hone htwo

theorem Exclusive.consume (he : ledger.Exclusive)
    (h : ledger.consume id dropped = some next) : next.Exclusive := by
  obtain ⟨token, hid, hunused, rfl⟩ := consume_eq_some h
  refine he.set hid ?_ rfl
  intro _
  rw [hunused]
  exact .inl trivial

theorem Exclusive.advance (he : ledger.Exclusive) (hs : ledger.Sound)
    (h : ledger.advance id = some next) : next.Exclusive := by
  obtain ⟨token, moved, active, called, hid, hmove, rfl⟩ := advance_eq_some h
  obtain ⟨-, -, hnot, hkind⟩ := RequestTransactionToken.advance_cases (hs.shapes hid) hmove
  refine he.set hid ?_ rfl
  rintro (hholds | hpending)
  · exact absurd hholds hnot
  obtain ⟨hholds, -⟩ | ⟨-, hbefore, -⟩ := hkind
  · exact .inl hholds
  · exact .inr (hbefore hpending)

theorem Exclusive.step (hs : ledger.Sound) (he : ledger.Exclusive)
    (h : ledger.CleanStep event next) : next.Exclusive := by
  obtain ⟨hstep, hclean⟩ := h
  cases event with
  | begin cleanup =>
    obtain ⟨-, rfl⟩ | hbegin := step_begin hstep
    · exact he
    obtain ⟨hactive, rfl⟩ := begin_eq_ok hbegin
    -- No older token is open: the flag is clear and no cleanup is pending.
    have hnone : ∀ ⦃i : Nat⦄ ⦃token : RequestTransactionToken κ⦄,
        ledger.tokens[i]? = some token → ¬ token.call.Open := by
      rintro i token hget (hholds | hpending)
      · rw [hs.flagged hget hholds] at hactive
        cases hactive
      · exact hclean hactive token (mem_of_getElem? hget) hpending
    intro i j token token' hi hj hti htj
    obtain hi | ⟨rfl, -⟩ := getElem?_append_one.mp hi
    · exact absurd hti (hnone hi)
    obtain hj | ⟨rfl, -⟩ := getElem?_append_one.mp hj
    · exact absurd htj (hnone hj)
    rfl
  | finish id | drop id => exact he.consume hstep
  | advance id => exact he.advance hs hstep

theorem clean_exclusive (h : Run CleanStep {} events ledger) : ledger.Sound ∧ ledger.Exclusive := by
  refine invariant (P := fun ledger : TransactionLedger κ => ledger.Sound ∧ ledger.Exclusive)
    ?_ h ⟨sound_empty, ?_⟩
  · intro s e t hs hstep
    exact ⟨hs.1.step hstep.1, hs.2.step hs.1 hstep⟩
  intro i j token token' hi
  simp at hi

/-- A `begin` during a pending cleanup makes two transactions overlap. -/
theorem not_exclusive_of_begin (h : ledger.Step (.begin cleanup) next)
    (hclean : ¬ ledger.BeginsClean (.begin cleanup)) : ¬ next.Exclusive := by
  simp only [BeginsClean, not_forall, not_not] at hclean
  obtain ⟨hactive, token, hmem, hpending⟩ := hclean
  obtain ⟨hset, -⟩ | hbegin := step_begin h
  · rw [hactive] at hset
    cases hset
  obtain ⟨-, rfl⟩ := begin_eq_ok hbegin
  obtain ⟨i, hi⟩ := List.getElem?_of_mem hmem
  obtain ⟨hlt, -⟩ := List.getElem?_eq_some_iff.mp hi
  intro he
  have hsame := he (getElem?_append_one.mpr (.inl hi)) (getElem?_append_one.mpr (.inr ⟨rfl, rfl⟩))
    (.inr hpending) (.inl trivial)
  omega

theorem clean_of_exclusive (h : Runs events ledger)
    (he : ∀ u ∈ visited Step {} events, u.Exclusive) : Run CleanStep {} events ledger := by
  refine history (P := fun (es : List (TransactionEvent κ)) (s : TransactionLedger κ) =>
    (∀ u ∈ visited Step {} es, u.Exclusive) → Run CleanStep {} es s) ?_ ?_ h he
  · intro _
    exact .nil _
  intro es s e t hrun ih hstep hall
  rw [visited_snoc step_functional hrun hstep] at hall
  have hbefore := ih fun u hu => hall u (.inr hu)
  refine snoc_iff.mpr ⟨s, hbefore, hstep, ?_⟩
  by_contra hnot
  have hexclusive : t.Exclusive := hall t (.inl rfl)
  cases e with
  | begin cleanup => exact not_exclusive_of_begin hstep hnot hexclusive
  | finish id | drop id | advance id => exact hnot trivial

/-- In every state of a run the transactions exclude each other, cleanup included, and each
cleanup has run exactly once when its token is consumed, if and only if no `begin` of the
run found the flag clear while a cleanup was still to complete. -/
theorem transactions_exclude_iff (h : Runs events ledger) :
    (∀ u ∈ visited Step {} events, u.Exclusive ∧ u.CleansOnce) ↔
      Run CleanStep {} events ledger := by
  constructor
  · intro hall
    exact clean_of_exclusive h fun u hu => (hall u hu).1
  · rintro hclean u ⟨before, ⟨after, rfl⟩, hu⟩
    obtain ⟨v, hv, -⟩ := append_iff.mp hclean
    obtain rfl := functional step_functional hu (hv.mono fun hstep => hstep.1)
    exact ⟨(clean_exclusive hv).2, (sound_runs hu).cleans⟩

/-- A transaction from its `begin` to the end of its cleanup, and the `begin` of the next one. -/
def cleanedBetween : List (TransactionEvent Unit) :=
  [.begin (), .finish 0, .advance 0, .advance 0, .advance 0, .advance 0, .begin ()]

theorem transactions_exclude_iff_begin_twice : ∃ ledger, Runs cleanedBetween ledger ∧
    ∀ u ∈ visited Step {} cleanedBetween, u.Exclusive ∧ u.CleansOnce := by
  have hclean : Run CleanStep ({} : TransactionLedger Unit) cleanedBetween
      { active := true
        tokens := [⟨(), none, true, .ended⟩, ⟨(), some (), false, .unused⟩]
        ran := [(0, ())] } := by
    refine .cons ⟨rfl, fun _ _ hmem => absurd hmem not_mem_nil⟩ (.cons ⟨rfl, trivial⟩ ?_)
    refine .cons ⟨rfl, trivial⟩ (.cons ⟨rfl, trivial⟩ (.cons ⟨rfl, trivial⟩ ?_))
    refine .cons ⟨rfl, trivial⟩ (.cons ⟨rfl, fun _ token hmem => ?_⟩ (.nil _))
    rw [mem_singleton.mp hmem]
    exact not_false
  have hrun := hclean.mono fun hstep => hstep.1
  exact ⟨_, hrun, (transactions_exclude_iff hrun).mpr hclean⟩

/-- The first token clears the flag, another thread begins, and the first cleanup is still
to run. -/
theorem begin_before_cleanup :
    ¬ ∀ events (ledger : TransactionLedger Unit), Runs events ledger → ledger.Exclusive := by
  intro h
  have hrun : Runs [.begin (), .finish 0, .advance 0, .begin ()]
      ({ active := true, tokens :=
        [⟨(), some (), true, .takeCleanup false⟩, ⟨(), some (), false, .unused⟩] } :
        TransactionLedger Unit) :=
    .cons rfl (.cons rfl (.cons rfl (.cons rfl (.nil _))))
  have hsame := @h _ _ hrun 0 1 _ _ rfl rfl (.inr trivial) (.inl trivial)
  exact absurd hsame (by decide)

end TransactionLedger
end Skiff.Request
