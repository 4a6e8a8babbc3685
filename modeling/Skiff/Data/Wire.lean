import Skiff.Data.Mut
import Mathlib.Algebra.Order.Ring.Nat

/-!
# Byte streams

Little-endian integers, writers that append to a buffer and keep what they wrote when
they fail, and readers that take a prefix of their input and thread a state.

`Grows` says that a writer only appends, whatever its outcome. `ReadsAt` says what a
reader does on an input that starts with given bytes; readers compose as their inputs
are concatenated.
-/

namespace Skiff.Wire

/-! ## Little-endian integers -/

/-- The lowest `width` bytes of a number. -/
def leBytes : Nat → Nat → List UInt8
  | 0, _ => []
  | width + 1, n => UInt8.ofNat n :: leBytes width (n / 256)

def leNat : List UInt8 → Nat
  | [] => 0
  | byte :: rest => byte.toNat + 256 * leNat rest

@[simp] theorem length_leBytes (width n : Nat) : (leBytes width n).length = width := by
  induction width generalizing n with
  | zero => rfl
  | succ width ih => simp [leBytes, ih]

theorem leNat_leBytes {width n : Nat} (h : n < 256 ^ width) : leNat (leBytes width n) = n := by
  induction width generalizing n with
  | zero =>
    have hzero : n = 0 := by simpa using h
    rw [hzero]
    rfl
  | succ width ih =>
    have hrest : n / 256 < 256 ^ width := by
      rw [Nat.div_lt_iff_lt_mul (by decide)]
      rwa [Nat.pow_succ] at h
    rw [leBytes, leNat, ih hrest, UInt8.toNat_ofNat']
    omega

variable (bytes : List UInt8)

theorem leNat_lt : leNat bytes < 256 ^ bytes.length := by
  induction bytes with
  | nil => simp [leNat]
  | cons byte rest ih =>
    have hbyte : byte.toNat < 256 := byte.toNat_lt
    rw [leNat, List.length_cons, Nat.pow_succ]
    omega

theorem leBytes_leNat : leBytes bytes.length (leNat bytes) = bytes := by
  induction bytes with
  | nil => rfl
  | cons byte rest ih =>
    have hbyte : byte.toNat < 256 := byte.toNat_lt
    have hrest : (byte.toNat + 256 * leNat rest) / 256 = leNat rest := by omega
    have hfirst : UInt8.ofNat (byte.toNat + 256 * leNat rest) = byte := by
      apply UInt8.toNat_inj.mp
      rw [UInt8.toNat_ofNat']
      omega
    rw [leNat, List.length_cons, leBytes, hrest, hfirst, ih]

/-! ## Writers -/

/-- Insertion at a position that the buffer had before something was appended. -/
theorem insertIdx_append {α : Type} (output bytes : List α) (byte : α) :
    (output ++ bytes).insertIdx output.length byte = output ++ byte :: bytes := by
  induction output with
  | nil => rfl
  | cons first rest ih => simpa using ih

/-- A computation that appends to a buffer. A failure keeps what was written. -/
abbrev Encode (ε α : Type) : Type := Mut (List UInt8) ε α

namespace Encode

open Mut

variable {ε α β : Type}

def write (bytes : List UInt8) : Encode ε Unit := fun output => (.ok (), output ++ bytes)

theorem write_eq_ok {bytes output written : List UInt8} {done : Unit} :
    (write bytes : Encode ε Unit) output = (.ok done, written) ↔ written = output ++ bytes := by
  simp [write, eq_comm]

/-- The computation only appends, also when it fails. -/
def Grows (m : Encode ε α) : Prop := ∀ output, ∃ bytes, (m output).2 = output ++ bytes

theorem grows_pure (a : α) :
    Grows (Pure.pure a : Encode ε α) := fun _ => ⟨[], by simp [Pure.pure, Mut.pure]⟩

theorem grows_fail (error : ε) : Grows (fail error : Encode ε α) := fun _ => ⟨[], by simp [fail]⟩

theorem grows_write : Grows (write bytes : Encode ε Unit) :=
  fun _ => ⟨bytes, rfl⟩

theorem grows_ofExcept (x : Except ε α) : Grows (ofExcept x) := by
  cases x with
  | ok a => exact grows_pure a
  | error error => exact grows_fail error

theorem Grows.bind {m : Encode ε α} {f : α → Encode ε β} (hm : Grows m) (hf : ∀ a, Grows (f a)) :
    Grows (m >>= f) := by
  intro output
  obtain ⟨first, hfirst⟩ := hm output
  change ∃ bytes, (Mut.bind m f output).2 = _
  unfold Mut.bind
  split
  case h_1 a middle heq =>
    obtain ⟨second, hsecond⟩ := hf a middle
    have hmiddle : middle = output ++ first := by rw [← hfirst, heq]
    exact ⟨first ++ second, by rw [hsecond, hmiddle, List.append_assoc]⟩
  case h_2 error middle heq => exact ⟨first, by rw [← hfirst, heq]⟩

theorem grows_each {write : α → Encode ε Unit} {items : List α}
    (h : ∀ item ∈ items, Grows (write item)) : Grows (each write items) := by
  induction items with
  | nil => exact grows_pure ()
  | cons item rest ih =>
    exact (h item (.head _)).bind fun _ => ih fun other hother => h other (.tail _ hother)

end Encode

/-! ## Readers -/

/-- A computation that takes bytes off its input and threads a state. -/
def Decode (ε σ α : Type) : Type := List UInt8 → σ → Except ε (α × List UInt8 × σ)

namespace Decode

variable {ε σ α β : Type}

protected def pure (a : α) : Decode ε σ α := fun input state => .ok (a, input, state)

protected def bind (m : Decode ε σ α) (f : α → Decode ε σ β) : Decode ε σ β := fun input state =>
  match m input state with
  | .ok (a, rest, next) => f a rest next
  | .error error => .error error

instance : Monad (Decode ε σ) where
  pure := Decode.pure
  bind := Decode.bind

instance : LawfulMonad (Decode ε σ) := by
  refine LawfulMonad.mk' _ ?_ ?_ ?_
  · intro α m
    funext input state
    change Decode.bind m (fun a => Decode.pure a) input state = m input state
    unfold Decode.bind
    cases m input state <;> rfl
  · intro α β a f
    rfl
  intro α β γ m f g
  funext input state
  change Decode.bind (Decode.bind m f) g input state =
    Decode.bind m (fun a => Decode.bind (f a) g) input state
  unfold Decode.bind
  cases m input state <;> rfl

def fail (error : ε) : Decode ε σ α := fun _ _ => .error error

def ofExcept : Except ε α → Decode ε σ α
  | .ok a => pure a
  | .error error => fail error

/-- Take the next `length` bytes. -/
def readExact (ended : ε) (length : Nat) : Decode ε σ (List UInt8) := fun input state =>
  if length ≤ input.length then .ok (input.take length, input.drop length, state)
  else .error ended

/-- Take the next byte. -/
def readByte (ended : ε) : Decode ε σ UInt8 := fun input state =>
  match input with
  | byte :: rest => .ok (byte, rest, state)
  | [] => .error ended

/-- The same reader, so many times. -/
def times (read : Decode ε σ α) : Nat → Decode ε σ (List α)
  | 0 => pure []
  | count + 1 => do
    let first ← read
    let rest ← times read count
    return first :: rest

/-- A loop that carries an accumulator, so many times. -/
def fold (read : β → Decode ε σ β) : Nat → β → Decode ε σ β
  | 0, accumulated => pure accumulated
  | count + 1, accumulated => do
    let next ← read accumulated
    fold read count next

/-- On every input that starts with `bytes` the reader takes exactly these. -/
def ReadsAt (m : Decode ε σ α) (state : σ) (bytes : List UInt8) (a : α) (next : σ) : Prop :=
  ∀ rest, m (bytes ++ rest) state = .ok (a, rest, next)

theorem readsAt_pure (a : α) (state : σ) :
    ReadsAt (Pure.pure a : Decode ε σ α) state [] a state := fun _ => rfl

variable {m : Decode ε σ α} {f : α → Decode ε σ β} {state middle next : σ}

variable {a : α} {b : β}

theorem ReadsAt.bind {first second : List UInt8} (hm : m.ReadsAt state first a middle)
    (hf : (f a).ReadsAt middle second b next) :
    (m >>= f).ReadsAt state (first ++ second) b next := by
  intro rest
  change Decode.bind m f _ _ = _
  rw [Decode.bind, List.append_assoc, hm]
  exact hf rest

variable {bytes : List UInt8}

/-- A step that reads nothing. -/
theorem ReadsAt.bind_nil (hm : m.ReadsAt state [] a middle)
    (hf : (f a).ReadsAt middle bytes b next) : (m >>= f).ReadsAt state bytes b next :=
  hm.bind hf

/-- A last step that reads nothing. -/
theorem ReadsAt.bind_last (hm : m.ReadsAt state bytes a middle)
    (hf : (f a).ReadsAt middle [] b next) : (m >>= f).ReadsAt state bytes b next := by
  have hreads : (m >>= f).ReadsAt state (bytes ++ []) b next := hm.bind hf
  rwa [List.append_nil] at hreads

theorem ReadsAt.map {state next : σ}
    {f : α → β} (hm : m.ReadsAt state bytes a next) (hf : f a = b) :
    (do let a ← m; return f a : Decode ε σ β).ReadsAt state bytes b next := by
  subst hf
  exact hm.bind_last (readsAt_pure (f a) next)

theorem readsAt_readByte (ended : ε) (byte : UInt8) (state : σ) :
    ReadsAt (readByte ended) state [byte] byte state := fun _ => rfl

theorem readsAt_readExact (ended : ε) {length : Nat} (h : bytes.length = length) (state : σ) :
    ReadsAt (readExact ended length) state bytes bytes state := by
  intro rest
  subst h
  simp [readExact]

theorem readsAt_ofExcept {x : Except ε α} (h : x = .ok a) (state : σ) :
    ReadsAt (ofExcept x) state [] a state := by
  subst h
  exact readsAt_pure a state

/-- Whatever the first reader returns, the second one returns too. -/
def Extends (m m' : Decode ε σ α) : Prop :=
  ∀ input state x, m input state = .ok x → m' input state = .ok x

theorem Extends.refl (m : Decode ε σ α) : Extends m m := fun _ _ _ h => h

theorem extends_fail (error : ε) (m : Decode ε σ α) : Extends (fail error) m := by
  intro input state x h
  cases h

theorem Extends.bind {m m' : Decode ε σ α} {f f' : α → Decode ε σ β} (hm : Extends m m')
    (hf : ∀ a, Extends (f a) (f' a)) : Extends (m >>= f) (m' >>= f') := by
  intro input state x h
  change Decode.bind m f input state = _ at h
  change Decode.bind m' f' input state = _
  unfold Decode.bind at h ⊢
  split at h
  case h_1 a rest next hok =>
    rw [hm input state _ hok]
    exact hf a rest next x h
  case h_2 => cases h

theorem extends_ite {c : Prop} [Decidable c] {m m' n n' : Decode ε σ α} (hm : Extends m m')
    (hn : Extends n n') : Extends (if c then m else n) (if c then m' else n') := by
  split
  · exact hm
  · exact hn

theorem extends_times {m m' : Decode ε σ α} (hm : Extends m m') (count : Nat) :
    Extends (times m count) (times m' count) := by
  induction count with
  | zero => exact .refl _
  | succ count ih => exact hm.bind fun _ => ih.bind fun _ => .refl _

theorem extends_fold {step step' : β → Decode ε σ β} (h : ∀ b, Extends (step b) (step' b))
    (count : Nat) (b : β) : Extends (fold step count b) (fold step' count b) := by
  induction count generalizing b with
  | zero => exact .refl _
  | succ count ih => exact (h b).bind fun next => ih next

end Decode

end Skiff.Wire
