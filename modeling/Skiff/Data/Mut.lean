import Mathlib.Tactic.Common

/-!
# Computations over a mutable state

A computation takes the state and returns a result or an error, with the state it
leaves. A failure keeps whatever was changed before it, as a Rust method that takes
`&mut self` and returns early does; nothing is rolled back.

`bind_eq_ok` and `bind_eq_error` take a sequence apart. A `Contract` has a postcondition
for success and one for failure; its rules follow the constructs.
-/

namespace Skiff

open List

theorem bind_eq_ok {ε α β : Type} {x : Except ε α} {f : α → Except ε β} {b : β} :
    (x >>= f) = .ok b ↔ ∃ a, x = .ok a ∧ f a = .ok b := by
  cases x <;> simp [bind, Except.bind]

theorem bind_eq_error {ε α β : Type} {x : Except ε α} {f : α → Except ε β} {error : ε} :
    (x >>= f) = .error error ↔ x = .error error ∨ ∃ a, x = .ok a ∧ f a = .error error := by
  cases x <;> simp [bind, Except.bind]

/-- A loop that succeeds did so for every item, in order. -/
theorem forall₂_of_mapM {ε α β : Type} {f : α → Except ε β} {items : List α} {results : List β}
    (h : items.mapM f = .ok results) :
    Forall₂ (fun item result => f item = .ok result) items results := by
  induction items generalizing results with
  | nil =>
    cases h
    exact .nil
  | cons item rest ih =>
    rw [mapM_cons] at h
    obtain ⟨first, hfirst, h⟩ := bind_eq_ok.mp h
    obtain ⟨others, hothers, h⟩ := bind_eq_ok.mp h
    cases h
    exact .cons hfirst (ih hothers)

theorem exists_of_mem_right {α β : Type} {R : α → β → Prop} {items : List α} {results : List β}
    (h : Forall₂ R items results) {result : β} (hmem : result ∈ results) :
    ∃ item ∈ items, R item result := by
  induction h with
  | nil => exact absurd hmem not_mem_nil
  | @cons item first items results hfirst hrest ih =>
    obtain rfl | hmem := mem_cons.mp hmem
    · exact ⟨item, (.head _), hfirst⟩
    obtain ⟨other, hother, hR⟩ := ih hmem
    exact ⟨other, .tail _ hother, hR⟩

theorem mapM_eq_map {ε α β : Type} {f : α → Except ε β} {items : List α} {results : List β}
    {g : α → β} (h : items.mapM f = .ok results)
    (hg : ∀ item ∈ items, ∀ result, f item = .ok result → result = g item) :
    results = items.map g := by
  have hall := forall₂_of_mapM h
  clear h
  induction hall with
  | nil => rfl
  | cons hfirst _ ih =>
    rw [map_cons, ← hg _ mem_cons_self _ hfirst, ← ih fun item hitem => hg item (.tail _ hitem)]

theorem mapM_eq_error {ε α β : Type} {f : α → Except ε β} {items : List α} {error : ε}
    (h : items.mapM f = .error error) : ∃ item ∈ items, f item = .error error := by
  induction items with
  | nil => cases h
  | cons item rest ih =>
    rw [mapM_cons] at h
    obtain hfirst | ⟨first, -, h⟩ := bind_eq_error.mp h
    · exact ⟨item, (.head _), hfirst⟩
    obtain hrest | ⟨_, _, h⟩ := bind_eq_error.mp h
    · obtain ⟨other, hmem, hother⟩ := ih hrest
      exact ⟨other, .tail _ hmem, hother⟩
    · cases h

/-- A computation that may change a state and may fail. -/
def Mut (σ ε α : Type) : Type := σ → Except ε α × σ

namespace Mut

variable {σ ε α β : Type}

protected def pure (a : α) : Mut σ ε α := fun state => (.ok a, state)

protected def bind (m : Mut σ ε α) (f : α → Mut σ ε β) : Mut σ ε β := fun state =>
  match m state with
  | (.ok a, next) => f a next
  | (.error error, next) => (.error error, next)

instance : Monad (Mut σ ε) where
  pure := Mut.pure
  bind := Mut.bind

def fail (error : ε) : Mut σ ε α := fun state => (.error error, state)

/-- Use a result that needs no state. -/
def ofExcept : Except ε α → Mut σ ε α
  | .ok a => pure a
  | .error error => fail error

/-- Look at the state without changing it. -/
def read (f : σ → Except ε α) : Mut σ ε α := fun state => (f state, state)

def modify (f : σ → σ) : Mut σ ε Unit := fun state => (.ok (), f state)

/-- Run another computation when the first one fails, in the state that it left. -/
def onError (m : Mut σ ε α) (handler : ε → Mut σ ε α) : Mut σ ε α := fun state =>
  match m state with
  | (.ok a, next) => (.ok a, next)
  | (.error error, next) => handler error next

/-- A loop over a list. -/
def each (step : α → Mut σ ε Unit) : List α → Mut σ ε Unit
  | [] => pure ()
  | item :: rest => do
    step item
    each step rest

/-- Run a computation on every item and collect the results. -/
def collect (f : α → Mut σ ε β) : List α → Mut σ ε (List β)
  | [] => pure []
  | item :: rest => do
    let first ← f item
    let others ← collect f rest
    pure (first :: others)

variable {f : α → Mut σ ε β} {s t : σ} {m : Mut σ ε α}

theorem bind_eq_ok {b : β} :
    (m >>= f) s = (.ok b, t) ↔ ∃ a next, m s = (.ok a, next) ∧ f a next = (.ok b, t) := by
  change Mut.bind m f s = _ ↔ _
  unfold Mut.bind
  split
  case h_1 a next hm =>
    constructor
    · intro hf
      exact ⟨a, next, hm, hf⟩
    rintro ⟨a', next', hm', hf⟩
    rw [hm] at hm'
    cases hm'
    exact hf
  case h_2 error next hm =>
    constructor
    · intro hf
      cases hf
    rintro ⟨a', next', hm', hf⟩
    rw [hm] at hm'
    cases hm'

theorem bind_eq_error {error : ε} :
    (m >>= f) s = (.error error, t) ↔
      m s = (.error error, t) ∨ ∃ a next, m s = (.ok a, next) ∧ f a next = (.error error, t) := by
  change Mut.bind m f s = _ ↔ _
  unfold Mut.bind
  split
  case h_1 a next hm =>
    constructor
    · intro hf
      exact .inr ⟨a, next, hm, hf⟩
    rintro (hm' | ⟨a', next', hm', hf⟩)
    · rw [hm] at hm'
      cases hm'
    rw [hm] at hm'
    cases hm'
    exact hf
  case h_2 error' next hm =>
    constructor
    · intro hf
      cases hf
      exact .inl hm
    rintro (hm' | ⟨a', next', hm', hf⟩)
    · rw [hm] at hm'
      cases hm'
      rfl
    rw [hm] at hm'
    cases hm'

/-- Whatever a sequence returns, its first part failed with that or succeeded. -/
theorem bind_cases {r : Except ε β} (h : (m >>= f) s = (r, t)) :
    (∃ error, r = .error error ∧ m s = (.error error, t)) ∨
      ∃ a next, m s = (.ok a, next) ∧ f a next = (r, t) := by
  cases r with
  | ok b => exact .inr (bind_eq_ok.mp h)
  | error error =>
    obtain hm | hf := bind_eq_error.mp h
    · exact .inl ⟨error, rfl, hm⟩
    · exact .inr hf

/-- A failed look changes nothing. -/
theorem read_cases {f : σ → Except ε α} {g : α → Mut σ ε β} {r : Except ε β}
    (h : (read f >>= g) s = (r, t)) :
    (∃ error, r = .error error ∧ f s = .error error ∧ t = s) ∨ ∃ a, f s = .ok a ∧
    g a s = (r, t) := by
  obtain ⟨error, hr, hf⟩ | ⟨a, next, hf, hg⟩ := bind_cases h
  · obtain ⟨hfs, hs⟩ := Prod.mk.inj hf
    exact .inl ⟨error, hr, hfs, hs.symm⟩
  obtain ⟨hfs, rfl⟩ := Prod.mk.inj hf
  exact .inr ⟨a, hfs, hg⟩

variable {g : σ → σ}

theorem modify_bind {f : Unit → Mut σ ε β} {s : σ} : (modify g >>= f) s = f () (g s) := rfl

theorem pure_eq_ok {a b : α} : (Pure.pure a : Mut σ ε α) s = (.ok b, t) ↔ a = b ∧ t = s := by
  change (Except.ok a, s) = (Except.ok b, t) ↔ _
  simp [eq_comm]

theorem ofExcept_eq_ok {x : Except ε α} {a : α} :
    ofExcept x s = (.ok a, t) ↔ x = .ok a ∧ t = s := by
  cases x <;> simp [ofExcept, pure, Mut.pure, fail, eq_comm]

/-- A sequence that starts with a result goes on in the same state. -/
theorem ofExcept_bind_eq_ok {x : Except ε α} {b : β} :
    (ofExcept x >>= f) s = (.ok b, t) ↔ ∃ a, x = .ok a ∧ f a s = (.ok b, t) := by
  rw [bind_eq_ok]
  constructor
  · rintro ⟨a, next, hfirst, hf⟩
    obtain ⟨hx, rfl⟩ := ofExcept_eq_ok.mp hfirst
    exact ⟨a, hx, hf⟩
  rintro ⟨a, hx, hf⟩
  exact ⟨a, s, ofExcept_eq_ok.mpr ⟨hx, rfl⟩, hf⟩

theorem read_bind_eq_ok {g : σ → Except ε α} {b : β} :
    (read g >>= f) s = (.ok b, t) ↔ ∃ a, g s = .ok a ∧ f a s = (.ok b, t) := by
  rw [bind_eq_ok]
  constructor
  · rintro ⟨a, next, hfirst, hf⟩
    obtain ⟨hg, rfl⟩ := Prod.mk.inj hfirst
    exact ⟨a, hg, hf⟩
  rintro ⟨a, hg, hf⟩
  exact ⟨a, s, Prod.ext hg rfl, hf⟩

/-! ## Contracts -/

/-- From states with `P`, a success ends in `Q` and a failure in `E`. -/
def Contract (P : σ → Prop) (m : Mut σ ε α) (Q : α → σ → Prop) (E : σ → Prop) : Prop :=
  ∀ s, P s → (∀ a t, m s = (.ok a, t) → Q a t) ∧ ∀ error t, m s = (.error error, t) → E t

namespace Contract

variable {P P' : σ → Prop} {Q Q' : α → σ → Prop} {R : β → σ → Prop} {E E' : σ → Prop}
variable {m : Mut σ ε α} {f : α → Mut σ ε β}

theorem consequence (h : Contract P m Q E) (pre : ∀ s, P' s → P s)
    (post : ∀ a t, Q a t → Q' a t) (failed : ∀ t, E t → E' t) : Contract P' m Q' E' := by
  intro s hs
  obtain ⟨hok, herror⟩ := h s (pre s hs)
  exact ⟨fun a t hm => post a t (hok a t hm), fun error t hm => failed t (herror error t hm)⟩

theorem bind (hm : Contract P m Q E) (hf : ∀ a, Contract (Q a) (f a) R E) :
    Contract P (m >>= f) R E := by
  intro s hs
  constructor
  · intro b t hok
    obtain ⟨a, next, hfirst, hsecond⟩ := bind_eq_ok.mp hok
    exact (hf a next ((hm s hs).1 a next hfirst)).1 b t hsecond
  intro error t herror
  obtain hfirst | ⟨a, next, hfirst, hsecond⟩ := bind_eq_error.mp herror
  · exact (hm s hs).2 error t hfirst
  · exact (hf a next ((hm s hs).1 a next hfirst)).2 error t hsecond

theorem pure (a : α) (h : ∀ s, P s → Q a s) : Contract P (Pure.pure a : Mut σ ε α) Q E := by
  intro s hs
  constructor
  · intro b t hok
    obtain ⟨rfl, rfl⟩ := pure_eq_ok.mp hok
    exact h t hs
  intro error t herror
  cases herror

theorem fail (error : ε) (h : ∀ s, P s → E s) : Contract P (Mut.fail error : Mut σ ε α) Q E := by
  intro s hs
  constructor
  · intro a t hok
    cases hok
  intro error' t herror
  cases herror
  exact h s hs

/-- After a look at the state, its result is known. -/
theorem read (f : σ → Except ε α) (h : ∀ s, P s → E s) :
    Contract P (Mut.read f) (fun a s => P s ∧ f s = .ok a) E := by
  intro s hs
  constructor
  · intro a t hok
    obtain ⟨hf, rfl⟩ := Prod.mk.inj hok
    exact ⟨hs, hf⟩
  intro error t herror
  obtain ⟨-, rfl⟩ := Prod.mk.inj herror
  exact h s hs

theorem ofExcept (x : Except ε α) (h : ∀ s, P s → E s) :
    Contract P (Mut.ofExcept x) (fun a s => P s ∧ x = .ok a) E := by
  cases x with
  | ok a => exact .pure a fun s hs => ⟨hs, rfl⟩
  | error error => exact .fail error h

theorem modify {Q : Unit → σ → Prop} (h : ∀ s, P s → Q () (g s)) :
    Contract P (Mut.modify g : Mut σ ε Unit) Q E := by
  intro s hs
  constructor
  · intro a t hok
    cases hok
    exact h s hs
  intro error t herror
  cases (Prod.mk.inj herror).1

theorem onError {handler : ε → Mut σ ε α} (hm : Contract P m Q E')
    (hh : ∀ error, Contract E' (handler error) Q E) : Contract P (Mut.onError m handler) Q E := by
  intro s hs
  unfold Mut.onError
  split
  case h_1 a next hok =>
    refine ⟨fun a' t h => ?_, fun error t h => ?_⟩
    · cases h
      exact (hm s hs).1 a next hok
    · cases h
  case h_2 error next herror => exact hh error next ((hm s hs).2 error next herror)

end Contract

/-- However it ends, `P` still holds. -/
def Keeps (P : σ → Prop) (m : Mut σ ε α) : Prop := Contract P m (fun _ => P) P

namespace Keeps

variable {P : σ → Prop} {m : Mut σ ε α} {f : α → Mut σ ε β}

theorem intro (h : ∀ s, P s → P (m s).2) : Keeps P m := by
  intro s hs
  have hafter := h s hs
  constructor
  · intro a t hok
    rw [hok] at hafter
    exact hafter
  intro error t herror
  rw [herror] at hafter
  exact hafter

theorem after (h : Keeps P m) {s : σ} (hs : P s) : P (m s).2 := by
  obtain ⟨hok, herror⟩ := h s hs
  cases hm : m s with
  | mk result t =>
    cases result with
    | ok a => exact hok a t hm
    | error error => exact herror error t hm

theorem bind (hm : Keeps P m) (hf : ∀ a, Keeps P (f a)) : Keeps P (m >>= f) := Contract.bind hm hf

theorem pure (a : α) : Keeps P (Pure.pure a : Mut σ ε α) := Contract.pure a fun _ hs => hs

theorem fail (error : ε) :
    Keeps P (Mut.fail error : Mut σ ε α) := Contract.fail error fun _ hs => hs

theorem read (f : σ → Except ε α) : Keeps P (Mut.read f) := intro fun _ hs => hs

theorem read_bind {g : σ → Except ε α} (hf : ∀ a, Keeps P (f a)) : Keeps P (Mut.read g >>= f) :=
  (read g).bind hf

theorem ofExcept (x : Except ε α) : Keeps P (Mut.ofExcept x : Mut σ ε α) := by
  cases x with
  | ok a => exact pure a
  | error error => exact fail error

theorem modify (h : ∀ s, P s → P (g s)) : Keeps P (Mut.modify g : Mut σ ε Unit) := intro h

theorem onError {handler : ε → Mut σ ε α} (hm : Keeps P m) (hh : ∀ error, Keeps P (handler error)) :
    Keeps P (Mut.onError m handler) :=
  Contract.onError hm hh

/-- A loop keeps what each round keeps. -/
theorem each {step : α → Mut σ ε Unit} (h : ∀ item, Keeps P (step item)) (items : List α) :
    Keeps P (Mut.each step items) := by
  induction items with
  | nil => exact .pure ()
  | cons item rest ih => exact (h item).bind fun _ => ih

end Keeps

end Mut

end Skiff
