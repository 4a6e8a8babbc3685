import Skiff.Data.Run

/-!
# Calls that hold locks

Calls of several callers take locks that are not reentrant, each while it may hold others.
The sections of a call nest, so that it releases what it takes. A run interleaves the
actions of all calls under way.

Two calls are opposed if one takes a lock `m` while it holds `l` and the other takes `l`
while it holds `m`. Where no call nests a lock in itself and no two opposed calls are under
way together, no call waits for a lock that it holds and no two wait for each other.
-/

namespace Skiff

open List

inductive LockAct (Lock : Type) where
  | acquire (lock : Lock)
  | release (lock : Lock)

/-- What a call does: sections under a lock, one after the other. -/
inductive Section (Lock : Type) where
  | done
  | under (lock : Lock) (body next : Section Lock)

namespace Section

variable {Lock : Type}

def append : Section Lock → Section Lock → Section Lock
  | done, other => other
  | under lock body next, other => under lock body (next.append other)

instance : Append (Section Lock) := ⟨append⟩

/-- One section under a lock. -/
def locked (lock : Lock) (body : Section Lock) : Section Lock := under lock body done

/-- One call for each item, in order. -/
def each {β : Type} (items : List β) (f : β → Section Lock) : Section Lock :=
  items.foldr (fun item rest => f item ++ rest) done

/-- The actions of a call. -/
def trace : Section Lock → List (LockAct Lock)
  | done => []
  | under lock body next => .acquire lock :: (body.trace ++ .release lock :: next.trace)

/-- The locks that a call takes. -/
def locks : Section Lock → List Lock
  | done => []
  | under lock body next => lock :: (body.locks ++ next.locks)

/-- The call takes `inner` while it holds `outer`. -/
def Nests : Section Lock → Lock → Lock → Prop
  | done, _, _ => False
  | under lock body next, outer, inner =>
    (outer = lock ∧ inner ∈ body.locks) ∨ body.Nests outer inner ∨ next.Nests outer inner

@[simp] theorem done_append (s : Section Lock) : done ++ s = s := rfl

@[simp] theorem under_append (lock : Lock) (body next s : Section Lock) :
    under lock body next ++ s = under lock body (next ++ s) := rfl

theorem trace_under_append {lock : Lock} {body next : Section Lock} {rest : List (LockAct Lock)} :
    (under lock body next).trace ++ rest =
      .acquire lock :: (body.trace ++ (.release lock :: (next.trace ++ rest))) := by
  simp [trace]

@[simp] theorem locks_done : (done : Section Lock).locks = [] := rfl

@[simp] theorem locks_locked (lock : Lock) (body : Section Lock) :
    (locked lock body).locks = lock :: body.locks := by
  simp [locked, locks]

@[simp] theorem locks_append (s t : Section Lock) : (s ++ t).locks = s.locks ++ t.locks := by
  induction s with
  | done => rfl
  | under lock body next _ ih => simp [locks, ih]

@[simp] theorem mem_locks_each {β : Type} {items : List β} {f : β → Section Lock} {lock : Lock} :
    lock ∈ (each items f).locks ↔ ∃ item ∈ items, lock ∈ (f item).locks := by
  induction items with
  | nil => simp [each]
  | cons item items ih =>
    rw [each, foldr_cons, ← each, locks_append, mem_append, ih]
    simp

variable {outer inner : Lock}

@[simp] theorem nests_done : ¬ (done : Section Lock).Nests outer inner := id

@[simp] theorem nests_locked {lock outer inner : Lock} {body : Section Lock} :
    (locked lock body).Nests outer inner ↔
      (outer = lock ∧ inner ∈ body.locks) ∨ body.Nests outer inner := by
  simp [locked, Nests]

@[simp] theorem nests_append {s t : Section Lock} :
    (s ++ t).Nests outer inner ↔ s.Nests outer inner ∨ t.Nests outer inner := by
  induction s with
  | done => simp
  | under lock body next _ ih => simp [Nests, ih, or_assoc]

@[simp] theorem nests_each {β : Type} {items : List β} {f : β → Section Lock} :
    (each items f).Nests outer inner ↔ ∃ item ∈ items, (f item).Nests outer inner := by
  induction items with
  | nil => simp [each]
  | cons item items ih =>
    rw [each, foldr_cons, ← each, nests_append, ih]
    simp

end Section

/-! ## Runs -/

section calls

variable {α Lock : Type} [DecidableEq Lock]

/-- A call under way: the locks that it holds and what it has still to do. -/
structure LockedCall (α Lock : Type) where
  call : α
  held : List Lock
  rest : List (LockAct Lock)

inductive LockEvent (α Lock : Type) where
  | start (call : α)
  | acquire (lock : Lock)
  | release (lock : Lock)
  | finish

variable (does : α → Section Lock)

/-- One action of one of the calls; a lock is taken only while no call holds it. -/
inductive LockStep : List (LockedCall α Lock) → LockEvent α Lock → List (LockedCall α Lock) → Prop
  | start (calls : List (LockedCall α Lock)) (call : α) :
      LockStep calls (.start call) (⟨call, [], (does call).trace⟩ :: calls)
  | acquire (before after : List (LockedCall α Lock)) {call : α} {held : List Lock} {lock : Lock}
      {rest : List (LockAct Lock)}
      (free : ∀ other ∈ before ++ ⟨call, held, .acquire lock :: rest⟩ :: after, lock ∉ other.held) :
      LockStep (before ++ ⟨call, held, .acquire lock :: rest⟩ :: after) (.acquire lock)
        (before ++ ⟨call, lock :: held, rest⟩ :: after)
  | release (before after : List (LockedCall α Lock)) {call : α} {held : List Lock} {lock : Lock}
      {rest : List (LockAct Lock)} :
      LockStep (before ++ ⟨call, held, .release lock :: rest⟩ :: after) (.release lock)
        (before ++ ⟨call, held.erase lock, rest⟩ :: after)
  | finish (before after : List (LockedCall α Lock)) {call : α} :
      LockStep (before ++ ⟨call, [], []⟩ :: after) .finish (before ++ after)

/-- The next action of the call is to take the lock. -/
def LockedCall.Waits (call : LockedCall α Lock) (lock : Lock) : Prop :=
  ∃ rest, call.rest = .acquire lock :: rest

/-- A call waits for a lock that it holds. -/
def SelfWait (calls : List (LockedCall α Lock)) : Prop :=
  ∃ call ∈ calls, ∃ lock, call.Waits lock ∧ lock ∈ call.held

/-- Two calls each wait for a lock that the other holds. -/
def CrossWait (calls : List (LockedCall α Lock)) : Prop :=
  ∃ call other, [call, other].Sublist calls ∧ ∃ lock lock', call.Waits lock ∧ lock ∈ other.held ∧
    other.Waits lock' ∧ lock' ∈ call.held

/-- One call takes two locks in one order, the other in the opposite order. -/
def Opposed (call other : α) : Prop :=
  ∃ outer inner, (does call).Nests outer inner ∧ (does other).Nests inner outer

/-- A call may start: it nests no lock in itself, and no opposed call is under way. -/
def Apart (calls : List (LockedCall α Lock)) (call : α) : Prop :=
  (∀ lock, ¬ (does call).Nests lock lock) ∧ ∀ other ∈ calls, ¬ Opposed does call other.call

/-! ## Nesting along a run -/

/-- The pairs of a lock held and a lock taken, in the actions still to do. -/
def nests : List Lock → List (LockAct Lock) → List (Lock × Lock)
  | _, [] => []
  | held, .acquire lock :: rest => held.map (·, lock) ++ nests (lock :: held) rest
  | held, .release lock :: rest => nests (held.erase lock) rest

variable {held : List Lock}

theorem mem_nests_trace {s : Section Lock} {rest : List (LockAct Lock)}
    {outer inner : Lock} : (outer, inner) ∈ nests held (s.trace ++ rest) ↔
      (outer ∈ held ∧ inner ∈ s.locks) ∨ s.Nests outer inner ∨
        (outer, inner) ∈ nests held rest := by
  induction s generalizing held rest with
  | done => simp [Section.trace]
  | under lock body next ih ih' =>
    rw [Section.trace_under_append, nests, mem_append, ih, nests, erase_cons_head, ih']
    simp only [mem_map, Prod.mk.injEq, mem_cons, Section.locks, mem_append, Section.Nests]
    constructor
    · rintro (⟨_, hheld, rfl, rfl⟩ | ⟨rfl | hheld, hbody⟩ | hbody | ⟨hheld, hnext⟩ | hnext | hrest)
      · exact .inl ⟨hheld, .inl rfl⟩
      · exact .inr (.inl (.inl ⟨rfl, hbody⟩))
      · exact .inl ⟨hheld, .inr (.inl hbody)⟩
      · exact .inr (.inl (.inr (.inl hbody)))
      · exact .inl ⟨hheld, .inr (.inr hnext)⟩
      · exact .inr (.inl (.inr (.inr hnext)))
      · exact .inr (.inr hrest)
    rintro (⟨hheld, rfl | hbody | hnext⟩ | (⟨rfl, hbody⟩ | hbody | hnext) | hrest)
    · exact .inl ⟨outer, hheld, rfl, rfl⟩
    · exact .inr (.inl ⟨.inr hheld, hbody⟩)
    · exact .inr (.inr (.inr (.inl ⟨hheld, hnext⟩)))
    · exact .inr (.inl ⟨.inl rfl, hbody⟩)
    · exact .inr (.inr (.inl hbody))
    · exact .inr (.inr (.inr (.inr (.inl hnext))))
    · exact .inr (.inr (.inr (.inr (.inr hrest))))

/-- What is kept along a run whose calls start apart. -/
structure Orderly (calls : List (LockedCall α Lock)) : Prop where
  rest : ∀ call ∈ calls, ∀ outer inner, (outer, inner) ∈ nests call.held call.rest →
    (does call.call).Nests outer inner
  once : ∀ call ∈ calls.map LockedCall.call, ∀ lock, ¬ (does call).Nests lock lock
  apart : (calls.map LockedCall.call).Pairwise fun call other => ¬ Opposed does call other

variable {does} {call : α}

theorem Orderly.replace {before after : List (LockedCall α Lock)} {held held' : List Lock}
    {rest rest' : List (LockAct Lock)} (h : Orderly does (before ++ ⟨call, held, rest⟩ :: after))
    (hle : ∀ pair ∈ nests held' rest', pair ∈ nests held rest) :
    Orderly does (before ++ ⟨call, held', rest'⟩ :: after) := by
  have hcalls : (before ++ ⟨call, held', rest'⟩ :: after).map LockedCall.call =
      (before ++ ⟨call, held, rest⟩ :: after).map LockedCall.call := by
    simp
  refine ⟨?_, hcalls ▸ h.once, hcalls ▸ h.apart⟩
  intro other hother outer inner hmem
  obtain hbefore | rfl | hafter :
    other ∈ before ∨ other = ⟨call, held', rest'⟩ ∨ other ∈ after := by
    simpa using hother
  · exact h.rest other (mem_append_left _ hbefore) outer inner hmem
  · exact h.rest ⟨call, held, rest⟩ (by simp) outer inner (hle _ hmem)
  · exact h.rest other (mem_append_right _ (.tail _ hafter)) outer inner hmem

theorem Orderly.step {calls calls' : List (LockedCall α Lock)} {event : LockEvent α Lock}
    (h : Orderly does calls) (hstep : LockStep does calls event calls')
    (hstart : ∀ call, event = .start call → Apart does calls call) : Orderly does calls' := by
  cases hstep with
  | start calls call =>
    obtain ⟨honce, hapart⟩ := hstart call rfl
    refine ⟨?_, ?_, ?_⟩
    · intro other hother outer inner hmem
      obtain rfl | hother := mem_cons.mp hother
      · have htrace : (outer, inner) ∈ nests [] ((does call).trace ++ []) := by
          simpa using hmem
        simpa [nests] using mem_nests_trace.mp htrace
      · exact h.rest other hother outer inner hmem
    · rw [map_cons]
      intro other hother
      obtain rfl | hother := mem_cons.mp hother
      · exact honce
      · exact h.once other hother
    rw [map_cons, pairwise_cons]
    refine ⟨?_, h.apart⟩
    intro other hother
    obtain ⟨locked, hlocked, rfl⟩ := mem_map.mp hother
    exact hapart locked hlocked
  | acquire before after free => exact h.replace fun pair hpair => mem_append_right _ hpair
  | release before after => exact h.replace fun pair hpair => hpair
  | @finish before after call =>
    have hsub : (before ++ after).Sublist (before ++ ⟨call, [], []⟩ :: after) :=
      List.Sublist.append_left (sublist_cons_self _ _) before
    refine ⟨?_, ?_, h.apart.sublist (hsub.map _)⟩
    · intro other hother
      exact h.rest other (hsub.subset hother)
    intro other hother
    exact h.once other ((hsub.map _).subset hother)

variable {calls : List (LockedCall α Lock)}

/-- A call that waits for a lock nests it in each lock that it holds. -/
theorem Orderly.nests_of_waits (h : Orderly does calls)
    {call : LockedCall α Lock} (hmem : call ∈ calls) {lock held : Lock} (hwaits : call.Waits lock)
    (hheld : held ∈ call.held) : (does call.call).Nests held lock := by
  obtain ⟨rest, hrest⟩ := hwaits
  apply h.rest call hmem
  rw [hrest, nests]
  exact mem_append_left _ (mem_map_of_mem hheld)

theorem Orderly.not_selfWait (h : Orderly does calls) : ¬ SelfWait calls := by
  rintro ⟨call, hmem, lock, hwaits, hheld⟩
  exact h.once call.call (mem_map_of_mem hmem) lock (h.nests_of_waits hmem hwaits hheld)

theorem Orderly.not_crossWait (h : Orderly does calls) : ¬ CrossWait calls := by
  rintro ⟨call, other, hsub, lock, lock', hwaits, hheld, hwaits', hheld'⟩
  have hcall : call ∈ calls := hsub.subset (by simp)
  have hother : other ∈ calls := hsub.subset (by simp)
  have hpair := h.apart.sublist (hsub.map LockedCall.call)
  simp only [map_cons, map_nil, pairwise_cons, mem_singleton, forall_eq] at hpair
  exact hpair.1 ⟨lock', lock, h.nests_of_waits hcall hwaits hheld',
    h.nests_of_waits hother hwaits' hheld⟩

/-- In a run whose calls start apart, no call waits for a lock that it holds and no two wait for
each other. -/
theorem Orderly.run {P : List (LockedCall α Lock) → α → Prop}
    (hP : ∀ calls call, P calls call → Apart does calls call) {events : List (LockEvent α Lock)}
    (h : Run (fun calls event calls' => LockStep does calls event calls' ∧
      ∀ call, event = .start call → P calls call) [] events calls) :
    ¬ SelfWait calls ∧ ¬ CrossWait calls := by
  have horderly : Orderly does calls := by
    refine h.invariant ?_ ⟨by simp, by simp, .nil⟩
    intro calls event calls' horderly hstep
    exact horderly.step hstep.1 fun call hcall => hP calls call (hstep.2 call hcall)
  exact ⟨horderly.not_selfWait, horderly.not_crossWait⟩

/-! ## A call by itself -/

/-- The events of the actions of a call. -/
def Section.events (s : Section Lock) : List (LockEvent α Lock) :=
  s.trace.map fun
    | .acquire lock => .acquire lock
    | .release lock => .release lock

theorem LockStep.acquire_alone {lock : Lock} {rest : List (LockAct Lock)} (h : lock ∉ held) :
    LockStep does [⟨call, held, .acquire lock :: rest⟩] (.acquire lock)
      [⟨call, lock :: held, rest⟩] := by
  apply LockStep.acquire [] []
  simpa using h

theorem LockStep.release_alone {lock : Lock} {rest : List (LockAct Lock)} :
    LockStep does [⟨call, lock :: held, .release lock :: rest⟩] (.release lock)
      [⟨call, held, rest⟩] := by
  have hstep : LockStep does [⟨call, lock :: held, .release lock :: rest⟩] (.release lock)
      [⟨call, (lock :: held).erase lock, rest⟩] := .release [] []
  rwa [erase_cons_head] at hstep

theorem Section.run_alone {s : Section Lock}
    {rest : List (LockAct Lock)} (hnests : ∀ lock, ¬ s.Nests lock lock)
    (hheld : ∀ lock ∈ s.locks, lock ∉ held) :
    Run (LockStep does) [⟨call, held, s.trace ++ rest⟩] s.events [⟨call, held, rest⟩] := by
  induction s generalizing held rest with
  | done => exact .nil _
  | under lock body next ih ih' =>
    have hevents : (Section.under lock body next).events =
        ((.acquire lock : LockEvent α Lock) ::
          (body.events ++ (.release lock :: next.events))) := by
      simp [Section.events, Section.trace]
    have hbody : ∀ inner ∈ body.locks, inner ∉ lock :: held := by
      intro inner hinner hmem
      obtain rfl | hmem := mem_cons.mp hmem
      · exact hnests inner (.inl ⟨rfl, hinner⟩)
      · exact hheld inner (.tail _ (mem_append_left _ hinner)) hmem
    have hnext : ∀ inner ∈ next.locks, inner ∉ held := by
      intro inner hinner
      exact hheld inner (.tail _ (mem_append_right _ hinner))
    rw [Section.trace_under_append, hevents]
    refine .cons (.acquire_alone ?_) (Run.trans (ih ?_ hbody) (.cons .release_alone (ih' ?_ hnext)))
    · exact hheld lock (mem_cons_self ..)
    · intro inner hinner
      exact hnests inner (.inr (.inl hinner))
    intro inner hinner
    exact hnests inner (.inr (.inr hinner))

/-- The events of a call that no other interleaves. -/
def alone (does : α → Section Lock) (call : α) : List (LockEvent α Lock) :=
  .start call :: ((does call).events ++ [.finish])

/-- A call that nests no lock in itself runs to its end where no other is under way. -/
theorem run_alone (hnests : ∀ lock, ¬ (does call).Nests lock lock) :
    Run (LockStep does) [] (alone does call) [] := by
  have hsections : Run (LockStep does) [⟨call, [], (does call).trace ++ []⟩] (does call).events
      [⟨call, [], []⟩] := Section.run_alone hnests (by simp)
  rw [append_nil] at hsections
  have hfinish : LockStep does [⟨call, [], []⟩] .finish [] := .finish [] []
  exact .cons (.start [] call) (hsections.trans (.single hfinish))

theorem Section.selfWait_alone {s : Section Lock} {rest : List (LockAct Lock)}
    (h : (∃ lock, s.Nests lock lock) ∨ ∃ lock ∈ s.locks, lock ∈ held) :
    ∃ events calls, Run (LockStep does) [⟨call, held, s.trace ++ rest⟩] events calls ∧
      SelfWait calls := by
  induction s generalizing held rest with
  | done => simp [Nests, locks] at h
  | under lock body next ih ih' =>
    rw [Section.trace_under_append]
    by_cases hheld : lock ∈ held
    · exact ⟨[], _, .nil _, _, mem_singleton_self _, lock, ⟨_, rfl⟩, hheld⟩
    by_cases hbody : (∃ inner, body.Nests inner inner) ∨ ∃ inner ∈ body.locks,
        inner ∈ lock :: held
    · obtain ⟨events, calls, hrun, hwait⟩ := ih hbody
      exact ⟨_, calls, .cons (.acquire_alone hheld) hrun, hwait⟩
    -- The body comes to its end, so the wait is in what follows.
    have hfree : ∀ inner ∈ body.locks, inner ∉ lock :: held := by
      intro inner hinner hmem
      exact hbody (.inr ⟨inner, hinner, hmem⟩)
    have honce : ∀ inner, ¬ body.Nests inner inner := fun inner hinner =>
      hbody (.inl ⟨inner, hinner⟩)
    have hnext : (∃ inner, next.Nests inner inner) ∨ ∃ inner ∈ next.locks, inner ∈ held := by
      obtain ⟨inner, ⟨rfl, hinner⟩ | hinner | hinner⟩ | ⟨inner, hinner, hmem⟩ := h
      · exact absurd (mem_cons_self ..) (hfree inner hinner)
      · exact absurd hinner (honce inner)
      · exact .inl ⟨inner, hinner⟩
      obtain rfl | hinner := mem_cons.mp hinner
      · exact absurd hmem hheld
      obtain hinner | hinner := mem_append.mp hinner
      · exact absurd (.tail _ hmem) (hfree inner hinner)
      · exact .inr ⟨inner, hinner, hmem⟩
    obtain ⟨events, calls, hrun, hwait⟩ := @ih' held rest hnext
    exact ⟨_, calls, .cons (.acquire_alone hheld) ((run_alone honce hfree).trans
      (.cons .release_alone hrun)), hwait⟩

/-- A call that nests a lock in itself comes to wait for it. -/
theorem selfWait_alone (h : ∃ lock, (does call).Nests lock lock) :
    ∃ events calls, Run (LockStep does) [] (.start call :: events) calls ∧ SelfWait calls := by
  have hwaits : ∃ events calls, Run (LockStep does) [⟨call, [], (does call).trace ++ []⟩] events
      calls ∧ SelfWait calls := Section.selfWait_alone (.inl h)
  rw [append_nil] at hwaits
  obtain ⟨events, calls, hrun, hwait⟩ := hwaits
  exact ⟨events, calls, .cons (.start [] call) hrun, hwait⟩

end calls

end Skiff
