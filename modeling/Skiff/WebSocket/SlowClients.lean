import Mathlib.Algebra.BigOperators.Group.List.Basic
import Skiff.WebSocket.IndexTables

/-!
# The budget of a slow client

Writes through the captured writer of one attached connection, from several tasks, against the loop
that sends its frames. Of a write, the decision under the index lock, the hand-over to the queue and
the count of its bytes in the transport are steps of their own. What is charged when a write is
decided is what the transport has counted and, once more, everything that was ever accepted.
-/

namespace Skiff.WebSocket

open OrdMap List

/-- A connection's writer and its socket. `decided` are the frames between their decision and the
queue, `adding` those in the queue or beyond that `buffered` does not count yet. -/
structure ClientSocket (W : Type) where
  index : IndexInner W
  decided : List Nat
  queue : List Nat
  adding : List Nat
  buffered : Nat
  sent : Nat

inductive SocketEvent where
  | decide (bytes : Nat)
  | enqueue (bytes : Nat)
  | refuse (bytes : Nat)
  | count (bytes : Nat)
  | drain (bytes : Nat)

namespace ClientSocket

variable {W : Type} (options : ClientConnectionIndexOptions) (id : String) (generation : Nat)

/-- The decision of `CapturedPeerWriter`, and the end of a connection over its budget. -/
def decide (s : ClientSocket W) (bytes : Nat) : ClientSocket W :=
  match s.index.reserveWrite options id generation bytes s.buffered with
  | (.accepted, index) => { s with index := index, decided := bytes :: s.decided }
  | (.overBudget, index) => { s with index := (index.finishLocked id .slowClient none).2 }
  | (.stale, index) => { s with index := index }

/-- `SocketPeerWriter` and `writer_loop`; the counter is a `u64` that wraps. -/
inductive Step : ClientSocket W → SocketEvent → ClientSocket W → Prop
  | decide {s : ClientSocket W} (bytes : Nat) :
      Step s (.decide bytes) (s.decide options id generation bytes)
  | enqueue {s : ClientSocket W} {bytes : Nat} : bytes ∈ s.decided →
      Step s (.enqueue bytes) { s with
        decided := s.decided.erase bytes, queue := s.queue ++ [bytes]
        adding := bytes :: s.adding }
  | refuse {s : ClientSocket W} {bytes : Nat} : bytes ∈ s.decided →
      Step s (.refuse bytes) { s with
        decided := s.decided.erase bytes, index := s.index.completeWrite id generation bytes }
  | count {s : ClientSocket W} {bytes : Nat} : bytes ∈ s.adding →
      Step s (.count bytes) { s with
        adding := s.adding.erase bytes, buffered := (s.buffered + bytes) % 2 ^ 64 }
  | drain {s : ClientSocket W} {bytes : Nat} {rest : List Nat} : s.queue = bytes :: rest →
      Step s (.drain bytes) { s with
        queue := rest, buffered := (s.buffered + 2 ^ 64 - bytes) % 2 ^ 64
        sent := s.sent + bytes }

/-- The amount that a decision holds against the budget. -/
def charged (s : ClientSocket W) (bytes : Nat) : Option Nat := do
  let record ← s.index.connectionsById.get? id
  if record.state ≠ .attached ∨ record.generation ≠ some generation then none
  else some (u64Saturating (u64Saturating
    ((if record.writer.isSome then s.buffered else 0) + record.observedWriteBytes) + bytes))

/-- The bytes that were accepted and that the loop has not sent. -/
def outstanding (s : ClientSocket W) : Nat := s.decided.sum + s.queue.sum

/-- What a client that keeps up may expect of a step. -/
def Fair (s : ClientSocket W) : SocketEvent → Prop
  | .decide bytes =>
    (∀ amount, s.charged id generation bytes = some amount → amount ≤ s.outstanding + bytes) ∧
      (s.outstanding = 0 → bytes ≤ options.slowClientBudgetBytes →
        ∀ index, s.index.reserveWrite options id generation bytes s.buffered ≠ (.overBudget, index))
  | .count bytes => s.buffered + bytes < 2 ^ 64
  | .drain bytes => bytes ≤ s.buffered
  | _ => True

/-- Nothing was sent and nothing is counted when a write is decided, its bytes fit the counter with
what is outstanding, and the loop takes a frame only when all are counted. -/
def Undisturbed (s : ClientSocket W) : SocketEvent → Prop
  | .decide bytes => s.sent = 0 ∧ s.buffered = 0 ∧ s.outstanding + bytes < 2 ^ 64
  | .drain _ => s.adding = []
  | _ => True

def UndisturbedStep (s : ClientSocket W) (event : SocketEvent) (t : ClientSocket W) : Prop :=
  Step options id generation s event t ∧ s.Undisturbed event

/-- The index has counted what was ever accepted. -/
def Observed (s : ClientSocket W) : Prop :=
  ∀ record, s.index.connectionsById.get? id = some record → record.generation = some generation →
    record.observedWriteBytes = s.outstanding + s.sent

/-- The transport has counted what is in its queue, too. -/
structure Counted (s : ClientSocket W) : Prop where
  observed : s.Observed id generation
  buffered : s.buffered + s.adding.sum = s.queue.sum
  bound : s.outstanding + s.sent < 2 ^ 64

variable {options id generation} {s t : ClientSocket W} {event : SocketEvent} {bytes : Nat}

theorem u64Saturating_of_lt {n : Nat} (h : n < 2 ^ 64) : u64Saturating n = n :=
  min_eq_left (by omega)

theorem u64Saturating_le (n : Nat) : u64Saturating n ≤ n := min_le_left _ _

/-- A decision in terms of what it charges. -/
theorem reserveWrite_cases (options : ClientConnectionIndexOptions) (id : String)
    (generation : Nat) (s : ClientSocket W) (bytes : Nat) :
    (s.charged id generation bytes = none ∧
      s.index.reserveWrite options id generation bytes s.buffered = (.stale, s.index)) ∨
    ∃ record amount, s.index.connectionsById.get? id = some record ∧
      record.generation = some generation ∧ s.charged id generation bytes = some amount ∧
      amount ≤ s.buffered + record.observedWriteBytes + bytes ∧
      s.index.reserveWrite options id generation bytes s.buffered =
        if options.slowClientBudgetBytes < amount then (.overBudget, s.index)
        else (.accepted, { s.index with
          connectionsById := s.index.connectionsById.insert id
            { record with
              observedWriteBytes := u64Saturating (record.observedWriteBytes + bytes)
              observedWrites := record.observedWrites + 1 } }) := by
  unfold charged IndexInner.reserveWrite
  cases hget : s.index.connectionsById.get? id with
  | none => exact .inl ⟨rfl, rfl⟩
  | some record =>
    by_cases hfence : record.state ≠ .attached ∨ record.generation ≠ some generation
    · exact .inl ⟨if_pos hfence, if_pos hfence⟩
    refine .inr ⟨record, _, rfl, of_not_not fun hne => hfence (.inr hne), if_neg hfence, ?_,
      if_neg hfence⟩
    refine (u64Saturating_le _).trans (Nat.add_le_add_right ((u64Saturating_le _).trans ?_) _)
    exact Nat.add_le_add_right (ite_le_sup _ _ _ |>.trans (by simp)) _

/-- The index goes on counting, unless a write that is accepted does not fit its counter. -/
theorem observed_step (h : s.Observed id generation) (hstep : Step options id generation s event t)
    (hroom : ∀ bytes, event = .decide bytes → s.decided.length < t.decided.length →
      s.outstanding + s.sent + bytes < 2 ^ 64) : t.Observed id generation := by
  cases hstep with
  | decide bytes =>
    unfold ClientSocket.decide at hroom ⊢
    obtain ⟨-, hreserve⟩ | ⟨record, amount, hget, hgeneration, -, -, hreserve⟩ :=
      reserveWrite_cases options id generation s bytes
    · rw [hreserve]
      exact h
    rw [hreserve] at hroom ⊢
    split_ifs at hroom ⊢
    · intro record hrecord
      obtain ⟨hnone, -⟩ | ⟨-, -, hconnections, -⟩ := s.index.finishLocked_cases id .slowClient none
      · rw [hnone] at hget
        cases hget
      simp only [hconnections, get?_erase_self] at hrecord
      cases hrecord
    intro found hfound _
    rw [get?_insert_self] at hfound
    cases hfound
    have hsame := h record hget hgeneration
    have hlt := hroom bytes rfl (Nat.lt_succ_self _)
    simp only [outstanding, sum_cons] at hsame hlt ⊢
    rw [u64Saturating_of_lt (by omega)]
    omega
  | @enqueue bytes hmem =>
    have hsum := sum_erase hmem
    intro record hget hgeneration
    rw [h record hget hgeneration]
    simp only [outstanding, sum_append, sum_singleton]
    omega
  | @refuse bytes hmem =>
    have hsum := sum_erase hmem
    intro record hget hgeneration
    dsimp only [IndexInner.completeWrite] at hget
    cases hold : s.index.connectionsById.get? id with
    | none =>
      rw [hold] at hget
      exact absurd (hold.symm.trans hget) (by simp)
    | some old =>
      simp only [hold] at hget
      split at hget
      case isTrue hfence =>
        rw [get?_insert_self] at hget
        cases hget
        simp only [h old hold hfence, outstanding]
        omega
      case isFalse hfence =>
        obtain rfl := Option.some.inj (hold.symm.trans hget)
        exact absurd hgeneration hfence
  | count hmem => exact h
  | @drain bytes rest hqueue =>
    intro record hget hgeneration
    rw [h record hget hgeneration]
    simp only [outstanding, hqueue, sum_cons]
    omega

theorem accepted_step (hstep : Step options id generation s event t) :
    t.outstanding + t.sent ≤ s.outstanding + s.sent ∨ ∃ bytes, event = .decide bytes ∧
      s.decided.length < t.decided.length ∧
        t.outstanding + t.sent = s.outstanding + s.sent + bytes := by
  cases hstep with
  | decide bytes =>
    unfold ClientSocket.decide
    split
    case h_1 =>
      refine .inr ⟨bytes, rfl, Nat.lt_succ_self _, ?_⟩
      simp only [outstanding, sum_cons]
      omega
    all_goals exact .inl le_rfl
  | @enqueue bytes hmem | @refuse bytes hmem =>
    have hsum := sum_erase hmem
    simp only [outstanding, sum_append, sum_singleton]
    omega
  | count => exact .inl le_rfl
  | drain hqueue =>
    simp only [outstanding, hqueue, sum_cons]
    omega

theorem Counted.step (h : s.Counted id generation)
    (hstep : UndisturbedStep options id generation s event t) : t.Counted id generation := by
  obtain ⟨hstep, hclean⟩ := hstep
  obtain ⟨hobserved, hbuffered, hbound⟩ := h
  refine ⟨observed_step hobserved hstep ?_, ?_, ?_⟩
  · rintro bytes rfl -
    obtain ⟨hsent, -, hroom⟩ := hclean
    omega
  · cases hstep with
    | decide bytes =>
      unfold ClientSocket.decide
      split <;> exact hbuffered
    | enqueue hmem =>
      simp only [sum_append, sum_cons, sum_nil]
      omega
    | refuse hmem => exact hbuffered
    | @count bytes hmem =>
      have hsum := sum_erase hmem
      simp only [outstanding] at hbound ⊢
      rw [Nat.mod_eq_of_lt (by omega)]
      omega
    | drain hqueue =>
      have hadding : s.adding = [] := hclean
      simp only [outstanding, hqueue, hadding, sum_cons, sum_nil] at *
      omega
  obtain hle | ⟨bytes, rfl, -, heq⟩ := accepted_step hstep
  · omega
  obtain ⟨hsent, -, hroom⟩ := hclean
  omega

theorem Counted.fair (h : s.Counted id generation)
    (hstep : UndisturbedStep options id generation s event t) :
    s.Fair options id generation event := by
  obtain ⟨hstep, hclean⟩ := hstep
  obtain ⟨hobserved, hbuffered, hbound⟩ := h
  cases hstep with
  | decide bytes =>
    obtain ⟨hsent, hzero, -⟩ := hclean
    obtain ⟨hcharged, hreserve⟩ | ⟨record, amount, hget, hgeneration, hcharged, hle, hreserve⟩ :=
      reserveWrite_cases options id generation s bytes
    · refine ⟨fun amount hamount => ?_, fun _ _ index => ?_⟩
      · rw [hcharged] at hamount
        cases hamount
      rw [hreserve]
      simp
    rw [hobserved record hget hgeneration, hsent, hzero] at hle
    refine ⟨fun found hfound => ?_, fun hnone hbudget index => ?_⟩
    · obtain rfl := Option.some.inj (hcharged.symm.trans hfound)
      omega
    rw [hreserve, if_neg (by omega)]
    simp
  | enqueue hmem | refuse hmem => exact trivial
  | @count bytes hmem =>
    have hsum := sum_erase hmem
    simp only [outstanding] at hbound
    show s.buffered + bytes < 2 ^ 64
    omega
  | @drain bytes rest hqueue =>
    have hadding : s.adding = [] := hclean
    simp only [hqueue, hadding, sum_cons, sum_nil] at hbuffered
    show bytes ≤ s.buffered
    omega

/-- A connection that was just attached: nothing was written yet. -/
structure Fresh (id : String) (s : ClientSocket W) : Prop where
  observed : ∀ record, s.index.connectionsById.get? id = some record → record.observedWriteBytes = 0
  outstanding : s.decided = [] ∧ s.queue = []
  counted : s.adding = [] ∧ s.buffered = 0 ∧ s.sent = 0

/-- Every step of a run that is not disturbed is fair to the client. -/
theorem fair_of_undisturbed {start : ClientSocket W} {events : List SocketEvent}
    (hstart : Fresh id start)
    (hrun : Run (UndisturbedStep options id generation) start events s)
    (hstep : UndisturbedStep options id generation s event t) :
    s.Fair options id generation event := by
  obtain ⟨hobserved, ⟨hdecided, hqueue⟩, hadding, hbuffered, hsent⟩ := hstart
  have hcounted : start.Counted id generation := by
    refine ⟨fun record hget _ => ?_, ?_, ?_⟩
    · rw [hobserved record hget, outstanding, hdecided, hqueue, hsent]
      rfl
    · rw [hbuffered, hadding, hqueue]
      rfl
    · rw [outstanding, hdecided, hqueue, hsent]
      decide
  exact (hrun.invariant (fun h hstep => h.step hstep) hcounted).fair hstep

/-- A write that is accepted fits the budget together with all that was ever accepted. -/
theorem accepted_within (hbudget : options.slowClientBudgetBytes < 2 ^ 64 - 1)
    (h : s.Observed id generation)
    (haccepted : s.decided.length < (s.decide options id generation bytes).decided.length) :
    s.outstanding + s.sent + bytes ≤ options.slowClientBudgetBytes := by
  unfold ClientSocket.decide at haccepted
  obtain ⟨-, hreserve⟩ | ⟨record, amount, hget, hgeneration, hcharged, -, hreserve⟩ :=
    reserveWrite_cases options id generation s bytes
  · rw [hreserve] at haccepted
    exact absurd haccepted (Nat.lt_irrefl _)
  rw [hreserve] at haccepted
  split_ifs at haccepted with hover
  · exact absurd haccepted (Nat.lt_irrefl _)
  rw [← h record hget hgeneration]
  simp only [charged, hget, Option.bind_eq_bind, Option.bind_some] at hcharged
  split at hcharged
  · cases hcharged
  obtain rfl := Option.some.inj hcharged
  simp only [u64Saturating] at hover
  omega

/-- Over its whole life a connection is sent no more than the budget, however much it reads. -/
theorem lifetime_within_budget {start : ClientSocket W} {events : List SocketEvent}
    (hbudget : options.slowClientBudgetBytes < 2 ^ 64 - 1) (hstart : Fresh id start)
    (hrun : Run (Step options id generation) start events s) :
    s.outstanding + s.sent ≤ options.slowClientBudgetBytes := by
  refine (hrun.invariant (P := fun s => s.Observed id generation ∧
    s.outstanding + s.sent ≤ options.slowClientBudgetBytes) ?_ ?_).2
  · rintro s event t ⟨hobserved, hle⟩ hstep
    have hwithin : ∀ bytes, event = .decide bytes → s.decided.length < t.decided.length →
        s.outstanding + s.sent + bytes ≤ options.slowClientBudgetBytes := by
      rintro bytes rfl haccepted
      cases hstep
      exact accepted_within hbudget hobserved haccepted
    refine ⟨observed_step hobserved hstep fun bytes hevent haccepted => ?_, ?_⟩
    · have hfits := hwithin bytes hevent haccepted
      omega
    obtain hless | ⟨bytes, hevent, haccepted, heq⟩ := accepted_step hstep
    · omega
    · exact heq ▸ hwithin bytes hevent haccepted
  obtain ⟨hobserved, ⟨hdecided, hqueue⟩, -, -, hsent⟩ := hstart
  simp only [Observed, outstanding, hdecided, hqueue, hsent, sum_nil]
  exact ⟨fun record hget _ => hobserved record hget, Nat.zero_le _⟩

section Sample

def smallBudget : ClientConnectionIndexOptions := ⟨1, 10, 1⟩

/-- A client with nothing written yet. -/
def attachedSocket : ClientSocket Unit :=
  ⟨{ (IndexInner.new : IndexInner Unit) with
      connectionsById :=
        (∅ : OrdMap _ _).insert "client" ⟨none, none, .attached, some 1, none, some (), 0, 0⟩ },
    [], [], [], 0, 0⟩

theorem attachedSocket_fresh : Fresh "client" attachedSocket :=
  ⟨fun record hget => by cases hget; rfl, ⟨rfl, rfl⟩, rfl, rfl, rfl⟩

/-- The second write is decided before the first is counted. -/
theorem fair_of_undisturbed_first : ∃ s : ClientSocket Unit,
    Run (UndisturbedStep smallBudget "client" 1) attachedSocket [.decide 6, .enqueue 6] s ∧
      s.adding = [6] ∧ s.Fair smallBudget "client" 1 (.decide 3) := by
  obtain ⟨s, hrun, hnext, hadding⟩ : ∃ s : ClientSocket Unit,
      Run (UndisturbedStep smallBudget "client" 1) attachedSocket [.decide 6, .enqueue 6] s ∧
        s.Undisturbed (.decide 3) ∧ s.adding = [6] :=
    ⟨_, .cons ⟨.decide 6, rfl, rfl, by decide⟩ (.cons ⟨.enqueue (by decide +kernel), trivial⟩
      (.nil _)), ⟨rfl, by decide +kernel, by decide +kernel⟩, by decide +kernel⟩
  exact ⟨s, hrun, hadding, fair_of_undisturbed attachedSocket_fresh hrun ⟨.decide 3, hnext⟩⟩

/-- The first write is sent when the second is decided. -/
theorem lifetime_within_budget_decided : ∃ s : ClientSocket Unit,
    s.sent = 6 ∧ s.decided = [3] ∧ s.outstanding + s.sent ≤ smallBudget.slowClientBudgetBytes := by
  obtain ⟨s, hrun, hsent, hdecided⟩ : ∃ s : ClientSocket Unit,
      Run (Step smallBudget "client" 1) attachedSocket
        [.decide 6, .enqueue 6, .count 6, .drain 6, .decide 3] s ∧ s.sent = 6 ∧ s.decided = [3] :=
    ⟨_, .cons (.decide 6) (.cons (.enqueue (by decide +kernel)) (.cons (.count (by decide +kernel))
      (.cons (.drain rfl) (.cons (.decide 3) (.nil _))))), by decide +kernel, by decide +kernel⟩
  exact ⟨s, hsent, hdecided, lifetime_within_budget (by decide) attachedSocket_fresh hrun⟩

/-- After a frame of six bytes was sent, a second one is charged as twelve with nothing outstanding,
which is over the budget of ten. -/
theorem slow_without_backlog : ¬ ∀ events s,
    Run (Step smallBudget "client" 1) attachedSocket events s →
      ∀ event t, Step smallBudget "client" 1 s event t → s.Fair smallBudget "client" 1 event := by
  intro h
  have hfair := h [.decide 6, .enqueue 6, .count 6, .drain 6] _
    (.cons (.decide 6) (.cons (.enqueue (by decide +kernel)) (.cons (.count (by decide +kernel))
      (.cons (.drain rfl) (.nil _))))) (.decide 6) _ (.decide 6)
  exact absurd (hfair.1 12 (by decide +kernel)) (by decide +kernel)

end Sample

end ClientSocket

end Skiff.WebSocket
