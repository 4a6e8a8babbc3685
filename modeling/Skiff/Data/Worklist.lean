import Mathlib.Algebra.Order.BigOperators.Group.Finset
import Mathlib.Data.List.Sort
import Skiff.Data.Memo
import Skiff.Data.OrdMap

/-!
# Worklists

A forward analysis over numbered points. Each pending point is taken in turn, its transfer
gives a fact for each successor, and a successor whose fact changes becomes pending again.
The transfer may look rows up in a table and add to it, and may fail.

A `Lawful` analysis only lowers facts, by finitely many steps each. Then the loop ends within
`potential` rounds (`run_ne_none`), and what it returns is a post-fixpoint (`run_settled`):
at every point the transfer succeeds without adding to the table, and what it gives is above
the fact of the successor.
-/

namespace Skiff

open List

/-- The facts so far, with the points whose fact has changed since they were last taken, in
ascending order. -/
structure Worklist (α : Type) where
  states : OrdMap Nat α
  pending : List Nat

namespace Worklist

variable {σ ε α : Type}

/-- Make a point pending. -/
def insertPending (point : Nat) (pending : List Nat) : List Nat :=
  if point ∈ pending then pending else pending.orderedInsert (· ≤ ·) point

variable {pending : List Nat}

theorem mem_insertPending {point other : Nat} :
    other ∈ insertPending point pending ↔ other = point ∨ other ∈ pending := by
  unfold insertPending
  split
  case isTrue hmem =>
    constructor
    · exact .inr
    rintro (rfl | h)
    · exact hmem
    · exact h
  case isFalse => exact mem_orderedInsert _

theorem length_insertPending_le (point : Nat) (pending : List Nat) :
    (insertPending point pending).length ≤ pending.length + 1 := by
  unfold insertPending
  split
  case isTrue => omega
  case isFalse => exact (orderedInsert_length _ _ _).le

/-- What an analysis does at a point, and with a fact that reaches one. -/
structure Analysis (σ ε α : Type) where
  transfer : Nat → α → Mut σ ε (List (Nat × α))
  join : Nat → Option α → α → Except ε α
  /-- A pending point without a fact. -/
  missing : Nat → ε

variable [DecidableEq α]

/-- Record a fact of a point. -/
def put (point : Nat) (fact : α) (work : Worklist α) : Worklist α :=
  if work.states.get? point = some fact then work
  else ⟨work.states.insert point fact, insertPending point work.pending⟩

def mergeSuccessors (analysis : Analysis σ ε α) :
    List (Nat × α) → Worklist α → Except ε (Worklist α)
  | [], work => .ok work
  | (successor, next) :: rest, work => do
    let merged ← analysis.join successor (work.states.get? successor) next
    mergeSuccessors analysis rest (work.put successor merged)

/-- Take pending points until there is none; `none` when the rounds are used up. -/
def run (analysis : Analysis σ ε α) : Nat → Worklist α → Mut σ ε (Option (OrdMap Nat α))
  | _, ⟨states, []⟩ => pure (some states)
  | 0, ⟨_, _ :: _⟩ => pure none
  | rounds + 1, ⟨states, point :: pending⟩ => do
    let fact ← Mut.ofExcept ((states.get? point).elim (.error (analysis.missing point)) .ok)
    let successors ← analysis.transfer point fact
    let work ← Mut.ofExcept (mergeSuccessors analysis successors ⟨states, pending⟩)
    run analysis rounds work

@[simp] theorem get?_put_self (work : Worklist α) (point : Nat) (fact : α) :
    (work.put point fact).states.get? point = some fact := by
  unfold put
  split
  case isTrue h => exact h
  case isFalse => exact OrdMap.get?_insert_self _ _ _

theorem get?_put_of_ne (work : Worklist α) {point other : Nat} (fact : α) (h : other ≠ point) :
    (work.put point fact).states.get? other = work.states.get? other := by
  unfold put
  split
  case isTrue => rfl
  case isFalse => exact OrdMap.get?_insert_of_ne _ _ h

variable {states : OrdMap Nat α} {s t : σ}

/-- One round of the loop. -/
theorem run_round {analysis : Analysis σ ε α} {rounds point : Nat} {result : Option (OrdMap Nat α)}
    (h : run analysis (rounds + 1) ⟨states, point :: pending⟩ s = (.ok result, t)) :
    ∃ fact successors next work, states.get? point = some fact ∧
      analysis.transfer point fact s = (.ok successors, next) ∧
      mergeSuccessors analysis successors ⟨states, pending⟩ = .ok work ∧
      run analysis rounds work next = (.ok result, t) := by
  obtain ⟨fact, s₁, hfact, h₁⟩ := Mut.bind_eq_ok.mp h
  obtain ⟨hfact, hs₁⟩ := Mut.ofExcept_eq_ok.mp hfact
  obtain ⟨successors, s₂, htransfer, h₂⟩ := Mut.bind_eq_ok.mp h₁
  obtain ⟨work, s₃, hmerge, h₃⟩ := Mut.bind_eq_ok.mp h₂
  obtain ⟨hmerge, hs₃⟩ := Mut.ofExcept_eq_ok.mp hmerge
  rw [hs₁] at htransfer
  rw [hs₃] at h₃
  refine ⟨fact, successors, s₂, work, ?_, htransfer, hmerge, h₃⟩
  cases hget : states.get? point with
  | none =>
    rw [hget] at hfact
    cases hfact
  | some known =>
    rw [hget] at hfact
    rw [Except.ok.inj hfact]

variable [Preorder σ] [Preorder α]

/-- Valid facts have a rank up to `height`, and joining lowers facts. -/
structure Lawful (analysis : Analysis σ ε α) (Valid : σ → α → Prop) (rank : α → Nat)
    (points height : Nat) :
    Prop where
  stable : ∀ point fact, Mut.Stable (analysis.transfer point fact)
  valid_mono : ∀ {s t fact}, s ≤ t → Valid s fact → Valid t fact
  transfer_valid : ∀ {point fact s successors t}, Valid s fact →
    analysis.transfer point fact s = (.ok successors, t) →
      ∀ successor ∈ successors, Valid t successor.2
  join_point : ∀ {point known next merged}, analysis.join point known next = .ok merged →
    point < points
  join_valid : ∀ {s point known next merged}, (∀ fact ∈ known, Valid s fact) → Valid s next →
    analysis.join point known next = .ok merged → Valid s merged
  join_le : ∀ {point known next merged}, analysis.join point known next = .ok merged →
    merged ≤ next ∧ ∀ fact ∈ known, merged ≤ fact
  join_rank : ∀ {point fact next merged}, analysis.join point (some fact) next = .ok merged →
    merged ≠ fact →
    rank merged < rank fact
  rank_le : ∀ {s fact}, Valid s fact → rank fact ≤ height

/-- What is still to be lowered, and the pending points. -/
def potential (rank : α → Nat) (points height : Nat) (work : Worklist α) : Nat :=
  ∑ point ∈ Finset.range points, ((work.states.get? point).elim (height + 1) rank) +
    work.pending.length

omit [DecidableEq α] [Preorder α] in
theorem potential_cons (rank : α → Nat) (points height point : Nat) (states : OrdMap Nat α)
    (pending : List Nat) :
    potential rank points height ⟨states, point :: pending⟩ =
      potential rank points height ⟨states, pending⟩ + 1 :=
  rfl

/-- The successors of a point hold no more than its transfer gives them. -/
def Settled (analysis : Analysis σ ε α) (states : OrdMap Nat α) (s : σ) (point : Nat) (fact : α) :
    Prop :=
  ∃ successors, analysis.transfer point fact s = (.ok successors, s) ∧
    ∀ successor ∈ successors, ∃ known, states.get? successor.1 = some known ∧ known ≤ successor.2

/-- Facts are valid, and those of points that are not pending are settled. -/
structure Invariant (analysis : Analysis σ ε α) (Valid : σ → α → Prop) (work : Worklist α) (s : σ) :
    Prop where
  valid : ∀ {point fact}, work.states.get? point = some fact → Valid s fact
  settled : ∀ {point fact}, work.states.get? point = some fact → point ∉ work.pending →
    Settled analysis work.states s point fact

/-- Every fact of a worklist is still there in a later one, or a lower one is and the point
is pending. -/
structure Lowered (before after : Worklist α) : Prop where
  pending : ∀ {point}, point ∈ before.pending → point ∈ after.pending
  lower : ∀ {point fact}, before.states.get? point = some fact →
    ∃ known, after.states.get? point = some known ∧ known ≤ fact
  changed : ∀ {point fact}, after.states.get? point = some fact →
    before.states.get? point ≠ some fact →
    point ∈ after.pending

namespace Lowered

omit [DecidableEq α] in
theorem refl (work : Worklist α) : Lowered work work where
  pending h := h
  lower h := ⟨_, h, le_refl _⟩
  changed h hne := absurd h hne

omit [DecidableEq α] in
theorem trans {a b c : Worklist α} (hab : Lowered a b) (hbc : Lowered b c) : Lowered a c where
  pending h := hbc.pending (hab.pending h)
  lower h := by
    obtain ⟨known, hknown, hle⟩ := hab.lower h
    obtain ⟨last, hlast, hle'⟩ := hbc.lower hknown
    exact ⟨last, hlast, le_trans hle' hle⟩
  changed := by
    intro point fact h hne
    by_cases hb : b.states.get? point = some fact
    · exact hbc.pending (hab.changed hb hne)
    · exact hbc.changed h hb

end Lowered

variable {point : Nat}

theorem put_lowered {work : Worklist α} {fact : α}
    (hle : ∀ known ∈ work.states.get? point, fact ≤ known) :
    Lowered work (work.put point fact) := by
  unfold put
  split
  case isTrue => exact .refl work
  case isFalse =>
    constructor
    · intro other h
      exact mem_insertPending.mpr (.inr h)
    · intro other known h
      by_cases heq : other = point
      · subst heq
        exact ⟨fact, OrdMap.get?_insert_self _ _ _, hle known h⟩
      · exact ⟨known, (OrdMap.get?_insert_of_ne _ _ heq).trans h, le_refl _⟩
    intro other known h hne
    by_cases heq : other = point
    · exact mem_insertPending.mpr (.inl heq)
    rw [OrdMap.get?_insert_of_ne _ _ heq] at h
    exact absurd h hne

section

variable {analysis : Analysis σ ε α} {Valid : σ → α → Prop} {rank : α → Nat} {points height : Nat}
variable (law : Lawful analysis Valid rank points height)

include law

variable {work : Worklist α}

variable {s : σ}

theorem put_valid {next merged : α}
    (hvalid : ∀ {point fact}, work.states.get? point = some fact → Valid s fact)
    (hnext : Valid s next) (hjoin : analysis.join point (work.states.get? point) next = .ok merged)
    {other : Nat} {fact : α} (h : (work.put point merged).states.get? other = some fact) :
    Valid s fact := by
  by_cases heq : other = point
  · subst heq
    rw [get?_put_self] at h
    cases h
    exact law.join_valid (fun known hknown => hvalid hknown) hnext hjoin
  rw [get?_put_of_ne _ _ heq] at h
  exact hvalid h

variable {successors : List (Nat × α)}

variable {work work' : Worklist α}

/-- Merging lowers the facts of the successors below what reaches them. -/
theorem mergeSuccessors_spec
    (hvalid : ∀ {point fact}, work.states.get? point = some fact → Valid s fact)
    (hnext : ∀ successor ∈ successors, Valid s successor.2)
    (h : mergeSuccessors analysis successors work = .ok work') :
    Lowered work work' ∧ (∀ {point fact}, work'.states.get? point = some fact → Valid s fact) ∧
      ∀ successor ∈ successors, ∃ known, work'.states.get? successor.1 = some known ∧
        known ≤ successor.2 := by
  induction successors generalizing work with
  | nil =>
    obtain rfl := Except.ok.inj h
    exact ⟨.refl work, hvalid, fun _ hmem => absurd hmem not_mem_nil⟩
  | cons successor rest ih =>
    obtain ⟨point, next⟩ := successor
    obtain ⟨merged, hjoin, h⟩ := bind_eq_ok.mp h
    have hle := law.join_le hjoin
    have hput := put_lowered hle.2
    have hthis := hnext _ mem_cons_self
    obtain ⟨hlow, hvalid', hrest⟩ := ih (fun h => put_valid law hvalid hthis hjoin h)
      (fun other hother => hnext other (mem_cons_of_mem _ hother)) h
    refine ⟨hput.trans hlow, hvalid', fun other hother => ?_⟩
    obtain rfl | hother := mem_cons.mp hother
    · obtain ⟨known, hknown, hbelow⟩ := hlow.lower (get?_put_self work point merged)
      exact ⟨known, hknown, le_trans hbelow hle.1⟩
    · exact hrest other hother

/-- A round that takes a point settles it and keeps the others settled. -/
theorem round_invariant {fact : α} (hinv : Invariant analysis Valid ⟨states, point :: pending⟩ s)
    (hfact : states.get? point = some fact)
    (htransfer : analysis.transfer point fact s = (.ok successors, t))
    (hmerge : mergeSuccessors analysis successors ⟨states, pending⟩ = .ok work) :
    Invariant analysis Valid work t ∧ Lowered ⟨states, pending⟩ work := by
  have hstable := law.stable point fact
  have hgrows := hstable.grows htransfer
  have hold : ∀ {other known}, states.get? other = some known → Valid t known :=
    fun h => law.valid_mono hgrows (hinv.valid h)
  obtain ⟨hlow, hvalid, hbelow⟩ := mergeSuccessors_spec law hold
    (law.transfer_valid (hinv.valid hfact) htransfer) hmerge
  refine ⟨⟨hvalid, fun {other known} h hpending => ?_⟩, hlow⟩
  have hsame : states.get? other = some known := by
    by_contra hne
    exact hpending (hlow.changed h hne)
  by_cases heq : other = point
  · subst heq
    rw [hfact] at hsame
    cases hsame
    exact ⟨successors, hstable.again htransfer (le_refl t), hbelow⟩
  have hbefore : other ∉ point :: pending := by
    intro hmem
    obtain rfl | hmem := mem_cons.mp hmem
    · exact heq rfl
    · exact hpending (hlow.pending hmem)
  obtain ⟨targets, hrun, htargets⟩ := hinv.settled hsame hbefore
  refine ⟨targets, (law.stable other known).again hrun hgrows, fun target htarget => ?_⟩
  obtain ⟨low, hget, hle⟩ := htargets target htarget
  obtain ⟨lower, hget', hle'⟩ := hlow.lower hget
  exact ⟨lower, hget', le_trans hle' hle⟩

/-- The facts that the loop returns are settled, and below those it starts from. -/
theorem run_settled {rounds : Nat} (hinv : Invariant analysis Valid work s)
    (h : run analysis rounds work s = (.ok (some states), t)) :
    (∀ {point fact}, states.get? point = some fact → Valid t fact ∧
      Settled analysis states t point fact) ∧
      ∀ {point fact}, work.states.get? point = some fact → ∃ known, states.get? point = some known ∧
        known ≤ fact := by
  induction rounds generalizing work s with
  | zero =>
    obtain ⟨start, pending⟩ := work
    cases pending with
    | nil =>
      obtain ⟨hsome, rfl⟩ := Mut.pure_eq_ok.mp h
      cases hsome
      exact ⟨fun hget => ⟨hinv.valid hget, hinv.settled hget not_mem_nil⟩,
        fun hget => ⟨_, hget, le_refl _⟩⟩
    | cons point pending => cases (Mut.pure_eq_ok.mp h).1
  | succ rounds ih =>
    obtain ⟨start, pending⟩ := work
    cases pending with
    | nil =>
      obtain ⟨hsome, rfl⟩ := Mut.pure_eq_ok.mp h
      cases hsome
      exact ⟨fun hget => ⟨hinv.valid hget, hinv.settled hget not_mem_nil⟩,
        fun hget => ⟨_, hget, le_refl _⟩⟩
    | cons point pending =>
      obtain ⟨fact, successors, next, later, hget, htransfer, hmerge, h⟩ := run_round h
      obtain ⟨hinv', hlow⟩ := round_invariant law hinv hget htransfer hmerge
      obtain ⟨hsettled, hbelow⟩ := ih hinv' h
      refine ⟨hsettled, fun hknown => ?_⟩
      obtain ⟨known, hlater, hle⟩ := hlow.lower hknown
      obtain ⟨last, hlast, hle'⟩ := hbelow hlater
      exact ⟨last, hlast, le_trans hle' hle⟩

/-- Recording a joined fact does not raise the potential. -/
theorem potential_put_le {next merged : α}
    (hvalid : ∀ {point fact}, work.states.get? point = some fact → Valid s fact)
    (hnext : Valid s next)
    (hjoin : analysis.join point (work.states.get? point) next = .ok merged) :
    potential rank points height (work.put point merged) ≤ potential rank points height work := by
  by_cases hsame : work.states.get? point = some merged
  · rw [put, if_pos hsame]
  have hless : rank merged < (work.states.get? point).elim (height + 1) rank := by
    have hmerged : Valid s merged := law.join_valid (fun known hknown => hvalid hknown) hnext hjoin
    cases hknown : work.states.get? point with
    | none => exact Nat.lt_succ_of_le (law.rank_le hmerged)
    | some known =>
      rw [hknown] at hjoin hsame
      exact law.join_rank hjoin fun heq => hsame (heq ▸ rfl)
  have hsum : ∑ p ∈ Finset.range points,
    (((work.put point merged).states.get? p).elim (height + 1) rank) <
      ∑ p ∈ Finset.range points, ((work.states.get? p).elim (height + 1) rank) := by
    apply Finset.sum_lt_sum
    · intro other _
      by_cases heq : other = point
      · subst heq
        rw [get?_put_self]
        exact hless.le
      · rw [get?_put_of_ne _ _ heq]
    refine ⟨point, Finset.mem_range.mpr (law.join_point hjoin), ?_⟩
    rw [get?_put_self]
    exact hless
  have hlength : (work.put point merged).pending.length ≤ work.pending.length + 1 := by
    rw [put, if_neg hsame]
    exact length_insertPending_le point work.pending
  unfold potential
  omega

theorem potential_mergeSuccessors_le
    (hvalid : ∀ {point fact}, work.states.get? point = some fact → Valid s fact)
    (hnext : ∀ successor ∈ successors, Valid s successor.2)
    (h : mergeSuccessors analysis successors work = .ok work') :
    potential rank points height work' ≤ potential rank points height work := by
  induction successors generalizing work with
  | nil =>
    cases h
    exact le_refl _
  | cons successor rest ih =>
    obtain ⟨point, next⟩ := successor
    obtain ⟨merged, hjoin, h⟩ := bind_eq_ok.mp h
    have hthis := hnext _ (.head _)
    have hrest := ih (fun h => put_valid law hvalid hthis hjoin h)
      (fun other hother => hnext other (.tail _ hother)) h
    exact hrest.trans (potential_put_le law hvalid hthis hjoin)

/-- The rounds of the potential are enough. -/
theorem run_ne_none {rounds : Nat} (hinv : Invariant analysis Valid work s)
    (hrounds : potential rank points height work ≤ rounds) :
    run analysis rounds work s ≠ (.ok none, t) := by
  intro h
  induction rounds generalizing work s with
  | zero =>
    obtain ⟨start, pending⟩ := work
    cases pending with
    | nil => cases (Mut.pure_eq_ok.mp h).1
    | cons point pending =>
      rw [potential_cons] at hrounds
      omega
  | succ rounds ih =>
    obtain ⟨start, pending⟩ := work
    cases pending with
    | nil => cases (Mut.pure_eq_ok.mp h).1
    | cons point pending =>
      obtain ⟨fact, successors, next, later, hget, htransfer, hmerge, h⟩ := run_round h
      have hvalid := law.transfer_valid (hinv.valid hget) htransfer
      have hgrows := (law.stable point fact).grows htransfer
      have hold : ∀ {other known}, start.get? other = some known → Valid next known :=
        fun h => law.valid_mono hgrows (hinv.valid h)
      have hle := potential_mergeSuccessors_le law hold hvalid hmerge
      rw [potential_cons] at hrounds
      exact ih (round_invariant law hinv hget htransfer hmerge).1 (by omega) h

end

end Worklist

end Skiff
