import Skiff.Data.Run
import Skiff.Heap.RebaseGraph

/-!
# Handles across rollbacks

Runs of a request heap that allocate, mutate, prepare rollbacks and commit them. Beside the
heap, the state keeps what the statements speak about: the handles issued so far, which node
stands in each slot, the plans that were prepared, and how long the heap has ever been.

A rebase raises the generation of every slot that it reuses, but an allocation starts at
generation zero again. So a handle that went stale stays so as long as no allocation takes
an index that was in use before.
-/

namespace Skiff.Heap

open Skiff.Runtime (HeapHandle RuntimeValue RuntimeError)
open List RollbackRebaseBuilder Mutation RequestHeap

variable {ι δ : Type}

/-- A prepared rollback: what it will install, which nodes these are, and how many commits
there had been when it was prepared. -/
structure Plan (ι δ : Type) where
  prepared : PreparedRequestHeapRollback ι δ
  checkpoint : RequestHeapCheckpoint
  ids : List Nat
  commits : Nat

structure System (ι δ : Type) where
  heap : RequestHeap ι δ
  ids : List Nat
  nextId : Nat
  issued : List HeapHandle
  plans : List (Plan ι δ)
  commits : Nat
  high : Nat

inductive HeapEvent (ι δ : Type) where
  | allocate (allocation : Allocation ι δ)
  | mutate (mutation : Mutation ι)
  | prepare (checkpoint : RequestHeapCheckpoint) (roots : List RuntimeValue)
  | commit (index : Nat)

namespace System

def new (epoch : Nat) (limits : RequestHeapLimits) : System ι δ :=
  ⟨.newWithEpoch epoch limits, [], 0, [], [], 0, 0⟩

def allocate (s : System ι δ) (allocation : Allocation ι δ) : System ι δ :=
  match allocation.apply s.heap with
  | (.ok handle, heap) =>
    { s with
      heap := heap
      ids := s.ids ++ [s.nextId]
      nextId := s.nextId + 1
      issued := handle :: s.issued
      high := max s.high heap.nodes.length }
  | (.error _, heap) => { s with heap := heap }

/-- The nodes that a rebase leaves, in their new places. -/
def rebasedIds (s : System ι δ) (checkpoint : RequestHeapCheckpoint) (roots : List RuntimeValue) :
    List Nat :=
  match discover s.heap checkpoint roots with
  | .ok builder => s.ids.take checkpoint.len ++
      builder.suffixSources.map fun handle => s.ids.getD handle.index 0
  | .error _ => []

def prepare (s : System ι δ) (checkpoint : RequestHeapCheckpoint) (roots : List RuntimeValue) :
    System ι δ :=
  match s.heap.prepareRollbackRebase checkpoint roots with
  | .ok prepared =>
    { s with plans := s.plans ++
      [⟨prepared, checkpoint, s.rebasedIds checkpoint roots, s.commits⟩] }
  | .error _ => s

/-- All handles of a heap, which a commit gives out. -/
def handles (heap : RequestHeap ι δ) : List HeapHandle := heap.nodes.mapIdx heap.handleAt

def install (s : System ι δ) (plan : Plan ι δ) : System ι δ :=
  let heap := s.heap.commitPreparedRollbackRebase plan.prepared
  { s with
    heap := heap
    ids := plan.ids
    issued := handles heap ++ s.issued
    commits := s.commits + 1 }

def commit (s : System ι δ) (index : Nat) : System ι δ :=
  match s.plans[index]? with
  | some plan => s.install plan
  | none => s

def step (s : System ι δ) : HeapEvent ι δ → System ι δ
  | .allocate allocation => s.allocate allocation
  | .mutate mutation => { s with heap := (mutation.apply s.heap).2 }
  | .prepare checkpoint roots => s.prepare checkpoint roots
  | .commit index => s.commit index

/-- What keeps stale handles dead: an allocation takes an index that was never in use, and
a plan is committed before any other. -/
def Careful (s : System ι δ) : HeapEvent ι δ → Prop
  | .allocate _ => s.heap.nodes.length = s.high
  | .mutate _ => True
  | .prepare _ _ => True
  | .commit index => ∀ plan, s.plans[index]? = some plan → plan.commits = s.commits

/-- Runs in which every step is careful. -/
def CarefulRun : System ι δ → List (HeapEvent ι δ) → System ι δ → Prop :=
  Run fun s event t => s.Careful event ∧ t = s.step event

end System

/-! ## Generations -/

namespace RequestHeap

theorem generationAt_mutate (heap : RequestHeap ι δ) (mutation : Mutation ι) (index : Nat) :
    generationAt (mutation.apply heap).2.nodes index = generationAt heap.nodes index ∧
      (mutation.apply heap).2.nodes.length = heap.nodes.length ∧
      (mutation.apply heap).2.epoch = heap.epoch := by
  generalize hrun : mutation.apply heap = run
  obtain ⟨r, heap'⟩ := run
  cases outcome hrun with
  | refused _ => exact ⟨rfl, rfl, rfl⟩
  | edited _ edit => exact ⟨edit.generationAt index, by rw [edit.nodes, length_set], edit.epoch⟩

end RequestHeap

/-! ## What a careful run keeps -/

/-- A plan against the heap it may be committed to: slots below the checkpoint keep their
generation and node, the others get the next generation. -/
structure Plan.Fits (plan : Plan ι δ) (nodes : List (HeapSlot ι δ)) (ids : List Nat) : Prop where
  length : plan.prepared.nodes.length ≤ nodes.length
  below : plan.checkpoint.len ≤ plan.prepared.nodes.length
  named : plan.ids.length = plan.prepared.nodes.length
  kept : ∀ index < plan.checkpoint.len,
    generationAt plan.prepared.nodes index = generationAt nodes index ∧
      plan.ids[index]? = ids[index]?
  moved : ∀ index generation, plan.checkpoint.len ≤ index →
    generationAt plan.prepared.nodes index = some generation →
    ∃ old, generationAt nodes index = some old ∧ generation = old + 1

theorem Plan.fits_prepared {checkpoint : RequestHeapCheckpoint}
    {roots : List RuntimeValue} {prepared : PreparedRequestHeapRollback ι δ} {s : System ι δ}
    (hids : s.ids.length = s.heap.nodes.length)
    (h : s.heap.prepareRollbackRebase checkpoint roots = .ok prepared) :
    (⟨prepared, checkpoint, s.rebasedIds checkpoint roots, s.commits⟩ : Plan ι δ).Fits s.heap.nodes
      s.ids := by
  obtain ⟨hlen, builder, hdiscover, hprepare⟩ := prepareRollbackRebase_ok h
  have found := discover_spec hdiscover
  have prepares := prepare_spec hlen found hprepare
  have hfits := found.length_le hlen
  have hrebased : s.rebasedIds checkpoint roots = s.ids.take checkpoint.len ++
      builder.suffixSources.map fun handle => s.ids.getD handle.index 0 := by
    rw [System.rebasedIds, hdiscover]
  have htake : (s.ids.take checkpoint.len).length = checkpoint.len := by
    rw [length_take, hids, min_eq_left hlen]
  refine ⟨?_, ?_, ?_, fun index hindex => ⟨?_, ?_⟩, fun index generation hindex hgeneration => ?_⟩
  · exact prepares.length.trans_le hfits
  · rw [prepares.length]
    exact Nat.le_add_right _ _
  · change (s.rebasedIds checkpoint roots).length = prepared.nodes.length
    rw [prepares.length, hrebased, length_append, htake, length_map]
  · change generationAt prepared.nodes index = _
    rw [generationAt, prepares.kept index hindex, generationAt, Option.map_map]
    rfl
  · change (s.rebasedIds checkpoint roots)[index]? = _
    rw [hrebased, getElem?_append_left (by rw [htake]; exact hindex), getElem?_take_of_lt hindex]
  have hlt := lt_of_generationAt hgeneration
  change index < prepared.nodes.length at hlt
  change checkpoint.len ≤ index at hindex
  rw [prepares.length] at hlt
  obtain ⟨k, rfl⟩ := Nat.exists_eq_add_of_le hindex
  have hk : k < builder.suffixSources.length := by omega
  obtain ⟨slot, -, hmoved⟩ := prepares.moved k _ (getElem?_eq_getElem hk)
  have hsource : checkpoint.len + k < s.heap.nodes.length := by omega
  change generationAt prepared.nodes _ = _ at hgeneration
  rw [generationAt, hmoved] at hgeneration
  refine ⟨_, by rw [generationAt, getElem?_eq_getElem hsource]; rfl, ?_⟩
  simpa [HeapSlot.rebased, destinationAt, getElem?_eq_getElem hsource, eq_comm]
    using hgeneration

theorem Plan.Fits.append {plan : Plan ι δ} {nodes rest : List (HeapSlot ι δ)} {ids more : List Nat}
    (fits : plan.Fits nodes ids) (hids : ids.length = nodes.length) :
    plan.Fits (nodes ++ rest) (ids ++ more) := by
  have hlength := fits.length
  have hbelow := fits.below
  refine ⟨?_, hbelow, fits.named, fun index hindex => ?_, fun index generation hindex hgeneration =>
    ?_⟩
  · rw [length_append]
    omega
  · obtain ⟨hgeneration, hid⟩ := fits.kept index hindex
    rw [generationAt_append (by omega), getElem?_append_left (by omega)]
    exact ⟨hgeneration, hid⟩
  have hlt := lt_of_generationAt hgeneration
  rw [generationAt_append (by omega)]
  exact fits.moved index generation hindex hgeneration

variable {heap : RequestHeap ι δ}

namespace System

variable {s t : System ι δ} {handle : HeapHandle} {event : HeapEvent ι δ}

/-- What holds in every state of a careful run. -/
structure Sound (s : System ι δ) : Prop where
  named : s.ids.length = s.heap.nodes.length
  high : s.heap.nodes.length ≤ s.high
  issued : ∀ handle ∈ s.issued, handle.epoch = s.heap.epoch ∧ handle.index < s.high ∧
    ∀ generation, generationAt s.heap.nodes handle.index = some generation →
      handle.generation ≤ generation
  plans : ∀ plan ∈ s.plans, plan.commits ≤ s.commits ∧
    (plan.commits = s.commits → plan.Fits s.heap.nodes s.ids)

/-- What a step can do to the heap and to what is known about it. -/
inductive Effect (s : System ι δ) : System ι δ → Prop where
  | same {t : System ι δ} (length : t.heap.nodes.length = s.heap.nodes.length)
      (generations : ∀ index, generationAt t.heap.nodes index = generationAt s.heap.nodes index)
      (epoch : t.heap.epoch = s.heap.epoch) (ids : t.ids = s.ids) (issued : t.issued = s.issued)
      (commits : t.commits = s.commits) (high : t.high = s.high)
      (plans : ∀ plan ∈ t.plans, plan ∈ s.plans ∨
        plan.commits = s.commits ∧
          (s.ids.length = s.heap.nodes.length → plan.Fits s.heap.nodes s.ids)) :
      Effect s t
  | grown {slot : HeapSlot ι δ} {t : System ι δ} (fresh : slot.generation = 0)
      (nodes : t.heap.nodes = s.heap.nodes ++ [slot]) (epoch : t.heap.epoch = s.heap.epoch)
      (ids : t.ids = s.ids ++ [s.nextId])
      (issued : t.issued = ⟨s.heap.nodes.length, 0, s.heap.epoch⟩ :: s.issued)
      (commits : t.commits = s.commits) (high : t.high = max s.high (s.heap.nodes.length + 1))
      (plans : t.plans = s.plans) (careful : s.heap.nodes.length = s.high) : Effect s t
  | rebased {plan : Plan ι δ} (mem : plan ∈ s.plans) (current : plan.commits = s.commits) :
      Effect s (s.install plan)

theorem step_effect (h : s.Careful event) : Effect s (s.step event) := by
  cases event with
  | allocate allocation =>
    rw [step, allocate]
    split
    case h_1 created heap hrun =>
      rw [allocation.apply_eq] at hrun
      obtain ⟨_, hfailed, -⟩ | ⟨hhandle, rfl, -⟩ := allocNodeWithCarriers_cases hrun
      · cases hfailed
      cases hhandle
      refine .grown rfl rfl rfl rfl rfl rfl ?_ rfl h
      simp [pushSlot]
    case h_2 failure heap hrun =>
      rw [allocation.apply_eq] at hrun
      obtain ⟨_, -, -, rfl⟩ | ⟨hok, -⟩ := allocNodeWithCarriers_cases hrun
      · exact .same rfl (fun _ => rfl) rfl rfl rfl rfl rfl fun plan hplan => .inl hplan
      · cases hok
  | mutate mutation =>
    have hsame := generationAt_mutate s.heap mutation
    exact .same (hsame 0).2.1 (fun index => (hsame index).1) (hsame 0).2.2 rfl rfl rfl rfl
      fun plan hplan => .inl hplan
  | prepare checkpoint roots =>
    rw [step, prepare]
    split
    case h_1 prepared hprepared =>
      refine .same rfl (fun _ => rfl) rfl rfl rfl rfl rfl fun plan hplan => ?_
      obtain hplan | hplan := mem_append.mp hplan
      · exact .inl hplan
      obtain rfl := mem_singleton.mp hplan
      exact .inr ⟨rfl, fun hids => Plan.fits_prepared hids hprepared⟩
    · exact .same rfl (fun _ => rfl) rfl rfl rfl rfl rfl fun plan hplan => .inl hplan
  | commit index =>
    rw [step, commit]
    split
    case h_1 plan hplan => exact .rebased (mem_of_getElem? hplan) (h plan hplan)
    · exact .same rfl (fun _ => rfl) rfl rfl rfl rfl rfl fun plan hplan => .inl hplan

theorem mem_handles (h : handle ∈ handles heap) :
    handle.epoch = heap.epoch ∧ generationAt heap.nodes handle.index = some handle.generation := by
  rw [handles, mem_mapIdx] at h
  obtain ⟨index, hlt, rfl⟩ := h
  exact ⟨rfl, by rw [generationAt, handleAt, getElem?_eq_getElem hlt]; rfl⟩

theorem Sound.step (sound : s.Sound) (effect : Effect s t) : t.Sound := by
  cases effect with
  | same length generations epoch ids issued commits high plans =>
    refine ⟨by rw [ids, length, sound.named], by rw [length, high]; exact sound.high,
      fun handle hissued => ?_, fun plan hplan => ?_⟩
    · rw [issued] at hissued
      obtain ⟨hepoch, hindex, hle⟩ := sound.issued handle hissued
      rw [epoch, high, generations]
      exact ⟨hepoch, hindex, hle⟩
    have hcarry : ∀ {plan : Plan ι δ}, plan.Fits s.heap.nodes s.ids →
      plan.Fits t.heap.nodes t.ids := by
      intro plan fits
      refine ⟨fits.length.trans_eq length.symm, fits.below, fits.named, fun index hindex => ?_,
        fun index generation hindex hgeneration => ?_⟩
      · rw [generations, ids]
        exact fits.kept index hindex
      rw [generations]
      exact fits.moved index generation hindex hgeneration
    rw [commits]
    obtain hold | ⟨hcommits, hfits⟩ := plans plan hplan
    · obtain ⟨hle, hfits⟩ := sound.plans plan hold
      exact ⟨hle, fun heq => hcarry (hfits heq)⟩
    · exact ⟨hcommits.le, fun _ => hcarry (hfits sound.named)⟩
  | grown fresh nodes epoch ids issued commits high plans careful =>
    refine ⟨by rw [ids, nodes, length_append, length_append, sound.named]; rfl, ?_,
      fun handle hissued => ?_, fun plan hplan => ?_⟩
    · rw [nodes, high, length_append]
      exact le_max_right _ _
    · rw [issued] at hissued
      obtain rfl | hissued := mem_cons.mp hissued
      · exact ⟨epoch.symm, by
          rw [high]; exact lt_max_of_lt_right (Nat.lt_succ_self _), fun _ _ => Nat.zero_le _⟩
      obtain ⟨hepoch, hindex, hle⟩ := sound.issued handle hissued
      rw [epoch, high, nodes, generationAt_append (careful ▸ hindex)]
      exact ⟨hepoch, lt_max_of_lt_left hindex, hle⟩
    rw [plans] at hplan
    rw [commits, nodes, ids]
    obtain ⟨hle, hfits⟩ := sound.plans plan hplan
    exact ⟨hle, fun heq => (hfits heq).append sound.named⟩
  | @rebased plan mem current =>
    have fits := (sound.plans plan mem).2 current
    refine ⟨fits.named, fits.length.trans sound.high, fun handle hissued => ?_, fun other hother =>
      ?_⟩
    · obtain hnew | hissued := mem_append.mp hissued
      · obtain ⟨hepoch, hgeneration⟩ := mem_handles hnew
        refine ⟨hepoch, ?_, fun generation hsame => ?_⟩
        · exact lt_of_lt_of_le (lt_of_generationAt hgeneration) (fits.length.trans sound.high)
        · exact (Option.some.inj (hgeneration.symm.trans hsame)).le
      obtain ⟨hepoch, hindex, hle⟩ := sound.issued handle hissued
      refine ⟨hepoch, hindex, fun generation hgeneration => ?_⟩
      by_cases hbelow : handle.index < plan.checkpoint.len
      · exact hle generation ((fits.kept _ hbelow).1.symm.trans hgeneration)
      obtain ⟨old, hold, rfl⟩ := fits.moved _ _ (Nat.not_lt.mp hbelow) hgeneration
      exact (hle old hold).trans (Nat.le_succ old)
    obtain ⟨hle, -⟩ := sound.plans other hother
    exact ⟨hle.trans (Nat.le_succ _), fun heq => absurd heq (Nat.ne_of_lt (Nat.lt_succ_of_le hle))⟩

theorem sound_new (epoch : Nat) (limits : RequestHeapLimits) :
    (new epoch limits : System ι δ).Sound :=
  ⟨rfl, le_refl _, by simp [new], by simp [new]⟩

/-- A handle that will not resolve again: its slot is gone and the heap does not grow any
more, or its slot went on to a later generation. -/
def Dead (s : System ι δ) (handle : HeapHandle) : Prop :=
  (s.heap.nodes.length ≤ handle.index ∧ s.heap.nodes.length < s.high) ∨
    ∃ generation, generationAt s.heap.nodes handle.index = some generation ∧
      handle.generation < generation

theorem Dead.step (sound : s.Sound) (dead : s.Dead handle) (effect : Effect s t) :
    t.Dead handle := by
  cases effect with
  | same length generations epoch ids issued commits high plans =>
    rw [Dead, length, high, generations]
    exact dead
  | grown fresh nodes epoch ids issued commits high plans careful =>
    obtain ⟨-, hlt⟩ | ⟨generation, hgeneration, hlt⟩ := dead
    · omega
    refine .inr ⟨generation, ?_, hlt⟩
    rw [nodes, generationAt_append (lt_of_generationAt hgeneration)]
    exact hgeneration
  | @rebased plan mem current =>
    have fits := (sound.plans plan mem).2 current
    obtain ⟨hgone, hlt⟩ | ⟨generation, hgeneration, hlt⟩ := dead
    · exact .inl ⟨fits.length.trans hgone, fits.length.trans_lt hlt⟩
    by_cases hindex : handle.index < plan.prepared.nodes.length
    · obtain ⟨next, hnext⟩ := exists_generationAt hindex
      refine .inr ⟨next, hnext, ?_⟩
      by_cases hbelow : handle.index < plan.checkpoint.len
      · have hsame := (fits.kept _ hbelow).1.symm.trans hnext
        rw [hgeneration] at hsame
        cases hsame
        exact hlt
      obtain ⟨old, hold, rfl⟩ := fits.moved _ _ (Nat.not_lt.mp hbelow) hnext
      rw [hgeneration] at hold
      cases hold
      exact hlt.trans (Nat.lt_succ_self _)
    have hindex := Nat.not_lt.mp hindex
    refine .inl ⟨hindex, ?_⟩
    exact (hindex.trans_lt (lt_of_generationAt hgeneration)).trans_le sound.high

/-- A handle that resolves goes on to name the same node, or is dead from now on. -/
theorem resolves_step (sound : s.Sound) (hresolves : s.heap.Resolves handle) (effect : Effect s t) :
    (t.heap.Resolves handle ∧ t.ids[handle.index]? = s.ids[handle.index]?) ∨ t.Dead handle := by
  obtain ⟨hepoch, hgeneration⟩ := resolves_iff.mp hresolves
  have hlt := lt_of_generationAt hgeneration
  cases effect with
  | same length generations epoch ids issued commits high plans =>
    refine .inl ⟨resolves_iff.mpr ⟨hepoch.trans epoch.symm, ?_⟩, by rw [ids]⟩
    rw [generations]
    exact hgeneration
  | grown fresh nodes epoch ids issued commits high plans careful =>
    refine .inl ⟨resolves_iff.mpr ⟨hepoch.trans epoch.symm, ?_⟩, ?_⟩
    · rw [nodes, generationAt_append hlt]
      exact hgeneration
    · rw [ids, getElem?_append_left (sound.named ▸ hlt)]
  | @rebased plan mem current =>
    have fits := (sound.plans plan mem).2 current
    by_cases hbelow : handle.index < plan.checkpoint.len
    · obtain ⟨hkept, hid⟩ := fits.kept _ hbelow
      exact .inl ⟨resolves_iff.mpr ⟨hepoch, hkept.trans hgeneration⟩, hid⟩
    refine .inr ?_
    by_cases hindex : handle.index < plan.prepared.nodes.length
    · obtain ⟨next, hnext⟩ := exists_generationAt hindex
      obtain ⟨old, hold, rfl⟩ := fits.moved _ _ (Nat.not_lt.mp hbelow) hnext
      rw [hgeneration] at hold
      cases hold
      exact .inr ⟨_, hnext, Nat.lt_succ_self _⟩
    have hindex := Nat.not_lt.mp hindex
    exact .inl ⟨hindex, (hindex.trans_lt hlt).trans_le sound.high⟩

/-- A commit leaves no issued handle in between: it is one of a node below the checkpoint,
or it is dead. -/
theorem dead_of_commit {plan : Plan ι δ} (sound : s.Sound) (mem : plan ∈ s.plans)
    (current : plan.commits = s.commits) (hissued : handle ∈ s.issued)
    (hpre : ¬ s.heap.PreCheckpoint plan.checkpoint handle) : (s.install plan).Dead handle := by
  have fits := (sound.plans plan mem).2 current
  obtain ⟨hepoch, hindex, hle⟩ := sound.issued handle hissued
  by_cases hlt : handle.index < plan.prepared.nodes.length
  · obtain ⟨next, hnext⟩ := exists_generationAt hlt
    refine .inr ⟨next, hnext, ?_⟩
    by_cases hbelow : handle.index < plan.checkpoint.len
    · have hsame := (fits.kept _ hbelow).1.symm.trans hnext
      refine lt_of_le_of_ne (hle next hsame) fun heq => hpre ⟨?_, hbelow⟩
      exact resolves_iff.mpr ⟨hepoch, heq ▸ hsame⟩
    obtain ⟨old, hold, rfl⟩ := fits.moved _ _ (Nat.not_lt.mp hbelow) hnext
    exact Nat.lt_succ_of_le (hle old hold)
  have hgone := Nat.not_lt.mp hlt
  exact .inl ⟨hgone, hgone.trans_lt hindex⟩

theorem not_resolves_of_dead (dead : s.Dead handle) : ¬ s.heap.Resolves handle := by
  intro hresolves
  obtain ⟨-, hgeneration⟩ := resolves_iff.mp hresolves
  obtain ⟨hgone, -⟩ | ⟨generation, hsame, hlt⟩ := dead
  · rw [generationAt_eq_none hgone] at hgeneration
    cases hgeneration
  rw [hgeneration] at hsame
  cases hsame
  exact lt_irrefl _ hlt

variable {events : List (HeapEvent ι δ)}

/-- The states of a careful run are sound. -/
theorem CarefulRun.sound (run : CarefulRun s events t) (sound : s.Sound) : t.Sound := by
  refine Run.invariant (fun hsound hstep => ?_) run sound
  obtain ⟨hcareful, rfl⟩ := hstep
  exact hsound.step (step_effect hcareful)

theorem CarefulRun.dead (run : CarefulRun s events t) (sound : s.Sound)
    (dead : s.Dead handle) : t.Dead handle := by
  have hboth := Run.invariant (P := fun u => u.Sound ∧ u.Dead handle) (fun hpair hstep => ?_) run
    ⟨sound, dead⟩
  · exact hboth.2
  obtain ⟨hcareful, rfl⟩ := hstep
  have effect := step_effect hcareful
  exact ⟨hpair.1.step effect, hpair.2.step hpair.1 effect⟩

/-- A handle that resolves names its node for good, or dies. -/
theorem CarefulRun.same_node (run : CarefulRun s events t) (sound : s.Sound)
    (hresolves : s.heap.Resolves handle) :
    (t.heap.Resolves handle ∧ t.ids[handle.index]? = s.ids[handle.index]?) ∨ t.Dead handle := by
  have hall := Run.invariant (P := fun u => u.Sound ∧
    ((u.heap.Resolves handle ∧ u.ids[handle.index]? = s.ids[handle.index]?) ∨ u.Dead handle))
    (fun hpair hstep => ?_) run ⟨sound, .inl ⟨hresolves, rfl⟩⟩
  · exact hall.2
  obtain ⟨hcareful, rfl⟩ := hstep
  obtain ⟨hsound, hstate⟩ := hpair
  have effect := step_effect hcareful
  refine ⟨hsound.step effect, ?_⟩
  obtain ⟨halive, hid⟩ | dead := hstate
  · obtain ⟨hstill, hsame⟩ | dead := resolves_step hsound halive effect
    · exact .inl ⟨hstill, hsame.trans hid⟩
    · exact .inr dead
  · exact .inr (dead.step hsound effect)

end System

/-! ## Failing closed -/

/-- Every access through the handle is the same error about the handle. A mutation looks
at the value to insert first, and changes nothing either way. -/
structure RequestHeap.Refuses (heap : RequestHeap ι δ) (handle : HeapHandle) (failure : Failure) :
    Prop where
  invalid : ∃ reason, failure = invalidHandleError handle reason
  get : heap.get handle = .error failure
  arrayItemCarrier : ∀ index, heap.arrayItemCarrier handle index = .error failure
  localCarrierCell : heap.localCarrierCell handle = .error failure
  objectFieldCarrier : ∀ field, heap.objectFieldCarrier handle field = .error failure
  mapEntryCarrier : ∀ key, heap.mapEntryCarrier handle key = .error failure
  interfaceLocalPayloadCarrier : heap.interfaceLocalPayloadCarrier handle = .error failure
  mutate : ∀ mutation : Mutation ι, mutation.target = handle →
    (∀ value ∈ mutation.added, heap.checkInsertWithoutCycle handle value = .ok ()) →
    mutation.apply heap = (.error failure, heap)
  unchanged : ∀ mutation : Mutation ι, mutation.target = handle →
    ∃ failure, mutation.apply heap = (.error failure, heap)

theorem Mutation.apply_error {mutation : Mutation ι} {failure : Failure}
    (hslot : heap.slot mutation.target = .error failure)
    (hchecked : ∀ value ∈ mutation.added, heap.checkInsertWithoutCycle mutation.target value =
      .ok ()) :
    mutation.apply heap = (.error failure, heap) := by
  cases mutation <;>
    simp_all [apply, added, target, pushArrayItemCarrier,
      pushArrayItemCarrierInner, setArrayItemCarrier, popArrayItemCarrier,
      RequestHeap.setMapEntryCarrier, RequestHeap.setObjectFieldCarrier,
        RequestHeap.setEntryCarrier,
      RequestHeap.deleteMapEntry, RequestHeap.deleteObjectField, RequestHeap.deleteEntry, bind,
        Mut.bind,
      Mut.read, Except.bind]

theorem RequestHeap.refuses_of_not_resolves {handle : HeapHandle}
    (h : ¬ heap.Resolves handle) : ∃ failure, heap.Refuses handle failure := by
  cases hslot : heap.slot handle with
  | ok slot => exact absurd ⟨slot, hslot⟩ h
  | error failure =>
    refine ⟨failure, slot_error hslot, ?_, fun _ => ?_, ?_, fun _ => ?_, fun _ => ?_, ?_,
      fun mutation htarget hchecked => ?_, fun mutation htarget => ?_⟩
    · rw [get, hslot]
      rfl
    · rw [arrayItemCarrier, hslot]
      rfl
    · rw [localCarrierCell, hslot]
      rfl
    · rw [objectFieldCarrier, hslot]
      rfl
    · rw [mapEntryCarrier, hslot]
      rfl
    · rw [interfaceLocalPayloadCarrier, hslot]
      rfl
    · subst htarget
      exact apply_error hslot hchecked
    subst htarget
    generalize hrun : mutation.apply heap = run
    obtain ⟨r, heap'⟩ := run
    cases outcome hrun with
    | refused _ => exact ⟨_, rfl⟩
    | edited _ edit => exact absurd ⟨_, edit.found⟩ h

namespace System

/-- The handles that a commit gives to the nodes it keeps behind the checkpoint. -/
def rebasedHandles (s : System ι δ) (plan : Plan ι δ) : Set HeapHandle :=
  {handle | handle ∈ handles (s.heap.commitPreparedRollbackRebase plan.prepared) ∧
    plan.checkpoint.len ≤ handle.index}

/-- In a careful run, a handle issued before a commit that is neither one of a node below
the checkpoint nor a rebased one is refused in every later state; and a handle that
resolves in two states of the run names the same node in both. -/
theorem stale_handles_fail_closed (epoch : Nat) (limits : RequestHeapLimits) :
    (∀ (before after : List (HeapEvent ι δ)) (s t : System ι δ) (index : Nat) (plan : Plan ι δ),
      CarefulRun (new epoch limits) before s → s.plans[index]? = some plan →
      s.Careful (.commit index) → CarefulRun (s.step (.commit index)) after t →
      ∀ handle ∈ s.issued, ¬ s.heap.PreCheckpoint plan.checkpoint handle →
        handle ∉ s.rebasedHandles plan → ∃ failure, t.heap.Refuses handle failure) ∧
    (∀ (before after : List (HeapEvent ι δ)) (s t : System ι δ) (handle : HeapHandle),
      CarefulRun (new epoch limits) before s → CarefulRun s after t →
      s.heap.Resolves handle → t.heap.Resolves handle →
      t.ids[handle.index]? = s.ids[handle.index]?) := by
  refine ⟨fun before after s t index plan hbefore hplan hcareful hafter handle hissued hpre _ => ?_,
    fun before after s t handle hbefore hafter hs ht => ?_⟩
  · have sound := hbefore.sound (sound_new epoch limits)
    have hstep : s.step (.commit index) = s.install plan := by
      rw [step, commit, hplan]
    have dead : (s.step (.commit index)).Dead handle := by
      rw [hstep]
      exact dead_of_commit sound (mem_of_getElem? hplan) (hcareful plan hplan) hissued hpre
    have sound' := sound.step (step_effect hcareful)
    exact refuses_of_not_resolves (not_resolves_of_dead (hafter.dead sound' dead))
  · have sound := hbefore.sound (sound_new epoch limits)
    obtain ⟨-, hsame⟩ | dead := hafter.same_node sound hs
    · exact hsame
    · exact absurd ht (not_resolves_of_dead dead)

def smallLimits : RequestHeapLimits := ⟨10, 1000, 10, 10, 1000⟩

/-- The state after one allocation and a plan to drop it again. -/
def oneToDrop : System Unit Unit :=
  (new 0 smallLimits).step (.allocate (.bytes [1])) |>.step (.prepare ⟨0, ⟨0, 0, 0, 0, 0⟩⟩ [])

theorem dropped_handle_is_refused : ∃ failure,
    (oneToDrop.step (.commit 0)).heap.Refuses ⟨0, 0, 0⟩ failure := by
  have hrun : CarefulRun (new 0 smallLimits)
      [.allocate (.bytes [1]), .prepare ⟨0, ⟨0, 0, 0, 0, 0⟩⟩ []] oneToDrop :=
    .cons ⟨rfl, rfl⟩ (.cons ⟨trivial, rfl⟩ (.nil _))
  refine (stale_handles_fail_closed 0 smallLimits).1 _ [] oneToDrop _ 0 _ hrun rfl ?_ (.nil _) _
    (mem_singleton.mpr rfl) ?_ ?_
  · rintro plan hplan
    cases hplan
    rfl
  · rintro ⟨-, hlt⟩
    exact absurd hlt (Nat.not_lt_zero _)
  · rintro ⟨hmem, -⟩
    cases hmem

/-- Without care, the next allocation takes the index of the dropped node with its
generation: the handle of the dropped node resolves again, to another node. -/
theorem dropped_handle_resolves_again :
    ∃ (before after : List (HeapEvent Unit Unit)) (s t : System Unit Unit) (index : Nat)
      (plan : Plan Unit Unit) (handle : HeapHandle),
      Run (fun s event t => t = s.step event) (new 0 smallLimits) before s ∧
        s.plans[index]? = some plan ∧
      Run (fun s event t => t = s.step event) (s.step (.commit index)) after t ∧ handle ∈ s.issued ∧
      ¬ s.heap.PreCheckpoint plan.checkpoint handle ∧ handle ∉ s.rebasedHandles plan ∧
      t.heap.Resolves handle ∧ s.heap.Resolves handle ∧
        t.ids[handle.index]? ≠ s.ids[handle.index]? := by
  refine ⟨[.allocate (.bytes [1]), .prepare ⟨0, ⟨0, 0, 0, 0, 0⟩⟩ []], [.allocate (.bytes [2])],
    oneToDrop, _, 0, _,
    ⟨0, 0, 0⟩, .cons rfl (.cons rfl (.nil _)), rfl, .cons rfl (.nil _), mem_singleton.mpr rfl, ?_,
      ?_,
    ⟨_, rfl⟩, ⟨_, rfl⟩, by decide⟩
  · rintro ⟨-, hlt⟩
    exact absurd hlt (Nat.not_lt_zero _)
  · rintro ⟨hmem, -⟩
    cases hmem

end System

end Skiff.Heap
