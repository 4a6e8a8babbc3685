import Skiff.Heap.Accounts

/-!
# Deep clones

`deep_clone_runtime_value` copies the graph behind a value within its heap, and
`deep_clone_runtime_values_between_heaps` copies the graph behind some roots into another
heap. A handle is copied once, after its children, and the recursion is cut at
`max_clone_depth`. Here both are one walk that reads one heap and appends to another.

A clone between heaps that fails is rolled back; within a heap the nodes copied so far stay.
They are accounted like all others: `Clones` says so of every part of the walk.
-/

namespace Skiff.Heap

open Skiff.Runtime (HeapHandle RuntimeValue RuntimeError)
open List RequestHeap OrdMap

variable {ι δ α β : Type}

structure CloneContext where
  cloned : OrdMap HeapHandle HeapHandle := ∅
  active : List HeapHandle := []
  maxDepth : Nat := 0

/-- A part of the walk, over its context and the heap that it appends to. -/
abbrev Cloning (ι δ α : Type) := Mut (CloneContext × RequestHeap ι δ) Failure α

namespace Cloning

def look (f : CloneContext → RequestHeap ι δ → Except Failure α) : Cloning ι δ α :=
  Mut.read fun state => f state.1 state.2

def setContext (g : CloneContext → CloneContext) : Cloning ι δ Unit :=
  Mut.modify fun state => (g state.1, state.2)

def onHeap (m : Action ι δ α) : Cloning ι δ α := fun state =>
  let (result, heap) := m state.2
  (result, state.1, heap)

end Cloning

open Cloning

def cyclicError (handle : HeapHandle) : Failure :=
  decodeError s!"cannot clone cyclic heap graph at handle {handle.index}:{handle.generation}"

section

variable (clone : RuntimeValue → Cloning ι δ RuntimeValue)

def cloneEntries (entries : OrdMap String RuntimeValue) :
    Cloning ι δ (OrdMap String RuntimeValue) := do
  let cloned ← Mut.collect (fun entry : String × RuntimeValue => do
    let value ← clone entry.2
    pure (entry.1, value)) entries.entries
  pure (ofList cloned)

def cloneInterfaceValue (value : InterfaceValue) : Cloning ι δ InterfaceValue :=
  match value.carrier with
  | .localPayload concreteType methodTable payload => do
    let payload ← clone payload
    pure ⟨value.interface, .localPayload concreteType methodTable payload⟩
  | .callbackCapability capability => pure ⟨value.interface, .callbackCapability capability⟩

def cloneNode : HeapNode ι δ → Cloning ι δ (HeapNode ι δ)
  | .bytes bytes => pure (.bytes bytes)
  | .array items => do
    let cloned ← Mut.collect clone items
    pure (.array cloned)
  | .object fields => do
    let cloned ← cloneEntries clone fields
    pure (.object cloned)
  | .map entries => do
    let cloned ← cloneEntries clone entries
    pure (.map cloned)
  | .interface value => do
    let cloned ← cloneInterfaceValue clone value
    pure (.interface cloned)
  | .exception exception =>
    match exception.localValue with
    | some carrier => do
      let value ← clone carrier.value
      pure (.exception (exception.mapLocalValue fun _ => ⟨value, carrier.catchIdentity⟩))
    | none => pure (.exception exception)

/-- `source` is the heap that is read. -/
def cloneHandle (source : RequestHeap ι δ → RequestHeap ι δ) (handle : HeapHandle) :
    Cloning ι δ HeapHandle := do
  match ← look fun context _ => .ok (context.cloned.get? handle) with
  | some cloned => pure cloned
  | none => do
    look fun context _ => if handle ∈ context.active then .error (cyclicError handle) else .ok ()
    setContext fun context => { context with active := handle :: context.active }
    let slot ← look fun _ heap => (source heap).slot handle
    let node ← cloneNode clone slot.node
    let cloned ← onHeap (allocNodeWithCarriers node slot.carriers)
    setContext fun context => { context with
      active := context.active.erase handle
      cloned := context.cloned.insert handle cloned }
    pure cloned

end

def checkCloneDepth (depth : Nat) (context : CloneContext) (heap : RequestHeap ι δ) :
    Except Failure Unit :=
  if heap.limits.maxCloneDepth < depth then
    .error (resourceLimitError "max clone depth" heap.limits.maxCloneDepth context.maxDepth
      (depth - context.maxDepth))
  else .ok ()

/-- The walk gets to a value at this depth. -/
def reachDepth (depth : Nat) : Cloning ι δ Unit := do
  setContext fun context => { context with maxDepth := max context.maxDepth depth }
  look (checkCloneDepth depth)

/-- The first argument bounds the recursion; the depth limit is met before it. -/
def cloneValue (source : RequestHeap ι δ → RequestHeap ι δ) :
    Nat → Nat → RuntimeValue → Cloning ι δ RuntimeValue
  | 0, _, _ => Mut.fail .outOfDepth
  | levels + 1, depth, value => do
    reachDepth depth
    match value with
    | .heap handle => do
      let cloned ← cloneHandle (cloneValue source levels (depth + 1)) source handle
      pure (.heap cloned)
    | value => pure value

/-- A walk with a new context, whose depth is recorded at the end. -/
def cloning (walk : Cloning ι δ α) : Action ι δ α := fun heap =>
  let (result, context, heap) := walk ({}, heap)
  (do
    let result ← Mut.ofExcept result
    recordCloneDepth context.maxDepth
    pure result) heap

def RequestHeap.cloneLevels (heap : RequestHeap ι δ) : Nat := heap.limits.maxCloneDepth + 2

def deepCloneRuntimeValue (value : RuntimeValue) : Action ι δ RuntimeValue := fun heap =>
  cloning (cloneValue id heap.cloneLevels 0 value) heap

def deepCloneRuntimeValueCarrier (carrier : RuntimeValueCarrier ι) :
    Action ι δ (RuntimeValueCarrier ι) := do
  let value ← deepCloneRuntimeValue carrier.value
  pure ⟨value, carrier.catchIdentity⟩

def deepCloneRuntimeValuesBetweenHeaps (source : RequestHeap ι δ) (values : List RuntimeValue) :
    Action ι δ (List RuntimeValue) := fun dest =>
  (cloning (Mut.collect (cloneValue (fun _ => source) dest.cloneLevels 0) values)).onError
    (fun failure => do
      rollbackToCheckpoint dest.checkpoint
      Mut.fail failure) dest

/-- The last of the cloned values; there is one. -/
def deepCloneRuntimeValueBetweenHeaps (source : RequestHeap ι δ) (value : RuntimeValue) :
    Action ι δ RuntimeValue := do
  let cloned ← deepCloneRuntimeValuesBetweenHeaps source [value]
  Mut.ofExcept (cloned.getLast?.elim
    (.error (.panic "single-root cross-heap clone must return one value")) .ok)

def deepCloneRuntimeValueCarrierBetweenHeaps (source : RequestHeap ι δ)
    (carrier : RuntimeValueCarrier ι) : Action ι δ (RuntimeValueCarrier ι) := do
  let value ← deepCloneRuntimeValueBetweenHeaps source carrier.value
  pure ⟨value, carrier.catchIdentity⟩

def deepCloneRuntimeValueCarriersBetweenHeaps (source : RequestHeap ι δ)
    (carriers : List (RuntimeValueCarrier ι)) : Action ι δ (List (RuntimeValueCarrier ι)) := do
  let cloned ← deepCloneRuntimeValuesBetweenHeaps source (carriers.map (·.value))
  pure (cloned.zipWith (fun value carrier => ⟨value, carrier.catchIdentity⟩) carriers)

/-! ## What a clone keeps -/

/-- The heap has only got new nodes, and is accounted. -/
structure RequestHeap.Grown (before after : RequestHeap ι δ) : Prop where
  accounted : after.Accounted
  limits : after.limits = before.limits
  epoch : after.epoch = before.epoch
  nodes : before.nodes <+: after.nodes

variable {heap heap' : RequestHeap ι δ} {handle : HeapHandle}

theorem RequestHeap.Accounted.grown (h : heap.Accounted) : Grown heap heap :=
  ⟨h, rfl, rfl, prefix_refl _⟩

theorem RequestHeap.Grown.trans {last : RequestHeap ι δ} (h : Grown heap heap')
    (h' : Grown heap' last) : Grown heap last :=
  ⟨h'.accounted, h'.limits.trans h.limits, h'.epoch.trans h.epoch, h.nodes.trans h'.nodes⟩

theorem RequestHeap.Grown.resolves (h : Grown heap heap') (hresolves : heap.Resolves handle) :
    heap'.Resolves handle := by
  obtain ⟨hepoch, hgeneration⟩ := resolves_iff.mp hresolves
  obtain ⟨rest, hnodes⟩ := h.nodes
  refine resolves_iff.mpr ⟨hepoch.trans h.epoch.symm, ?_⟩
  rw [← hnodes, generationAt_append (lt_of_generationAt hgeneration)]
  exact hgeneration

/-- Every handle in the value resolves. -/
def RequestHeap.Holds (heap : RequestHeap ι δ) (value : RuntimeValue) : Prop :=
  ∀ handle, value = .heap handle → heap.Resolves handle

/-- All clones of the walk resolve. -/
def CloneContext.Resolve (context : CloneContext) (heap : RequestHeap ι δ) : Prop :=
  ∀ handle cloned, context.cloned.get? handle = some cloned → heap.Resolves cloned

/-- From an accounted heap with `P` a part of the walk only grows the heap. A success ends with
`Q`, and a failure is reported. -/
def Clones (limits : RequestHeapLimits) (P : RequestHeap ι δ → Prop) (m : Cloning ι δ α)
    (Q : α → RequestHeap ι δ → Prop) : Prop :=
  ∀ context heap result context' heap', heap.Accounted → heap.limits = limits →
    context.Resolve heap → P heap → m (context, heap) = (result, context', heap') →
      Grown heap heap' ∧ context'.Resolve heap' ∧
        (∀ a, result = .ok a → Q a heap') ∧ ∀ failure, result = .error failure → failure.Reported

namespace Clones

variable {limits : RequestHeapLimits} {P : RequestHeap ι δ → Prop} {m : Cloning ι δ α}
variable {Q : α → RequestHeap ι δ → Prop} {R : β → RequestHeap ι δ → Prop}

theorem bind {f : α → Cloning ι δ β} (hm : Clones limits P m Q)
    (hf : ∀ a, Clones limits (Q a) (f a) R) : Clones limits P (m >>= f) R := by
  intro context heap result context' heap' accounted hlimits hcontext hP h
  obtain ⟨failure, rfl, hfailed⟩ | ⟨a, ⟨middle, between⟩, hfirst, hrest⟩ := Mut.bind_cases h
  · obtain ⟨hgrown, hresolve, -, hreported⟩ := hm _ _ _ _ _ accounted hlimits hcontext hP hfailed
    refine ⟨hgrown, hresolve, fun _ hok => (by cases hok), fun failure' herror => ?_⟩
    cases herror
    exact hreported _ rfl
  obtain ⟨hgrown, hresolve, hQ, -⟩ := hm _ _ _ _ _ accounted hlimits hcontext hP hfirst
  obtain ⟨hgrown', hafter⟩ := hf a _ _ _ _ _ hgrown.accounted (hgrown.limits.trans hlimits)
    hresolve (hQ a rfl) hrest
  exact ⟨hgrown.trans hgrown', hafter⟩

theorem pure (a : α) (h : ∀ heap, P heap → Q a heap) :
    Clones limits P (Pure.pure a : Cloning ι δ α) Q := by
  intro context heap result context' heap' accounted _ hcontext hP h'
  cases h'
  refine ⟨accounted.grown, hcontext, fun _ hok => ?_, fun _ herror => by cases herror⟩
  cases hok
  exact h heap hP

theorem look (f : CloneContext → RequestHeap ι δ → Except Failure α)
    (hok : ∀ context heap a, heap.Accounted → heap.limits = limits → context.Resolve heap →
      P heap → f context heap = .ok a → Q a heap)
    (herror : ∀ context heap failure, heap.limits = limits → f context heap = .error failure →
      failure.Reported) : Clones limits P (Cloning.look f) Q := by
  intro context heap result context' heap' accounted hlimits hcontext hP h
  cases h
  exact ⟨accounted.grown, hcontext, fun a => hok _ _ a accounted hlimits hcontext hP,
    fun failure => herror _ _ failure hlimits⟩

theorem setContext (g : CloneContext → CloneContext)
    (h : ∀ context heap, P heap → context.Resolve heap → (g context).Resolve heap) :
    Clones limits P (Cloning.setContext g) fun _ => P := by
  intro context heap result context' heap' accounted _ hcontext hP h'
  cases h'
  exact ⟨accounted.grown, h context heap hP hcontext, fun _ _ => hP,
    fun _ herror => by cases herror⟩

/-- What a growing heap keeps is kept by every part of the walk. -/
theorem frame {S : RequestHeap ι δ → Prop} (h : Clones limits P m Q)
    (hS : ∀ heap heap', Grown heap heap' → S heap → S heap') :
    Clones limits (fun heap => P heap ∧ S heap) m fun a heap => Q a heap ∧ S heap := by
  rintro context heap result context' heap' accounted hlimits hcontext ⟨hP, hheld⟩ hrun
  obtain ⟨hgrown, hresolve, hQ, hreported⟩ := h _ _ _ _ _ accounted hlimits hcontext hP hrun
  exact ⟨hgrown, hresolve, fun a ha => ⟨hQ a ha, hS heap heap' hgrown hheld⟩, hreported⟩

theorem consequence {P' : RequestHeap ι δ → Prop} {Q' : α → RequestHeap ι δ → Prop}
    (h : Clones limits P m Q) (hpre : ∀ heap, P' heap → P heap)
    (hpost : ∀ a heap, Q a heap → Q' a heap) : Clones limits P' m Q' := by
  intro context heap result context' heap' accounted hlimits hcontext hP hrun
  obtain ⟨hgrown, hresolve, hQ, hreported⟩ :=
    h _ _ _ _ _ accounted hlimits hcontext (hpre heap hP) hrun
  exact ⟨hgrown, hresolve, fun a ha => hpost a heap' (hQ a ha), hreported⟩

/-- A fact that is not about the heap. -/
theorem assuming {F : Prop} (h : F → Clones limits P m Q) :
    Clones limits (fun heap => F ∧ P heap) m Q :=
  fun _ _ _ _ _ accounted hlimits hcontext hP => h hP.1 _ _ _ _ _ accounted hlimits hcontext hP.2

theorem collect {f : α → Cloning ι δ β} {R : α → β → RequestHeap ι δ → Prop}
    (hR : ∀ item result heap heap', Grown heap heap' → R item result heap → R item result heap')
    (hf : ∀ item, Clones limits (fun _ => True) (f item) (R item)) (items : List α) :
    Clones limits (fun _ => True) (Mut.collect f items) fun results heap =>
      Forall₂ (fun item result => R item result heap) items results := by
  induction items with
  | nil => exact .pure _ fun _ _ => .nil
  | cons item rest ih =>
    refine (hf item).bind fun first => ?_
    have hrest := ih.frame (hR item first)
    refine (hrest.consequence (fun _ h => ⟨trivial, h⟩) fun _ _ h => h).bind fun others => ?_
    exact .pure _ fun _ h => .cons h.2 h.1

end Clones

/-! ## The walk -/

variable {limits : RequestHeapLimits} {clone : RuntimeValue → Cloning ι δ RuntimeValue}

/-- The node may take the place of the other one in a slot. -/
def HeapNode.Like (node original : HeapNode ι δ) : Prop :=
  ∀ generation bytes carriers, (⟨generation, bytes, original, carriers⟩ : HeapSlot ι δ).LayoutFits →
    (⟨generation, bytes, node, carriers⟩ : HeapSlot ι δ).LayoutFits

/-- A cloned node: it fits where the original did, and its children resolve. -/
def ClonedNode (original node : HeapNode ι δ) (heap : RequestHeap ι δ) : Prop :=
  node.Like original ∧ ∀ value ∈ childValues node, heap.Holds value

theorem holds_grown {value : RuntimeValue} (heap heap' : RequestHeap ι δ) (h : Grown heap heap')
    (hholds : heap.Holds value) : heap'.Holds value :=
  fun handle heq => h.resolves (hholds handle heq)

theorem onHeap_clones (hmax : limits.maxEstimatedBytes < usizeMax) {node : HeapNode ι δ}
    {carriers : HeapCarrierLayout ι}
    (hlayout : ∀ generation bytes,
      (⟨generation, bytes, node, carriers⟩ : HeapSlot ι δ).LayoutFits) :
    Clones limits (fun heap => ∀ value ∈ childValues node, heap.Holds value)
      (onHeap (allocNodeWithCarriers node carriers)) fun handle heap => heap.Resolves handle := by
  intro context heap result context' heap' accounted hlimits hcontext hvalues h
  unfold onHeap at h
  dsimp only at h
  generalize hrun : allocNodeWithCarriers node carriers heap = run at h
  cases h
  obtain ⟨result, heap'⟩ := run
  obtain ⟨failure, rfl, hreported, rfl⟩ | ⟨rfl, rfl, hspace, hcount, hbytes⟩ :=
    allocNodeWithCarriers_cases hrun
  · refine ⟨accounted.grown, hcontext, fun _ hok => (by cases hok), fun failure' herror => ?_⟩
    cases herror
    exact hreported
  have hgrown : Grown heap (heap.pushSlot node carriers) := by
    refine ⟨accounted.allocate (hlimits ▸ hmax) hlayout (fun child hchild => ?_) hspace hcount
      hbytes, rfl, rfl, prefix_append _ _⟩
    exact hvalues _ (mem_heapNodeChildHandles.mp hchild) child rfl
  refine ⟨hgrown, fun handle cloned hget => hgrown.resolves (hcontext handle cloned hget),
    fun handle hok => ?_, fun _ herror => by cases herror⟩
  cases hok
  exact ⟨_, slot_eq_ok.mpr ⟨rfl, getElem?_concat_length, rfl⟩⟩

section

variable (hclone : ∀ value, Clones limits (fun _ => True) (clone value) fun v heap => heap.Holds v)
include hclone

theorem cloneEntries_clones (entries : OrdMap String RuntimeValue) :
    Clones limits (fun _ => True) (cloneEntries clone entries) fun cloned heap =>
      (∀ value ∈ cloned.values, heap.Holds value) ∧
        ∀ key, cloned.contains key = entries.contains key := by
  have hcollect := Clones.collect
    (R := fun (entry : String × RuntimeValue) (result : String × RuntimeValue) heap =>
      result.1 = entry.1 ∧ heap.Holds result.2)
    (fun _ _ heap heap' hgrown h => ⟨h.1, holds_grown heap heap' hgrown h.2⟩)
    (fun entry => (hclone entry.2).bind fun value => .pure (entry.1, value) fun _ h => ⟨rfl, h⟩)
    entries.entries
  refine hcollect.bind fun cloned => .pure _ fun heap hcloned => ?_
  have hkeys : cloned.map Prod.fst = entries.keys := by
    refine (forall₂_eq_eq_eq.le _ _ ?_).symm
    rw [OrdMap.keys, forall₂_map_left_iff, forall₂_map_right_iff]
    exact hcloned.imp fun _ _ h => h.1.symm
  have hnodup : (cloned.map Prod.fst).Nodup := hkeys ▸ entries.nodup_keys
  constructor
  · intro value hvalue
    obtain ⟨key, hget⟩ := mem_values_iff.mp hvalue
    obtain ⟨entry, -, -, hholds⟩ :=
      exists_of_mem_right hcloned (mem_of_get?_ofList hnodup hget)
    exact hholds
  intro key
  rw [Bool.eq_iff_iff, OrdMap.contains_iff, OrdMap.contains_iff, ← OrdMap.mem_keys_iff,
    ← OrdMap.mem_keys_iff, ← hkeys]
  constructor
  · intro hmem
    obtain ⟨value, hget⟩ := mem_keys_iff.mp hmem
    exact mem_map_of_mem (mem_of_get?_ofList hnodup hget)
  intro hmem
  obtain ⟨entry, hentry, rfl⟩ := mem_map.mp hmem
  exact mem_keys_iff.mpr ⟨entry.2, get?_ofList hnodup hentry⟩

theorem cloneNode_clones (node : HeapNode ι δ) :
    Clones limits (fun _ => True) (cloneNode clone node) (ClonedNode node) := by
  cases node with
  | bytes bytes =>
    exact .pure _ fun heap _ => ⟨fun _ _ _ h => h, fun _ hvalue => absurd hvalue not_mem_nil⟩
  | array items =>
    have hcollect := Clones.collect (R := fun _ result heap => heap.Holds result)
      (fun _ _ heap heap' => holds_grown heap heap') hclone items
    refine hcollect.bind fun cloned => .pure _ fun heap hcloned => ⟨?_, fun value hvalue => ?_⟩
    · intro generation bytes carriers
      have hlength := hcloned.length_eq
      cases carriers <;> simp [HeapSlot.LayoutFits, hlength]
    obtain ⟨_, -, hholds⟩ := exists_of_mem_right hcloned hvalue
    exact hholds
  | object fields | map entries =>
    refine (cloneEntries_clones hclone _).bind fun cloned => .pure _ fun heap hcloned => ?_
    refine ⟨fun generation bytes carriers => ?_, hcloned.1⟩
    cases carriers <;> simp [HeapSlot.LayoutFits, hcloned.2]
  | interface value =>
    obtain ⟨interface, carrier⟩ := value
    cases carrier with
    | localPayload concreteType methodTable payload =>
      refine Clones.bind (Q := fun cloned heap =>
        ∀ value ∈ childValues (.interface cloned : HeapNode ι δ), heap.Holds value) ?_
          fun cloned => .pure _ fun heap h => ⟨fun _ _ carriers => ?_, h⟩
      · refine (hclone payload).bind fun cloned => .pure _ fun heap h value hvalue => ?_
        obtain rfl := mem_singleton.mp hvalue
        exact h
      cases carriers <;> exact id
    | callbackCapability capability =>
      refine Clones.bind (Q := fun cloned _ => cloned = ⟨interface, .callbackCapability capability⟩)
        (.pure _ fun _ _ => rfl) fun cloned => .pure _ fun heap h => ?_
      subst h
      exact ⟨fun _ _ carriers h => h, fun _ hvalue => absurd hvalue not_mem_nil⟩
  | exception exception =>
    rw [cloneNode]
    cases hlocal : exception.localValue with
    | none =>
      refine .pure _ fun heap _ => ⟨fun _ _ _ h => h, fun value hvalue => ?_⟩
      simp [childValues, hlocal] at hvalue
    | some carrier =>
      refine (hclone carrier.value).bind fun cloned => .pure _ fun heap h =>
        ⟨fun _ _ carriers => ?_, fun value hvalue => ?_⟩
      · cases carriers <;> exact id
      rw [childValues, RequestException.localValue_mapLocalValue, hlocal] at hvalue
      obtain rfl := mem_singleton.mp hvalue
      exact h

variable (hmax : limits.maxEstimatedBytes < usizeMax)
include hmax

variable {source : RequestHeap ι δ → RequestHeap ι δ}
variable (hsource : ∀ heap, heap.Accounted → ∀ slot ∈ (source heap).nodes, slot.LayoutFits)
include hsource

theorem cloneHandle_clones (handle : HeapHandle) :
    Clones limits (fun _ => True) (cloneHandle clone source handle)
      fun cloned heap => heap.Resolves cloned := by
  unfold cloneHandle
  refine (Clones.look (Q := fun found heap => ∀ cloned, found = some cloned → heap.Resolves cloned)
    _ ?_ ?_).bind fun found => ?_
  · rintro context heap found - - hcontext - ⟨⟩ cloned hfound
    exact hcontext handle cloned hfound
  · rintro context heap failure - ⟨⟩
  cases found with
  | some cloned => exact .pure _ fun heap h => h cloned rfl
  | none =>
    refine (Clones.look (Q := fun _ _ => True) _ (fun _ _ _ _ _ _ _ _ => trivial) ?_).bind fun _ =>
      ?_
    · intro context heap failure _ hfailed
      split at hfailed
      · exact ⟨_, (Except.error.inj hfailed).symm⟩
      · cases hfailed
    refine Clones.bind (Clones.setContext _ fun _ _ _ h => h) fun _ => ?_
    refine (Clones.look (Q := fun slot _ => slot.LayoutFits ∧ True) _ ?_
      fun _ _ _ _ hfailed => slot_reported hfailed).bind fun slot => .assuming fun hfits => ?_
    · intro context heap slot accounted _ _ _ hslot
      exact ⟨hsource heap accounted slot (mem_nodes_of_slot hslot), trivial⟩
    refine (cloneNode_clones hclone slot.node).bind fun node => .assuming fun hlike => ?_
    refine (onHeap_clones hmax fun generation bytes => hlike _ _ _ hfits).bind fun cloned => ?_
    refine (Clones.setContext _ ?_).bind fun _ => .pure _ fun _ h => h
    intro context heap hresolves hcontext other clonedOther hget
    obtain ⟨-, rfl⟩ | ⟨-, hget⟩ := get?_insert_eq_some.mp hget
    · exact hresolves
    · exact hcontext other clonedOther hget

end

theorem reachDepth_clones (depth : Nat) :
    Clones limits (fun _ => True) (reachDepth depth : Cloning ι δ Unit)
      fun _ _ => depth ≤ limits.maxCloneDepth ∧ True := by
  refine Clones.bind (Clones.setContext _ fun _ _ _ h => h) fun _ => .look _ ?_ ?_
  · rintro context heap _ - rfl - - hchecked
    unfold checkCloneDepth at hchecked
    split at hchecked
    case isTrue => cases hchecked
    case isFalse hle => exact ⟨Nat.not_lt.mp hle, trivial⟩
  intro context heap failure _ hfailed
  unfold checkCloneDepth at hfailed
  split at hfailed
  · exact ⟨_, (Except.error.inj hfailed).symm⟩
  · cases hfailed

theorem cloneValue_clones (hmax : limits.maxEstimatedBytes < usizeMax)
    {source : RequestHeap ι δ → RequestHeap ι δ}
    (hsource : ∀ heap, heap.Accounted → ∀ slot ∈ (source heap).nodes, slot.LayoutFits)
    {levels depth : Nat} (hdepth : depth ≤ limits.maxCloneDepth + 1)
    (hlevels : limits.maxCloneDepth + 1 < levels + depth) (value : RuntimeValue) :
    Clones limits (fun _ => True) (cloneValue source levels depth value)
      fun cloned heap => heap.Holds cloned := by
  induction levels generalizing depth value with
  | zero => omega
  | succ levels ih =>
    cases value with
    | heap handle =>
      refine (reachDepth_clones depth).bind fun _ => .assuming fun hshallow => ?_
      have hdeeper := cloneHandle_clones
        (ih (show depth + 1 ≤ limits.maxCloneDepth + 1 by omega) (by omega)) hmax hsource handle
      refine hdeeper.bind fun cloned => .pure _ fun heap h other heq => ?_
      cases heq
      exact h
    | null | bool _ | number _ | date _ | string _ | actorRef _ =>
      exact (reachDepth_clones depth).bind fun _ => .pure _ fun heap _ other heq => by cases heq

/-! ## The clones -/

variable {result : Except Failure α}

theorem cloning_spec {walk : Cloning ι δ α} {Q : α → RequestHeap ι δ → Prop}
    (accounted : heap.Accounted) (hwalk : Clones heap.limits (fun _ => True) walk Q)
    (h : cloning walk heap = (result, heap')) :
    Grown heap heap' ∧ (∀ a, result = .ok a → ∃ middle, Q a middle) ∧
      ∀ failure, result = .error failure → failure.Reported := by
  unfold cloning at h
  dsimp only at h
  generalize hrun : walk ({}, heap) = run at h
  obtain ⟨walked, context, middle⟩ := run
  have hempty : ({} : CloneContext).Resolve heap := by
    intro handle cloned hget
    cases hget
  obtain ⟨hgrown, -, hQ, hreported⟩ := hwalk _ _ _ _ _ accounted rfl hempty trivial hrun
  cases walked with
  | error failure =>
    cases h
    exact ⟨hgrown, fun _ hok => (by cases hok), hreported⟩
  | ok a =>
    have h : (recordCloneDepth context.maxDepth >>= fun _ => pure a) middle = (result, heap') := h
    obtain ⟨failure, rfl, hfailed⟩ | ⟨⟨⟩, last, hrecord, hpure⟩ := Mut.bind_cases h
    · obtain ⟨failure', heq, hfailed', rfl⟩ | ⟨⟨⟩, -, hmodify⟩ := Mut.read_cases hfailed
      · cases heq
        refine ⟨hgrown, fun _ hok => (by cases hok), fun _ herror => ?_⟩
        cases herror
        split at hfailed'
        · exact ⟨_, (Except.error.inj hfailed').symm⟩
        · cases hfailed'
      · cases hmodify
    obtain ⟨failure', heq, -⟩ | ⟨⟨⟩, -, hmodify⟩ := Mut.read_cases hrecord
    · cases heq
    cases hmodify
    cases hpure
    refine ⟨hgrown.trans ⟨hgrown.accounted.record rfl rfl, rfl, rfl, prefix_refl _⟩,
      fun a' hok => ⟨middle, hQ a' hok⟩, fun _ herror => by cases herror⟩

theorem deepCloneRuntimeValue_spec (accounted : heap.Accounted)
    (hmax : heap.limits.maxEstimatedBytes < usizeMax) {value : RuntimeValue}
    {result : Except Failure RuntimeValue}
    (h : deepCloneRuntimeValue value heap = (result, heap')) :
    Grown heap heap' ∧ ∀ failure, result = .error failure → failure.Reported := by
  obtain ⟨hgrown, -, hreported⟩ := cloning_spec accounted (cloneValue_clones hmax
    (fun heap accounted => accounted.layout) (Nat.zero_le _) (Nat.lt_succ_self _) value) h
  exact ⟨hgrown, hreported⟩

/-- A rollback to where a growing heap came from undoes all of it. -/
theorem RequestHeap.Grown.rollback (h : Grown heap heap') :
    (rollbackToCheckpoint heap.checkpoint heap').2 = heap := by
  obtain ⟨nodes, limits, stats, epoch⟩ := heap
  obtain ⟨nodes', limits', stats', epoch'⟩ := heap'
  obtain ⟨-, rfl, rfl, hnodes⟩ := h
  have htake : nodes'.take nodes.length = nodes := (prefix_iff_eq_take.mp hnodes).symm
  simp only [rollbackToCheckpoint, Mut.modify, checkpoint, htake]

/-- A clone between heaps is made as a whole or not at all. -/
theorem deepCloneRuntimeValuesBetweenHeaps_spec (accounted : heap.Accounted)
    (hmax : heap.limits.maxEstimatedBytes < usizeMax) {source : RequestHeap ι δ}
    (hsource : ∀ slot ∈ source.nodes, slot.LayoutFits) {values : List RuntimeValue}
    {result : Except Failure (List RuntimeValue)}
    (h : deepCloneRuntimeValuesBetweenHeaps source values heap = (result, heap')) :
    Grown heap heap' ∧ (∀ cloned, result = .ok cloned → cloned.length = values.length) ∧
      ∀ failure, result = .error failure → failure.Reported ∧ heap' = heap := by
  have hvalue (value : RuntimeValue) : Clones heap.limits (fun _ => True)
      (cloneValue (fun _ => source) heap.cloneLevels 0 value) fun cloned heap =>
        heap.Holds cloned :=
    cloneValue_clones hmax (fun _ _ => hsource) (Nat.zero_le _) (Nat.lt_succ_self _) value
  have hwalk := Clones.collect (R := fun _ value heap => heap.Holds value)
    (fun _ _ heap heap' => holds_grown heap heap') hvalue values
  unfold deepCloneRuntimeValuesBetweenHeaps Mut.onError at h
  generalize hrun : cloning (Mut.collect (cloneValue (fun _ => source) heap.cloneLevels 0) values)
    heap = run at h
  obtain ⟨walked, middle⟩ := run
  obtain ⟨hgrown, hlength, hreported⟩ := cloning_spec accounted hwalk hrun
  cases walked with
  | ok cloned =>
    cases h
    refine ⟨hgrown, fun cloned' hok => ?_, fun _ herror => by cases herror⟩
    obtain ⟨_, hall⟩ := hlength cloned' hok
    exact hall.length_eq.symm
  | error failure =>
    have h : (.error failure, (rollbackToCheckpoint heap.checkpoint middle).2) =
      (result, heap') := h
    rw [hgrown.rollback] at h
    cases h
    refine ⟨accounted.grown, fun _ hok => (by cases hok), fun _ herror => ?_⟩
    cases herror
    exact ⟨hreported _ rfl, rfl⟩

/-- The public deep clones. -/
inductive DeepClone (ι δ : Type) where
  | runtimeValue (value : RuntimeValue)
  | runtimeValueCarrier (carrier : RuntimeValueCarrier ι)
  | valueBetweenHeaps (source : RequestHeap ι δ) (value : RuntimeValue)
  | valuesBetweenHeaps (source : RequestHeap ι δ) (values : List RuntimeValue)
  | carrierBetweenHeaps (source : RequestHeap ι δ) (carrier : RuntimeValueCarrier ι)
  | carriersBetweenHeaps (source : RequestHeap ι δ) (carriers : List (RuntimeValueCarrier ι))

namespace DeepClone

def apply : DeepClone ι δ → Action ι δ Unit
  | .runtimeValue value => do
    let _ ← deepCloneRuntimeValue value
    pure ()
  | .runtimeValueCarrier carrier => do
    let _ ← deepCloneRuntimeValueCarrier carrier
    pure ()
  | .valueBetweenHeaps source value => do
    let _ ← deepCloneRuntimeValueBetweenHeaps source value
    pure ()
  | .valuesBetweenHeaps source values => do
    let _ ← deepCloneRuntimeValuesBetweenHeaps source values
    pure ()
  | .carrierBetweenHeaps source carrier => do
    let _ ← deepCloneRuntimeValueCarrierBetweenHeaps source carrier
    pure ()
  | .carriersBetweenHeaps source carriers => do
    let _ ← deepCloneRuntimeValueCarriersBetweenHeaps source carriers
    pure ()

/-- The other heap of a clone between heaps. -/
def source? : DeepClone ι δ → Option (RequestHeap ι δ)
  | .runtimeValue _ | .runtimeValueCarrier _ => none
  | .valueBetweenHeaps source _ | .valuesBetweenHeaps source _ | .carrierBetweenHeaps source _
  | .carriersBetweenHeaps source _ => some source

/-- A computation that only grows the heap and reports its failures; `kept` says that it then
leaves the heap alone. -/
def Grows (heap : RequestHeap ι δ) (kept : Bool) (m : Action ι δ α) : Prop :=
  ∀ result heap', m heap = (result, heap') → Grown heap heap' ∧
    ∀ failure, result = .error failure → failure.Reported ∧ (kept = true → heap' = heap)

theorem Grows.map {kept : Bool} {m : Action ι δ α} (h : Grows heap kept m) (g : α → β) :
    Grows heap kept (m >>= fun a => pure (g a)) := by
  intro result heap' hrun
  obtain ⟨failure, rfl, hfailed⟩ | ⟨a, next, hok, hpure⟩ := Mut.bind_cases hrun
  · obtain ⟨hgrown, hreported⟩ := h _ _ hfailed
    refine ⟨hgrown, fun _ herror => ?_⟩
    cases herror
    exact hreported _ rfl
  cases hpure
  exact ⟨(h _ _ hok).1, fun _ herror => by cases herror⟩

theorem apply_grows (accounted : heap.Accounted) (hmax : heap.limits.maxEstimatedBytes < usizeMax)
    (clone : DeepClone ι δ)
    (hsource : ∀ source ∈ clone.source?, ∀ slot ∈ source.nodes, slot.LayoutFits) :
    Grows heap clone.source?.isSome clone.apply := by
  have hwithin (value : RuntimeValue) : Grows heap false (deepCloneRuntimeValue value) := by
    intro result heap' h
    obtain ⟨hgrown, hreported⟩ := deepCloneRuntimeValue_spec accounted hmax h
    exact ⟨hgrown, fun failure herror => ⟨hreported failure herror, fun hkept => by cases hkept⟩⟩
  have hbetween (source : RequestHeap ι δ) (hfits : ∀ slot ∈ source.nodes, slot.LayoutFits)
      (values : List RuntimeValue) :
      Grows heap true (deepCloneRuntimeValuesBetweenHeaps source values) := by
    intro result heap' h
    obtain ⟨hgrown, -, hreported⟩ :=
      deepCloneRuntimeValuesBetweenHeaps_spec accounted hmax hfits h
    exact ⟨hgrown, fun failure herror => (hreported failure herror).imp_right fun h _ => h⟩
  have hsingle (source : RequestHeap ι δ) (hfits : ∀ slot ∈ source.nodes, slot.LayoutFits)
      (value : RuntimeValue) : Grows heap true
        (deepCloneRuntimeValueBetweenHeaps source value) := by
    intro result heap' h
    obtain ⟨failure, rfl, hfailed⟩ | ⟨cloned, next, hok, hlast⟩ := Mut.bind_cases h
    · refine ⟨(hbetween source hfits [value] _ _ hfailed).1, fun _ herror => ?_⟩
      cases herror
      exact (hbetween source hfits [value] _ _ hfailed).2 _ rfl
    obtain ⟨hgrown, hlength, -⟩ := deepCloneRuntimeValuesBetweenHeaps_spec accounted hmax hfits hok
    obtain ⟨only, rfl⟩ := length_eq_one_iff.mp (hlength cloned rfl)
    cases hlast
    exact ⟨hgrown, fun _ herror => by cases herror⟩
  cases clone with
  | runtimeValue value => exact (hwithin value).map _
  | runtimeValueCarrier carrier => exact ((hwithin carrier.value).map _).map _
  | valueBetweenHeaps source value => exact (hsingle source (hsource source rfl) value).map _
  | valuesBetweenHeaps source values => exact (hbetween source (hsource source rfl) values).map _
  | carrierBetweenHeaps source carrier =>
    exact ((hsingle source (hsource source rfl) carrier.value).map _).map _
  | carriersBetweenHeaps source carriers =>
    exact ((hbetween source (hsource source rfl) (carriers.map (·.value))).map _).map _

end DeepClone

end Skiff.Heap
