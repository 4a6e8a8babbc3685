import Skiff.WebSocket.Gateway

/-!
# The tables of the index

Along every run of the index the order of a key lists its live admitted connections in the order
of their admission, the connections of a runtime are those attached to it, and the connections are
no more than the limit. Each lemma is about one operation; `Sound` is what all of them keep.
-/

namespace Skiff.WebSocket

open Session (RuntimeSessionEpoch)
open OrdMap Option

namespace IndexInner

variable {W : Type} {inner : IndexInner W}

/-! ## What the tables say -/

def orderOf (inner : IndexInner W) (key : String) : List String :=
  (inner.businessOrder.get? key).getD []

/-- A live connection that was admitted for the key. -/
def admittedFor (inner : IndexInner W) (key id : String) : Bool :=
  (inner.connectionsById.get? id).any fun record =>
    record.state ≠ .reserved && record.businessKey = some key

def pinnedTo (inner : IndexInner W) (runtime : RuntimeSessionEpoch) (id : String) : Bool :=
  ((inner.byRuntime.get? runtime).getD ∅).contains id

/-- A live connection that is attached to the runtime. -/
def attachedTo (inner : IndexInner W) (runtime : RuntimeSessionEpoch) (id : String) : Bool :=
  (inner.connectionsById.get? id).any fun record =>
    record.state = .attached && record.runtime = some runtime

def isAttached (inner : IndexInner W) (id : String) : Bool :=
  (inner.connectionsById.get? id).any fun record => record.state = .attached

end IndexInner

/-- What a record has by its state. -/
structure ConnectionRecord.Shaped {W : Type} (record : ConnectionRecord W) : Prop where
  reserved : record.state = .reserved → record.businessKey = none
  waiting : record.state ≠ .attached → record.generation = none ∧ record.runtime = none
  attached : record.state = .attached → record.generation.isSome = true

namespace IndexInner

variable {W : Type} {options : ClientConnectionIndexOptions} {inner : IndexInner W}
  {admissions : List String}

/-- The tables of an index after these admissions. -/
structure Sound (options : ClientConnectionIndexOptions) (admissions : List String)
    (inner : IndexInner W) : Prop where
  shaped : ∀ {id record}, inner.connectionsById.get? id = some record → record.Shaped
  order : ∀ key, inner.orderOf key = admissions.dedup.filter (inner.admittedFor key)
  listed : ∀ {key id}, inner.admittedFor key id = true → id ∈ admissions
  pinned : ∀ runtime id, inner.pinnedTo runtime id = inner.attachedTo runtime id
  limit : inner.connectionsById.size ≤ options.connectionLimit

theorem Sound.new : (new : IndexInner W).Sound options [] := by
  refine ⟨nofun, fun _ => rfl, nofun, fun _ _ => rfl, Nat.zero_le _⟩

variable {after : IndexInner W}

/-- The parts of the index that the tables are. -/
theorem Sound.of_eq (h : inner.Sound options admissions)
    (hconnections : after.connectionsById = inner.connectionsById)
    (horder : after.businessOrder = inner.businessOrder)
    (hruntime : after.byRuntime = inner.byRuntime) : after.Sound options admissions := by
  obtain ⟨hshaped, horders, hlisted, hpinned, hlimit⟩ := h
  refine ⟨?_, ?_, ?_, ?_, ?_⟩
  · intro id record hget
    exact hshaped (hconnections ▸ hget)
  · intro key
    rw [orderOf, horder, show after.admittedFor key = inner.admittedFor key from by
      funext id
      rw [admittedFor, hconnections, admittedFor]]
    exact horders key
  · intro key id hadmitted
    rw [admittedFor, hconnections] at hadmitted
    exact hlisted hadmitted
  · intro runtime id
    rw [pinnedTo, attachedTo, hruntime, hconnections]
    exact hpinned runtime id
  rw [hconnections]
  exact hlimit

variable {id : String}

/-- A record may change in its counters. -/
theorem Sound.update (h : inner.Sound options admissions)
    {record record' : ConnectionRecord W} (hget : inner.connectionsById.get? id = some record)
    (hkey : record'.businessKey = record.businessKey) (hstate : record'.state = record.state)
    (hgeneration : record'.generation = record.generation)
    (hruntime : record'.runtime = record.runtime) :
    ({ inner with connectionsById := inner.connectionsById.insert id record' } :
      IndexInner W).Sound options admissions := by
  have hany : ∀ (p : ConnectionRecord W → Bool), p record' = p record → ∀ j,
      ((inner.connectionsById.insert id record').get? j).any p =
        (inner.connectionsById.get? j).any p := by
    intro p hp j
    rw [get?_insert]
    split
    case isTrue heq => rw [heq, hget, any_some, any_some, hp]
    case isFalse => rfl
  refine ⟨?_, ?_, ?_, ?_, ?_⟩
  · intro j r hj
    obtain ⟨-, rfl⟩ | ⟨-, hj⟩ := get?_insert_eq_some.mp hj
    · obtain ⟨h₁, h₂, h₃⟩ := h.shaped hget
      exact ⟨by rwa [hstate, hkey], by rwa [hstate, hgeneration, hruntime],
        by rwa [hstate, hgeneration]⟩
    · exact h.shaped hj
  · intro key
    have hadmitted : ({ inner with connectionsById := inner.connectionsById.insert id record' } :
        IndexInner W).admittedFor key = inner.admittedFor key :=
      funext (hany _ (by rw [hstate, hkey]))
    rw [hadmitted]
    exact h.order key
  · intro key j hadmitted
    rw [admittedFor, hany _ (by rw [hstate, hkey])] at hadmitted
    exact h.listed hadmitted
  · intro runtime j
    rw [attachedTo, hany _ (by rw [hstate, hruntime])]
    exact h.pinned runtime j
  · exact (size_insert_of_get? hget record').trans_le h.limit

/-! ## Finishing -/

theorem leaveBusiness_connections (id : String) (key : Option String) :
    (inner.leaveBusiness id key).connectionsById = inner.connectionsById := by
  unfold leaveBusiness
  split
  · rfl
  split
  · rfl
  dsimp only
  split <;> rfl

theorem leaveRuntime_eq (id : String) (runtime : Option RuntimeSessionEpoch) :
    (inner.leaveRuntime id runtime).connectionsById = inner.connectionsById ∧
      (inner.leaveRuntime id runtime).businessOrder = inner.businessOrder ∧
      (inner.leaveRuntime id runtime).highWater = inner.highWater := by
  unfold leaveRuntime
  split
  · exact ⟨rfl, rfl, rfl⟩
  · split <;> exact ⟨rfl, rfl, rfl⟩

variable (inner) in
/-- Finishing takes one connection out, and its key's order and fence move with it. -/
theorem finishLocked_cases (id : String) (terminal : ClientTerminal)
    (close : Option WebSocketLifecycleClose) :
    (inner.connectionsById.get? id = none ∧ (inner.finishLocked id terminal close).2 = inner) ∨
    ∃ record, inner.connectionsById.get? id = some record ∧
      (inner.finishLocked id terminal close).2.connectionsById = inner.connectionsById.erase id ∧
      (inner.finishLocked id terminal close).2.businessOrder =
        (inner.leaveBusiness id record.businessKey).businessOrder ∧
      (inner.finishLocked id terminal close).2.highWater =
        (inner.leaveBusiness id record.businessKey).highWater := by
  unfold finishLocked
  split
  case h_1 hnone => exact .inl ⟨hnone, rfl⟩
  case h_2 record hget =>
    refine .inr ⟨record, hget, ?_, ?_, ?_⟩
    · exact (leaveRuntime_eq id record.runtime).1.trans (leaveBusiness_connections id _)
    · refine (leaveRuntime_eq id record.runtime).2.1.trans ?_
      unfold leaveBusiness
      split
      · rfl
      dsimp only
      split
      · rfl
      · split <;> rfl
    refine (leaveRuntime_eq id record.runtime).2.2.trans ?_
    unfold leaveBusiness
    split
    · rfl
    dsimp only
    split
    · rfl
    · split <;> rfl

variable (inner) in
theorem finishLocked_get? (id j : String) (terminal : ClientTerminal)
    (close : Option WebSocketLifecycleClose) :
    (inner.finishLocked id terminal close).2.connectionsById.get? j =
      if j = id then none else inner.connectionsById.get? j := by
  obtain ⟨hnone, heq⟩ | ⟨record, -, hconnections, -, -⟩ :=
    inner.finishLocked_cases id terminal close
  · rw [heq]
    split
    case isTrue hj => rw [hj, hnone]
    · rfl
  · rw [hconnections, get?_erase]

theorem leaveBusiness_orderOf (id key : String) (left : Option String) :
    (inner.leaveBusiness id left).orderOf key =
      if left = some key then (inner.orderOf key).filter (· ≠ id) else inner.orderOf key := by
  cases left with
  | none => rfl
  | some leftKey =>
    rw [leaveBusiness]
    split
    case h_1 hnone =>
      split
      case isTrue heq =>
        cases heq
        rw [orderOf, hnone]
        rfl
      case isFalse => rfl
    case h_2 order horder =>
      by_cases hkey : key = leftKey
      · subst hkey
        rw [if_pos rfl]
        have hbefore : inner.orderOf key = order := by rw [orderOf, horder, getD_some]
        dsimp only
        split
        case isTrue hempty =>
          rw [orderOf, get?_erase_self, hbefore]
          exact (List.isEmpty_iff.mp hempty).symm
        case isFalse => rw [orderOf, get?_insert_self, hbefore, getD_some]
      rw [if_neg fun heq => hkey (some.inj heq).symm]
      dsimp only
      split
      · rw [orderOf, get?_erase_of_ne _ hkey, orderOf]
      · rw [orderOf, get?_insert_of_ne _ _ hkey, orderOf]

theorem leaveRuntime_pinnedTo (id j : String) (runtime : RuntimeSessionEpoch)
    (left : Option RuntimeSessionEpoch) :
    (inner.leaveRuntime id left).pinnedTo runtime j =
      (inner.pinnedTo runtime j && !(left = some runtime && j = id)) := by
  cases left with
  | none => simp [leaveRuntime]
  | some leftRuntime =>
    rw [leaveRuntime]
    by_cases hruntime : runtime = leftRuntime
    · subst hruntime
      split
      case h_1 hnone => simp [pinnedTo, hnone, contains]
      case h_2 ids hids =>
        rw [pinnedTo, get?_insert_self, pinnedTo, hids, getD_some,
          getD_some, contains, contains, get?_erase]
        by_cases hj : j = id <;> simp [hj]
    have hne : ¬ some leftRuntime = some runtime := fun heq => hruntime (some.inj heq).symm
    split
    · simp [hne]
    rw [pinnedTo, get?_insert_of_ne _ _ hruntime, pinnedTo]
    simp [hne]

theorem leaveBusiness_byRuntime (id : String) (left : Option String) :
    (inner.leaveBusiness id left).byRuntime = inner.byRuntime := by
  unfold leaveBusiness
  split
  · rfl
  split
  · rfl
  dsimp only
  split <;> rfl

theorem leaveRuntime_byRuntime {other : IndexInner W} (h : other.byRuntime = inner.byRuntime)
    (id : String) (left : Option RuntimeSessionEpoch) :
    (other.leaveRuntime id left).byRuntime = (inner.leaveRuntime id left).byRuntime := by
  unfold leaveRuntime
  split
  · exact h
  rw [h]
  split
  · exact h
  · rfl

variable {record : ConnectionRecord W}

theorem finishLocked_byRuntime
    (hget : inner.connectionsById.get? id = some record) (terminal : ClientTerminal)
    (close : Option WebSocketLifecycleClose) :
    (inner.finishLocked id terminal close).2.byRuntime =
      (inner.leaveRuntime id record.runtime).byRuntime := by
  rw [finishLocked, hget]
  apply leaveRuntime_byRuntime
  exact leaveBusiness_byRuntime _ _

theorem finishLocked_any (id j : String) (terminal : ClientTerminal)
    (close : Option WebSocketLifecycleClose) (p : ConnectionRecord W → Bool) :
    ((inner.finishLocked id terminal close).2.connectionsById.get? j).any p =
      (decide (j ≠ id) && (inner.connectionsById.get? j).any p) := by
  rw [finishLocked_get?]
  by_cases hj : j = id <;> simp [hj]

/-- A connection that is not listed under a key is not missed there. -/
theorem Sound.finishLocked_orderOf (h : inner.Sound options admissions) (id key : String)
    (terminal : ClientTerminal) (close : Option WebSocketLifecycleClose) :
    (inner.finishLocked id terminal close).2.orderOf key = (inner.orderOf key).filter (· ≠ id) := by
  have hstays : inner.admittedFor key id = false →
      inner.orderOf key = (inner.orderOf key).filter (· ≠ id) := by
    intro hnot
    symm
    rw [List.filter_eq_self]
    intro j hj
    rw [h.order key, List.mem_filter] at hj
    apply decide_eq_true
    rintro rfl
    exact absurd hj.2 (by simp [hnot])
  obtain ⟨hnone, heq⟩ | ⟨record, hget, -, horder, -⟩ := inner.finishLocked_cases id terminal close
  · rw [heq]
    exact hstays (by rw [admittedFor, hnone]; rfl)
  have hafter : (inner.finishLocked id terminal close).2.orderOf key =
      (inner.leaveBusiness id record.businessKey).orderOf key := by
    rw [orderOf, horder, orderOf]
  rw [hafter, leaveBusiness_orderOf]
  split
  case isTrue => rfl
  case isFalse hkey => exact hstays (by rw [admittedFor, hget]; simp [hkey])

theorem Sound.finishLocked (h : inner.Sound options admissions) (id : String)
    (terminal : ClientTerminal) (close : Option WebSocketLifecycleClose) :
    (inner.finishLocked id terminal close).2.Sound options admissions := by
  obtain ⟨-, heq⟩ | ⟨record, hget, hconnections, -, -⟩ := inner.finishLocked_cases id terminal close
  · rw [heq]
    exact h
  have hadmitted : ∀ key, (inner.finishLocked id terminal close).2.admittedFor key =
      fun j => decide (j ≠ id) && inner.admittedFor key j :=
    fun key => funext fun j => finishLocked_any id j terminal close _
  refine ⟨?_, ?_, ?_, ?_, ?_⟩
  · intro j r hj
    rw [finishLocked_get?] at hj
    split at hj
    · cases hj
    · exact h.shaped hj
  · intro key
    rw [h.finishLocked_orderOf, hadmitted, ← List.filter_filter, ← h.order key]
  · intro key j hj
    rw [hadmitted, Bool.and_eq_true] at hj
    exact h.listed hj.2
  · intro runtime j
    have hafter : (inner.finishLocked id terminal close).2.pinnedTo runtime j =
        (inner.leaveRuntime id record.runtime).pinnedTo runtime j := by
      rw [pinnedTo, finishLocked_byRuntime hget, pinnedTo]
    rw [hafter, leaveRuntime_pinnedTo, h.pinned, attachedTo, attachedTo, finishLocked_any]
    by_cases hj : j = id
    · subst hj
      rw [hget]
      simp
    · simp [hj]
  rw [hconnections]
  exact (size_erase_le _ _).trans h.limit

theorem Sound.finishAll {ids : List String} (h : inner.Sound options admissions)
    (terminal : ClientTerminal) (close : Option WebSocketLifecycleClose) :
    (finishAll terminal close ids inner).2.Sound options admissions := by
  induction ids generalizing inner with
  | nil => exact h
  | cons id ids ih => exact ih (h.finishLocked id terminal close)

variable {ids : List String}

theorem finishAll_get?_of_not_mem {j : String} (hj : j ∉ ids)
    (terminal : ClientTerminal) (close : Option WebSocketLifecycleClose) :
    (IndexInner.finishAll terminal close ids inner).2.connectionsById.get? j =
      inner.connectionsById.get? j := by
  induction ids generalizing inner with
  | nil => rfl
  | cons id ids ih =>
    rw [List.mem_cons, not_or] at hj
    exact (ih hj.2).trans ((inner.finishLocked_get? id j terminal close).trans (if_neg hj.1))

/-! ## Admission -/

theorem dedup_concat (l : List String) (a : String) :
    (l ++ [a]).dedup = l.dedup.filter (· ≠ a) ++ [a] := by
  induction l with
  | nil => rfl
  | cons x l ih =>
    rw [List.cons_append]
    by_cases hx : x ∈ l
    · rw [List.dedup_cons_of_mem (List.mem_append_left _ hx), List.dedup_cons_of_mem hx, ih]
    rw [List.dedup_cons_of_notMem hx]
    by_cases hxa : x = a
    · subst hxa
      rw [List.dedup_cons_of_mem (List.mem_append_right _ List.mem_cons_self), ih]
      simp
    have hnot : x ∉ l ++ [a] := by simp [hx, hxa]
    rw [List.dedup_cons_of_notMem hnot, ih]
    simp [hxa]

theorem Sound.reserve (h : inner.Sound options admissions) (id : String) :
    (inner.reserve options id).2.Sound options admissions := by
  unfold IndexInner.reserve
  split
  · exact h
  split
  · exact h
  case isFalse hroom =>
  split
  · exact h
  case isFalse hnew =>
    have hnone : inner.connectionsById.get? id = none := by
      cases hget : inner.connectionsById.get? id with
      | none => rfl
      | some record => exact absurd (contains_iff.mpr ⟨record, hget⟩) hnew
    let fresh : ConnectionRecord W := ⟨none, none, .reserved, none, none, none, 0, 0⟩
    have hany : ∀ (p : ConnectionRecord W → Bool), p fresh = false → ∀ j,
        ((inner.connectionsById.insert id fresh).get? j).any p =
          (inner.connectionsById.get? j).any p := by
      intro p hp j
      rw [get?_insert]
      split
      case isTrue heq => rw [heq, hnone, any_some, hp, any_none]
      case isFalse => rfl
    refine ⟨?_, ?_, ?_, ?_, ?_⟩
    · intro j r hj
      obtain ⟨-, rfl⟩ | ⟨-, hj⟩ := get?_insert_eq_some.mp hj
      · exact ⟨fun _ => rfl, fun _ => ⟨rfl, rfl⟩, by rintro ⟨⟩⟩
      · exact h.shaped hj
    · intro key
      refine (h.order key).trans ?_
      exact congrArg (List.filter · _) (funext fun j => (hany _ rfl j).symm)
    · intro key j hj
      exact h.listed ((hany _ rfl j).symm.trans hj)
    · intro runtime j
      exact (h.pinned runtime j).trans (hany _ rfl j).symm
    refine (size_insert hnone fresh).trans_le ?_
    omega

theorem index_order (id : String) (record : ConnectionRecord W) (businessKey : Option String)
    (rank : Option Nat) (key : String) :
    (inner.index id record businessKey rank).businessOrder.get? key =
      if businessKey = some key then some ((inner.businessOrder.get? key).getD [] ++ [id])
      else inner.businessOrder.get? key := by
  cases businessKey with
  | none => rfl
  | some own =>
    refine (get?_insert _ _ _ _).trans ?_
    by_cases hkey : key = own
    · rw [if_pos hkey, if_pos (congrArg some hkey.symm), hkey]
    · rw [if_neg hkey, if_neg (fun heq => hkey (some.inj heq).symm)]

theorem index_orderOf (id : String) (record : ConnectionRecord W) (businessKey : Option String)
    (rank : Option Nat) (key : String) :
    (inner.index id record businessKey rank).orderOf key =
      inner.orderOf key ++ if businessKey = some key then [id] else [] := by
  rw [orderOf, index_order]
  split
  · rw [getD_some, orderOf]
  · rw [List.append_nil, orderOf]

/-- An accepted connection comes last in the order of its key. -/
theorem Sound.index (h : inner.Sound options admissions)
    (hget : inner.connectionsById.get? id = some record) (hstate : record.state = .reserved)
    (businessKey : Option String) (rank : Option Nat) :
    (inner.index id record businessKey rank).Sound options (admissions ++ [id]) := by
  obtain ⟨hgeneration, hruntime⟩ := (h.shaped hget).waiting (by simp [hstate])
  have hconnections : (inner.index id record businessKey rank).connectionsById =
      inner.connectionsById.insert id
        { record with businessKey := businessKey, rank := rank, state := .admitted } := rfl
  have hany : ∀ (p : ConnectionRecord W → Bool) j,
      ((inner.index id record businessKey rank).connectionsById.get? j).any p =
        if j = id then
          p { record with businessKey := businessKey, rank := rank, state := .admitted }
        else (inner.connectionsById.get? j).any p := by
    intro p j
    rw [hconnections, get?_insert]
    split <;> rfl
  have hadmitted : ∀ key j, (inner.index id record businessKey rank).admittedFor key j =
      if j = id then decide (businessKey = some key) else inner.admittedFor key j := by
    intro key j
    rw [admittedFor, hany]
    split <;> simp [admittedFor]
  have hfresh : ∀ key, inner.admittedFor key id = false := by
    intro key
    rw [admittedFor, hget, any_some, hstate]
    simp
  refine ⟨?_, ?_, ?_, ?_, ?_⟩
  · intro j r hj
    rw [hconnections] at hj
    obtain ⟨-, rfl⟩ | ⟨-, hj⟩ := get?_insert_eq_some.mp hj
    · exact ⟨by rintro ⟨⟩, fun _ => ⟨hgeneration, hruntime⟩, by rintro ⟨⟩⟩
    · exact h.shaped hj
  · intro key
    have hothers : (admissions.dedup.filter (· ≠ id)).filter
        ((inner.index id record businessKey rank).admittedFor key) = inner.orderOf key := by
      rw [h.order, List.filter_filter]
      apply List.filter_congr
      intro j _
      rw [hadmitted]
      by_cases hj : j = id
      · subst hj
        simp [hfresh]
      · simp [hj]
    have hown : [id].filter ((inner.index id record businessKey rank).admittedFor key) =
        if businessKey = some key then [id] else [] := by
      rw [List.filter_cons, hadmitted, if_pos rfl]
      simp
    rw [index_orderOf, dedup_concat, List.filter_append, hothers, hown]
  · intro key j hj
    rw [hadmitted] at hj
    split at hj
    case isTrue heq => exact List.mem_append_right _ (List.mem_singleton.mpr heq)
    case isFalse => exact List.mem_append_left _ (h.listed hj)
  · intro runtime j
    rw [attachedTo, hany]
    refine (h.pinned runtime j).trans ?_
    split
    case isTrue heq =>
      rw [attachedTo, heq, hget, any_some, hstate]
      simp
    case isFalse => rfl
  · exact (size_insert_of_get? hget _).trans_le h.limit

theorem Sound.mem_existingFor (h : inner.Sound options admissions) {key id : String}
    (hmem : id ∈ inner.existingFor key) : inner.admittedFor key id = true := by
  have horder : id ∈ inner.orderOf key := List.mem_of_mem_filter hmem
  rw [h.order, List.mem_filter] at horder
  exact horder.2

variable {overflow : OverflowPolicy} {finalizers : List (FinalizerRecord W)} {maxConnections : Nat}
variable {rank : Option Nat}

theorem fenceRefuses_eq_false {fence : Option Nat} {n : Nat} :
    fenceRefuses fence (some n) = false ↔ ∀ f, fence = some f → f < n := by
  cases fence with
  | none | some f => simp [fenceRefuses]

theorem fenceRefuses_none {fence : Option Nat} :
    fenceRefuses fence none = false ↔ fence = none := by
  cases fence with
  | none | some f => simp [fenceRefuses]

variable {key : String}

/-- The connections that an admission replaces: with a rank above the fence all of its key, and
without one the oldest, so many that its own is within the limit. -/
theorem replaceBusiness_finishes
    (h : inner.replaceBusiness options key rank maxConnections overflow = .ok (finalizers, after)) :
    ∃ ids close fences, ids ⊆ inner.existingFor key ∧
      (finalizers, after) = finishAll .replacement close ids { inner with highWater := fences } ∧
      (∀ n, rank = some n → (∀ fence, inner.highWater.get? key = some fence → fence < n) ∧
        (inner.highWater.contains key = true ∨ inner.highWater.size < options.highWaterCapacity) ∧
        fences = inner.highWater.insert key n) ∧
      (rank = none → inner.highWater.get? key = none ∧ fences = inner.highWater ∧
        ∃ n, ids = (inner.existingFor key).take n ∧
          (inner.existingFor key).length + 1 ≤ maxConnections + n) := by
  unfold replaceBusiness at h
  dsimp only at h
  split at h
  · cases h
  case isFalse hfence =>
  rw [Bool.not_eq_true] at hfence
  split at h
  case h_1 n =>
    split at h
    · cases h
    case isFalse hcapacity =>
      refine ⟨_, _, _, List.Subset.refl _, (Except.ok.inj h).symm, fun n' hn => ?_, by rintro ⟨⟩⟩
      cases hn
      refine ⟨fenceRefuses_eq_false.mp hfence, ?_, rfl⟩
      by_cases hcontains : inner.highWater.contains key = true
      · exact .inl hcontains
      refine .inr ?_
      by_contra hsize
      exact hcapacity ⟨hcontains, not_lt.mp hsize⟩
  case h_2 =>
    have hnone := fenceRefuses_none.mp hfence
    split at h
    · cases h
    case isFalse hreject =>
      split at h
      case isTrue hclose =>
        refine ⟨_, _, inner.highWater, List.take_subset _ _, (Except.ok.inj h).symm,
          by rintro _ ⟨⟩, fun _ => ⟨hnone, rfl, _, rfl, ?_⟩⟩
        omega
      case isFalse hkeep =>
        refine ⟨[], none, inner.highWater, List.nil_subset _, (Except.ok.inj h).symm,
          by rintro _ ⟨⟩, fun _ => ⟨hnone, rfl, 0, rfl, ?_⟩⟩
        cases overflow with
        | rejectNew =>
          have hroom : ¬ maxConnections ≤ (inner.existingFor key).length :=
            fun hle => hreject ⟨rfl, hle⟩
          omega
        | closeOldest =>
          have hroom : ¬ maxConnections < (inner.existingFor key).length + 1 :=
            fun hlt => hkeep ⟨rfl, hlt⟩
          omega

/-- The index when an admission takes its connection in, and the connections that it replaced. -/
theorem Sound.replaced (h : inner.Sound options admissions) {id key : String}
    (hget : inner.connectionsById.get? id = some record) (hstate : record.state = .reserved)
    (hok : inner.replaceBusiness options key rank maxConnections overflow =
      .ok (finalizers, after)) :
    after.Sound options admissions ∧ after.connectionsById.get? id = some record := by
  obtain ⟨ids, close, fences, hids, heq, -⟩ := replaceBusiness_finishes hok
  obtain ⟨-, rfl⟩ := Prod.mk.inj heq
  have hfences : ({ inner with highWater := fences } : IndexInner W).Sound options admissions :=
    h.of_eq rfl rfl rfl
  refine ⟨hfences.finishAll _ _, ?_⟩
  refine (finishAll_get?_of_not_mem (fun hmem => ?_) _ _).trans hget
  have hadmitted := h.mem_existingFor (hids hmem)
  rw [admittedFor, hget, any_some, hstate] at hadmitted
  simp at hadmitted

/-- An admission of a reserved connection either takes it in or ends it. -/
theorem Sound.admitReserved_cases (h : inner.Sound options admissions)
    (hget : inner.connectionsById.get? id = some record) (hstate : record.state = .reserved)
    (businessKey : Option String) (rank : Option Nat) (maxConnections : Nat)
    (overflow : OverflowPolicy) :
    (∃ close, inner.admitReserved options id record businessKey rank maxConnections overflow =
      (.rejected close, [], (inner.finishLocked id .policyRejected none).2)) ∨
    ∃ finalizers middle, middle.Sound options admissions ∧
      middle.connectionsById.get? id = some record ∧
      ((businessKey = none ∧ finalizers = [] ∧ middle = inner) ∨ ∃ key, businessKey = some key ∧
        inner.replaceBusiness options key rank maxConnections overflow = .ok (finalizers, middle)) ∧
      inner.admitReserved options id record businessKey rank maxConnections overflow =
        (.accepted, finalizers, middle.index id record businessKey rank) := by
  cases businessKey with
  | none => exact .inr ⟨[], inner, h, hget, .inl ⟨rfl, rfl, rfl⟩, rfl⟩
  | some key =>
    unfold IndexInner.admitReserved
    dsimp only
    split
    case h_1 close _ => exact .inl ⟨close, rfl⟩
    case h_2 finalizers middle hok =>
      obtain ⟨hsound, hstays⟩ := h.replaced hget hstate hok
      exact .inr ⟨finalizers, middle, hsound, hstays, .inr ⟨key, rfl, hok⟩, rfl⟩

variable (inner options) in
/-- An admission that is not refused before the replacement found its connection reserved. -/
theorem admitConnection_cases (id : String) (businessKey : Option String) (rank : Option Nat)
    (maxConnections : Nat) (overflow : OverflowPolicy) :
    (∃ close, inner.admitConnection options id businessKey rank maxConnections overflow =
      (.rejected close, [], inner)) ∨
    ∃ record, 1 ≤ maxConnections ∧ maxConnections ≤ 2 ^ 32 - 1 ∧ inner.shuttingDown = false ∧
      inner.connectionsById.get? id = some record ∧ record.state = .reserved ∧
      inner.admitConnection options id businessKey rank maxConnections overflow =
        inner.admitReserved options id record businessKey rank maxConnections overflow := by
  unfold admitConnection
  split
  · exact .inl ⟨_, rfl⟩
  case isFalse hrange =>
    obtain ⟨hlow, hhigh⟩ := not_not.mp hrange
    split
    · exact .inl ⟨_, rfl⟩
    case isFalse hopen =>
      split
      · exact .inl ⟨_, rfl⟩
      case h_2 record hget =>
        split
        · exact .inl ⟨_, rfl⟩
        case isFalse hstate =>
          exact .inr ⟨record, hlow, hhigh, Bool.not_eq_true _ ▸ hopen, hget, not_not.mp hstate, rfl⟩

section

variable (h : inner.Sound options admissions)
include h

theorem Sound.admitConnection (id : String)
    (businessKey : Option String) (rank : Option Nat) (maxConnections : Nat)
    (overflow : OverflowPolicy) :
    (inner.admitConnection options id businessKey rank maxConnections overflow).2.2.Sound options
      (admissions ++ inner.admitted options
        (.admitConnection id businessKey rank maxConnections overflow)) := by
  rw [admitted]
  obtain ⟨close, heq⟩ | ⟨record, -, -, -, hget, hstate, heq⟩ :=
    inner.admitConnection_cases options id businessKey rank maxConnections overflow
  · rw [heq, List.append_nil]
    exact h
  obtain ⟨close, heq'⟩ | ⟨finalizers, middle, hsound, hstays, -, heq'⟩ :=
    h.admitReserved_cases hget hstate businessKey rank maxConnections overflow
  · rw [heq, heq', List.append_nil]
    exact h.finishLocked id .policyRejected none
  rw [heq, heq']
  exact hsound.index hstays hstate businessKey rank

/-! ## The other operations -/

theorem Sound.attach (id : String) (generation : Nat) (runtime : RuntimeSessionEpoch) (writer : W) :
    (inner.attach id generation runtime writer).2.Sound options admissions := by
  unfold IndexInner.attach
  split
  · exact h
  case h_2 record hget =>
    split
    · exact h
    case isFalse hadmitted =>
    have hstate : record.state = .admitted := not_not.mp hadmitted
    let attached : ConnectionRecord W :=
      { record with
        generation := some generation, runtime := some runtime, writer := some writer
        state := .attached }
    have hany : ∀ (p : ConnectionRecord W → Bool) j,
        ((inner.connectionsById.insert id attached).get? j).any p =
          if j = id then p attached else (inner.connectionsById.get? j).any p := by
      intro p j
      rw [get?_insert]
      split <;> rfl
    have hsame : ∀ key j, ((inner.connectionsById.insert id attached).get? j).any
        (fun r => r.state ≠ .reserved && r.businessKey = some key) = inner.admittedFor key j := by
      intro key j
      rw [hany]
      split
      case isTrue heq =>
        rw [admittedFor, heq, hget, any_some, hstate]
        rfl
      case isFalse => rfl
    refine ⟨?_, ?_, ?_, ?_, ?_⟩
    · intro j r hj
      obtain ⟨-, rfl⟩ | ⟨-, hj⟩ := get?_insert_eq_some.mp hj
      · exact ⟨by rintro ⟨⟩, fun hne => absurd rfl hne, fun _ => rfl⟩
      · exact h.shaped hj
    · intro key
      refine (h.order key).trans ?_
      exact congrArg (List.filter · _) (funext fun j => (hsame key j).symm)
    · intro key j hj
      exact h.listed ((hsame key j).symm.trans hj)
    · intro other j
      have hbefore : inner.pinnedTo other id = false := by
        rw [h.pinned, attachedTo, hget, any_some, hstate]
        rfl
      have hafter : ((inner.byRuntime.insert runtime
          (((inner.byRuntime.get? runtime).getD ∅).insert id ())).get? other).getD ∅ =
          if other = runtime then ((inner.byRuntime.get? runtime).getD ∅).insert id ()
          else (inner.byRuntime.get? other).getD ∅ := by
        rw [get?_insert]
        split <;> rfl
      rw [pinnedTo, attachedTo, hany, hafter]
      by_cases hj : j = id
      · subst hj
        rw [if_pos rfl]
        by_cases hother : other = runtime
        · simp [hother, contains, attached]
        rw [if_neg hother]
        refine hbefore.trans ?_
        simp [attached, Ne.symm hother]
      rw [if_neg hj]
      by_cases hother : other = runtime
      · subst hother
        rw [if_pos rfl, contains, get?_insert_of_ne _ _ hj]
        exact h.pinned other j
      rw [if_neg hother]
      exact h.pinned other j
    · exact (size_insert_of_get? hget attached).trans_le h.limit

theorem Sound.reserveWrite (id : String) (generation bytes buffered : Nat) :
    (inner.reserveWrite options id generation bytes buffered).2.Sound options admissions := by
  unfold IndexInner.reserveWrite
  split
  · exact h
  case h_2 record hget =>
    split
    · exact h
    generalize u64Saturating (_ + bytes) = total
    split
    · exact h
    · exact h.update hget rfl rfl rfl rfl

theorem Sound.completeWrite (id : String) (generation bytes : Nat) :
    (inner.completeWrite id generation bytes).Sound options admissions := by
  unfold IndexInner.completeWrite
  split
  · exact h
  case h_2 record hget =>
    split
    · exact h.update hget rfl rfl rfl rfl
    · exact h

/-- Every call keeps the tables. -/
theorem Sound.apply (call : IndexCall W) :
    (inner.apply options call).Sound options (admissions ++ inner.admitted options call) := by
  have hplain : ∀ after : IndexInner W, after.Sound options admissions →
      after.Sound options (admissions ++ []) := by
    intro after hafter
    rwa [List.append_nil]
  have hclosed : ({ inner with shuttingDown := true } : IndexInner W).Sound options admissions :=
    h.of_eq rfl rfl rfl
  cases call with
  | reserve id => exact hplain _ (h.reserve id)
  | admitConnection id businessKey rank maxConnections overflow =>
    exact h.admitConnection id businessKey rank maxConnections overflow
  | attach id generation runtime writer => exact hplain _ (h.attach id generation runtime writer)
  | finish id terminal close => exact hplain _ (h.finishLocked id terminal close)
  | runtimeDisconnected runtime => exact hplain _ (h.finishAll _ _)
  | shutdown => exact hplain _ (hclosed.finishAll _ _)
  | reserveWrite id generation bytes buffered =>
    exact hplain _ (h.reserveWrite id generation bytes buffered)
  | completeWrite id generation bytes => exact hplain _ (h.completeWrite id generation bytes)
  | removeFinalized id => exact hplain _ (h.of_eq rfl rfl rfl)

/-! ## Limits without ranks -/

theorem Sound.finishAll_orderOf (key : String)
    (ids : List String) (terminal : ClientTerminal) (close : Option WebSocketLifecycleClose) :
    (IndexInner.finishAll terminal close ids inner).2.orderOf key =
      (inner.orderOf key).filter (· ∉ ids) := by
  induction ids generalizing inner with
  | nil => simp [IndexInner.finishAll]
  | cons id ids ih =>
    refine (ih (h.finishLocked id terminal close)).trans ?_
    rw [h.finishLocked_orderOf, List.filter_filter]
    apply List.filter_congr
    intro j _
    by_cases hj : j = id <;> simp [hj]

end

theorem filter_not_mem_take {l : List String} (h : l.Nodup) (n : Nat) :
    l.filter (· ∉ l.take n) = l.drop n := by
  have hsplit : l.filter (· ∉ l.take n) = (l.take n ++ l.drop n).filter (· ∉ l.take n) := by
    rw [List.take_append_drop]
  have hfirst : (l.take n).filter (· ∉ l.take n) = [] := by simp
  have hlast : (l.drop n).filter (· ∉ l.take n) = l.drop n := by
    rw [List.filter_eq_self]
    intro x hx
    apply decide_eq_true
    intro hmem
    exact List.disjoint_take_drop h (Nat.le_refl n) hmem hx
  rw [hsplit, List.filter_append, hfirst, hlast, List.nil_append]

theorem Sound.nodup_orderOf (h : inner.Sound options admissions) (key : String) :
    (inner.orderOf key).Nodup := by
  rw [h.order]
  exact (List.nodup_dedup _).filter _

theorem Sound.existingFor_eq (h : inner.Sound options admissions) (key : String) :
    inner.existingFor key = inner.orderOf key := by
  refine List.filter_eq_self.mpr fun id hid => ?_
  have hadmitted : id ∈ inner.orderOf key := hid
  rw [h.order, List.mem_filter, admittedFor] at hadmitted
  cases hget : inner.connectionsById.get? id with
  | none => simp [hget] at hadmitted
  | some record => exact contains_iff.mpr ⟨record, hget⟩

/-- Admissions for the key have this limit and no rank. -/
def Unranked (key : String) (limit : Nat) : IndexCall W → Prop
  | .admitConnection _ businessKey rank maxConnections _ =>
    businessKey = some key → rank = none ∧ maxConnections = limit
  | _ => True

section

variable (h : inner.Sound options admissions)
include h

theorem Sound.length_finishAll_le (key : String)
    (ids : List String) (terminal : ClientTerminal) (close : Option WebSocketLifecycleClose) :
    ((IndexInner.finishAll terminal close ids inner).2.orderOf key).length ≤
      (inner.orderOf key).length := by
  rw [h.finishAll_orderOf]
  exact List.length_filter_le _ _

/-- A replacement without a rank leaves room for the connection that it is for. -/
theorem Sound.length_replaced (hpositive : 1 ≤ maxConnections)
    (hok : inner.replaceBusiness options key none maxConnections overflow =
      .ok (finalizers, after)) : (after.orderOf key).length + 1 ≤ maxConnections := by
  obtain ⟨ids, close, fences, -, heq, -, htake⟩ := replaceBusiness_finishes hok
  obtain ⟨-, rfl⟩ := Prod.mk.inj heq
  obtain ⟨-, -, n, rfl, hroom⟩ := htake rfl
  have hfences : ({ inner with highWater := fences } : IndexInner W).Sound options admissions :=
    h.of_eq rfl rfl rfl
  have hleft := hfences.finishAll_orderOf key ((inner.orderOf key).take n) .replacement close
  have hdrop : ({ inner with highWater := fences } : IndexInner W).orderOf key =
      inner.orderOf key := rfl
  rw [hdrop, filter_not_mem_take (h.nodup_orderOf key)] at hleft
  rw [h.existingFor_eq] at hroom ⊢
  rw [hleft, List.length_drop]
  omega

theorem Sound.length_admitConnection {key id : String}
    {businessKey : Option String} {limit maxConnections : Nat}
    (hcall : businessKey = some key → rank = none ∧ maxConnections = limit)
    (hle : (inner.orderOf key).length ≤ limit) :
    ((inner.admitConnection options id businessKey rank maxConnections overflow).2.2.orderOf
      key).length ≤ limit := by
  obtain ⟨close, heq⟩ | ⟨record, hpositive, -, -, hget, hstate, heq⟩ :=
    inner.admitConnection_cases options id businessKey rank maxConnections overflow
  · rw [heq]
    exact hle
  obtain ⟨close, heq'⟩ | ⟨finalizers, middle, -, -, hreplaced, heq'⟩ :=
    h.admitReserved_cases hget hstate businessKey rank maxConnections overflow
  · rw [heq, heq', h.finishLocked_orderOf]
    exact (List.length_filter_le _ _).trans hle
  rw [heq, heq', index_orderOf, List.length_append]
  by_cases hkey : businessKey = some key
  · obtain ⟨rfl, rfl⟩ := hcall hkey
    obtain ⟨hnone, -, -⟩ | ⟨other, hother, hok⟩ := hreplaced
    · rw [hnone] at hkey
      cases hkey
    obtain rfl := some.inj (hother.symm.trans hkey)
    rw [if_pos hkey]
    exact h.length_replaced hpositive hok
  rw [if_neg hkey]
  refine le_trans ?_ hle
  obtain ⟨-, -, rfl⟩ | ⟨other, -, hok⟩ := hreplaced
  · exact le_rfl
  obtain ⟨ids, close, fences, -, hfinish, -⟩ := replaceBusiness_finishes hok
  obtain ⟨-, rfl⟩ := Prod.mk.inj hfinish
  have hfences : ({ inner with highWater := fences } : IndexInner W).Sound options
      admissions := h.of_eq rfl rfl rfl
  exact hfences.length_finishAll_le key ids _ _

/-- A call keeps a limit that all admissions for the key have. -/
theorem Sound.length_apply {limit : Nat}
    {call : IndexCall W} (hcall : Unranked key limit call)
    (hle : (inner.orderOf key).length ≤ limit) :
    ((inner.apply options call).orderOf key).length ≤ limit := by
  have hsame : ∀ after : IndexInner W, after.businessOrder = inner.businessOrder →
      (after.orderOf key).length ≤ limit := by
    intro after heq
    rw [orderOf, heq]
    exact hle
  have hclosed : ({ inner with shuttingDown := true } : IndexInner W).Sound options admissions :=
    h.of_eq rfl rfl rfl
  cases call with
  | reserve id =>
    apply hsame
    rw [IndexInner.apply, IndexInner.reserve]
    split
    · rfl
    split
    · rfl
    split <;> rfl
  | admitConnection id businessKey rank maxConnections overflow =>
    exact h.length_admitConnection hcall hle
  | attach id generation runtime writer =>
    apply hsame
    rw [IndexInner.apply, IndexInner.attach]
    split
    · rfl
    split <;> rfl
  | finish id terminal close =>
    refine le_trans ?_ hle
    rw [IndexInner.apply, h.finishLocked_orderOf]
    exact List.length_filter_le _ _
  | runtimeDisconnected runtime => exact (h.length_finishAll_le key _ _ _).trans hle
  | shutdown => exact (hclosed.length_finishAll_le key _ _ _).trans hle
  | reserveWrite id generation bytes buffered =>
    apply hsame
    rw [IndexInner.apply, IndexInner.reserveWrite]
    split
    · rfl
    split
    · rfl
    generalize u64Saturating (_ + bytes) = total
    split <;> rfl
  | completeWrite id generation bytes =>
    apply hsame
    rw [IndexInner.apply, IndexInner.completeWrite]
    split
    · rfl
    split <;> rfl
  | removeFinalized id => exact hsame _ rfl

end

end IndexInner

end Skiff.WebSocket
