import Skiff.WebSocket.IndexTables

/-!
# The terminals of the index

Finishing takes a connection out and gives it a terminal, once. `Finishes` counts both along a
sequence of finalizers, with the generations that the connections had; a call of the index takes
out what it ends and puts in what it reserves.
-/

namespace Skiff.WebSocket

open Session (RuntimeSessionEpoch)
open OrdMap

section

variable {W : Type}

/-- The last terminal that was given to the id. -/
def lastEnding (records : List (FinalizerRecord W)) (id : String) : Option ClientTerminal :=
  (records.reverse.find? (·.connectionId = id)).map (·.terminal)

variable (first second : List (FinalizerRecord W))

theorem lastEnding_append (id : String) :
    lastEnding (first ++ second) id = (lastEnding second id).or (lastEnding first id) := by
  rw [lastEnding, List.reverse_append, List.find?_append, Option.map_or, lastEnding, lastEnding]

/-- The finalizers of the id that have a generation to close. -/
def closing (records : List (FinalizerRecord W)) (id : String) : Nat :=
  records.countP fun record => record.connectionId = id && record.generation.isSome

theorem closing_append (id : String) :
    closing (first ++ second) id = closing first id + closing second id :=
  List.countP_append

def endings (records : List (FinalizerRecord W)) (id : String) : Nat :=
  records.countP fun record => record.connectionId = id

theorem endings_append (id : String) :
    endings (first ++ second) id = endings first id + endings second id :=
  List.countP_append

end

namespace IndexInner

variable {W : Type} {options : ClientConnectionIndexOptions} {inner middle after : IndexInner W}
  {admissions : List String} {first second : List (FinalizerRecord W)}

def liveCount (inner : IndexInner W) (id : String) : Nat :=
  if inner.connectionsById.contains id then 1 else 0

def attachedCount (inner : IndexInner W) (id : String) : Nat :=
  if inner.isAttached id then 1 else 0

/-- The finalizers end connections that were live, each once, and record their terminals. -/
structure Finishes (inner : IndexInner W) (records : List (FinalizerRecord W))
    (after : IndexInner W) : Prop where
  live : ∀ id, after.liveCount id + endings records id = inner.liveCount id
  recorded : ∀ id, after.terminalsById.get? id =
    (lastEnding records id).or (inner.terminalsById.get? id)
  attached : ∀ id, after.attachedCount id + closing records id = inner.attachedCount id

namespace Finishes

theorem of_eq (hconnections : after.connectionsById = inner.connectionsById)
    (hterminals : after.terminalsById = inner.terminalsById) : Finishes inner [] after := by
  refine ⟨fun id => ?_, fun id => ?_, fun id => ?_⟩
  · rw [liveCount, hconnections, liveCount]
    rfl
  · rw [hterminals]
    rfl
  rw [attachedCount, isAttached, hconnections, attachedCount, isAttached]
  rfl

theorem trans (h : Finishes inner first middle) (h' : Finishes middle second after) :
    Finishes inner (first ++ second) after := by
  refine ⟨fun id => ?_, fun id => ?_, fun id => ?_⟩
  · rw [endings_append, ← h.live, ← h'.live]
    omega
  · rw [lastEnding_append, h'.recorded, h.recorded, Option.or_assoc]
  rw [closing_append, ← h.attached, ← h'.attached]
  omega

end Finishes

theorem leaveBusiness_terminalsById (id : String) (left : Option String) :
    (inner.leaveBusiness id left).terminalsById = inner.terminalsById := by
  unfold leaveBusiness
  split
  · rfl
  split
  · rfl
  dsimp only
  split <;> rfl

theorem leaveRuntime_terminalsById (id : String) (left : Option RuntimeSessionEpoch) :
    (inner.leaveRuntime id left).terminalsById = inner.terminalsById := by
  unfold leaveRuntime
  split
  · rfl
  · split <;> rfl

variable {id : String}

theorem finishLocked_of_get? {record : ConnectionRecord W}
    (hget : inner.connectionsById.get? id = some record) (terminal : ClientTerminal)
    (close : Option WebSocketLifecycleClose) :
    (inner.finishLocked id terminal close).1 =
        some ⟨id, record.generation, terminal, close, record.writer⟩ ∧
      (inner.finishLocked id terminal close).2.terminalsById =
        inner.terminalsById.insert id terminal := by
  rw [finishLocked, hget]
  refine ⟨rfl, ?_⟩
  dsimp only
  rw [leaveRuntime_terminalsById, leaveBusiness_terminalsById]

theorem finishLocked_of_none (hget : inner.connectionsById.get? id = none)
    (terminal : ClientTerminal) (close : Option WebSocketLifecycleClose) :
    inner.finishLocked id terminal close = (none, inner) := by
  rw [finishLocked, hget]

/-- A live connection is ended, once, and anything else is left as it is. -/
theorem Sound.finishes (h : inner.Sound options admissions) (id : String)
    (terminal : ClientTerminal) (close : Option WebSocketLifecycleClose) :
    Finishes inner (inner.finishLocked id terminal close).1.toList
      (inner.finishLocked id terminal close).2 := by
  cases hget : inner.connectionsById.get? id with
  | none =>
    rw [finishLocked_of_none hget]
    exact .of_eq rfl rfl
  | some record =>
    obtain ⟨hrecord, hterminals⟩ := finishLocked_of_get? hget terminal close
    rw [hrecord, Option.toList_some]
    refine ⟨fun j => ?_, fun j => ?_, fun j => ?_⟩
    · rw [liveCount, liveCount, contains, contains, finishLocked_get?, endings]
      by_cases hj : j = id
      · simp [hj, hget]
      · simp [hj, Ne.symm hj]
    · rw [hterminals, get?_insert, lastEnding]
      by_cases hj : j = id
      · simp [hj]
      · simp [hj, Ne.symm hj]
    rw [attachedCount, attachedCount, isAttached, isAttached, finishLocked_any, closing]
    by_cases hj : j = id
    · subst hj
      rw [hget, Option.any_some]
      by_cases hstate : record.state = .attached
      · simp [hstate, (h.shaped hget).attached hstate]
      · simp [hstate, ((h.shaped hget).waiting hstate).1]
    · simp [hj, Ne.symm hj]

theorem Sound.finishesAll {ids : List String} (h : inner.Sound options admissions)
    (terminal : ClientTerminal) (close : Option WebSocketLifecycleClose) :
    Finishes inner (IndexInner.finishAll terminal close ids inner).1
      (IndexInner.finishAll terminal close ids inner).2 := by
  induction ids generalizing inner with
  | nil => exact .of_eq rfl rfl
  | cons id ids ih =>
    exact (h.finishes id terminal close).trans (ih (h.finishLocked id terminal close))

/-! ## Calls -/

/-- What a call ends, reserves and starts is what the tables lose and gain. -/
structure Accounts (options : ClientConnectionIndexOptions) (inner : IndexInner W)
    (call : IndexCall W) : Prop where
  live : ∀ id, (inner.apply options call).liveCount id + endings (inner.ended options call) id =
    inner.liveCount id + (inner.reserved options call).count id
  recorded : ∀ id, (inner.apply options call).terminalsById.get? id =
    (lastEnding (inner.ended options call) id).or (inner.terminalsById.get? id)
  attached : ∀ id, (inner.apply options call).attachedCount id +
    closing (inner.started options call) id = inner.attachedCount id

theorem Finishes.accounts {call : IndexCall W} {records : List (FinalizerRecord W)}
    (h : Finishes inner records (inner.apply options call))
    (hended : inner.ended options call = records) (hstarted : inner.started options call = records)
    (hreserved : inner.reserved options call = []) : Accounts options inner call := by
  refine ⟨fun id => ?_, fun id => ?_, fun id => ?_⟩
  · rw [hended, hreserved]
    exact h.live id
  · rw [hended]
    exact h.recorded id
  rw [hstarted]
  exact h.attached id

/-- A call that changes records in place ends and reserves nothing. -/
theorem Finishes.of_same (hlive : ∀ id, after.liveCount id = inner.liveCount id)
    (hterminals : after.terminalsById = inner.terminalsById)
    (hattached : ∀ id, after.attachedCount id = inner.attachedCount id) :
    Finishes inner [] after := by
  refine ⟨hlive, fun id => ?_, hattached⟩
  rw [hterminals]
  rfl

/-- A record that is replaced by one of which the index keeps the state, or neither of which is
attached. -/
theorem Finishes.replace {record record' : ConnectionRecord W}
    (hget : inner.connectionsById.get? id = some record)
    (hafter : after.connectionsById = inner.connectionsById.insert id record')
    (hterminals : after.terminalsById = inner.terminalsById)
    (hstate : record'.state = .attached ↔ record.state = .attached) : Finishes inner [] after := by
  refine .of_same (fun j => ?_) hterminals fun j => ?_
  · rw [liveCount, liveCount, contains, contains, hafter, get?_insert]
    split
    case isTrue hj => simp [hj, hget]
    case isFalse => rfl
  rw [attachedCount, attachedCount, isAttached, isAttached, hafter, get?_insert]
  split
  case isTrue hj => simp [hj, hget, hstate]
  case isFalse => rfl

variable (inner options) in
theorem reserve_cases (id : String) :
    (∃ error, inner.reserve options id = (.error error, inner)) ∨
    (inner.connectionsById.get? id = none ∧ inner.reserve options id = (.ok (),
      { inner with
        connectionsById :=
          inner.connectionsById.insert id ⟨none, none, .reserved, none, none, none, 0, 0⟩
        admissionOrder := inner.admissionOrder ++ [id] })) := by
  unfold IndexInner.reserve
  split
  · exact .inl ⟨_, rfl⟩
  split
  · exact .inl ⟨_, rfl⟩
  split
  · exact .inl ⟨_, rfl⟩
  case isFalse hnew =>
    refine .inr ⟨?_, rfl⟩
    cases hget : inner.connectionsById.get? id with
    | none => rfl
    | some record => exact absurd (contains_iff.mpr ⟨record, hget⟩) hnew

theorem Accounts.reserve (id : String) : Accounts options inner (.reserve id) := by
  obtain ⟨error, heq⟩ | ⟨hnone, heq⟩ := inner.reserve_cases options id
  · have happly : inner.apply options (.reserve id) = inner := by rw [apply, heq]
    have hreserved : inner.reserved options (.reserve id) = [] := by rw [reserved, heq]
    have hkept : Finishes inner [] (inner.apply options (.reserve id)) := by
      rw [happly]
      exact .of_eq rfl rfl
    exact hkept.accounts rfl rfl hreserved
  have hconnections : (inner.apply options (.reserve id)).connectionsById =
      inner.connectionsById.insert id ⟨none, none, .reserved, none, none, none, 0, 0⟩ := by
    rw [apply, heq]
  have hterminals : (inner.apply options (.reserve id)).terminalsById = inner.terminalsById := by
    rw [apply, heq]
  have hreserved : inner.reserved options (.reserve id) = [id] := by rw [reserved, heq]
  refine ⟨fun j => ?_, fun j => ?_, fun j => ?_⟩
  · rw [hreserved, liveCount, liveCount, contains, contains, hconnections, get?_insert]
    by_cases hj : j = id
    · simp [hj, hnone, ended, started, endings]
    · simp [hj, Ne.symm hj, ended, started, endings]
  · rw [hterminals]
    rfl
  rw [attachedCount, attachedCount, isAttached, isAttached, hconnections, get?_insert]
  by_cases hj : j = id
  · simp [hj, hnone, started, closing]
  · simp [hj, started, closing]

theorem Sound.finishesReplaced (h : inner.Sound options admissions) {businessKey : Option String}
    {rank : Option Nat} {maxConnections : Nat} {overflow : OverflowPolicy}
    {finalizers : List (FinalizerRecord W)}
    (hreplaced : (businessKey = none ∧ finalizers = [] ∧ middle = inner) ∨
      ∃ key, businessKey = some key ∧
        inner.replaceBusiness options key rank maxConnections overflow =
          .ok (finalizers, middle)) : Finishes inner finalizers middle := by
  obtain ⟨-, rfl, rfl⟩ | ⟨key, -, hok⟩ := hreplaced
  · exact .of_eq rfl rfl
  obtain ⟨ids, close, fences, -, heq, -⟩ := replaceBusiness_finishes hok
  obtain ⟨rfl, rfl⟩ := Prod.mk.inj heq
  have hfences : ({ inner with highWater := fences } : IndexInner W).Sound options admissions :=
    h.of_eq rfl rfl rfl
  have hraised : Finishes inner [] { inner with highWater := fences } := .of_eq rfl rfl
  exact hraised.trans (hfences.finishesAll _ _)

theorem Accounts.admitConnection (h : inner.Sound options admissions) (id : String)
    (businessKey : Option String) (rank : Option Nat) (maxConnections : Nat)
    (overflow : OverflowPolicy) :
    Accounts options inner (.admitConnection id businessKey rank maxConnections overflow) := by
  obtain ⟨close, heq⟩ | ⟨record, -, -, -, hget, hstate, heq⟩ :=
    inner.admitConnection_cases options id businessKey rank maxConnections overflow
  · have hkept : Finishes inner []
        (inner.apply options (.admitConnection id businessKey rank maxConnections overflow)) := by
      rw [apply, heq]
      exact .of_eq rfl rfl
    refine hkept.accounts ?_ ?_ rfl
    · rw [ended, heq]
      dsimp only
      split
      · rfl
      case isFalse hnot =>
        cases hget : inner.connectionsById.get? id with
        | none => rw [finishLocked_of_none hget]; rfl
        | some record => exact absurd (contains_iff.mpr ⟨record, hget⟩) hnot
    · rw [started, heq]
  obtain ⟨close, heq'⟩ | ⟨finalizers, middle, hsound, hstays, hreplaced, heq'⟩ :=
    h.admitReserved_cases hget hstate businessKey rank maxConnections overflow
  · rw [heq'] at heq
    have hends := h.finishes id .policyRejected none
    have hended : inner.ended options
        (.admitConnection id businessKey rank maxConnections overflow) =
          (inner.finishLocked id .policyRejected none).1.toList := by
      rw [ended, heq]
      dsimp only
      rw [if_neg]
      rw [contains, finishLocked_get?, if_pos rfl]
      exact Bool.false_ne_true
    have happly : inner.apply options
        (.admitConnection id businessKey rank maxConnections overflow) =
          (inner.finishLocked id .policyRejected none).2 := by rw [apply, heq]
    refine ⟨fun j => ?_, fun j => ?_, fun j => ?_⟩
    · rw [hended, happly]
      exact hends.live j
    · rw [hended, happly]
      exact hends.recorded j
    -- a reserved connection has no generation to close
    have hwaiting := (h.shaped hget).waiting (by simp [hstate])
    have hclosing := hends.attached j
    rw [(finishLocked_of_get? hget .policyRejected none).1, hwaiting.1] at hclosing
    rw [started, heq, happly]
    simpa [closing] using hclosing
  rw [heq'] at heq
  have hreplace : Finishes middle [] (middle.index id record businessKey rank) :=
    .replace hstays rfl rfl (by simp [hstate])
  have hends := (h.finishesReplaced hreplaced).trans hreplace
  rw [List.append_nil] at hends
  have happly : inner.apply options
      (.admitConnection id businessKey rank maxConnections overflow) =
        middle.index id record businessKey rank := by rw [apply, heq]
  rw [← happly] at hends
  refine hends.accounts ?_ ?_ rfl
  · rw [ended, heq]
  · rw [started, heq]

theorem Accounts.reserveWrite (id : String) (generation bytes buffered : Nat) :
    Accounts options inner (.reserveWrite id generation bytes buffered) := by
  have hkept : Finishes inner [] (inner.reserveWrite options id generation bytes buffered).2 := by
    unfold IndexInner.reserveWrite
    split
    · exact .of_eq rfl rfl
    case h_2 record hget =>
      split
      · exact .of_eq rfl rfl
      generalize u64Saturating (_ + bytes) = total
      split
      · exact .of_eq rfl rfl
      · exact .replace hget rfl rfl .rfl
  exact hkept.accounts rfl rfl rfl

theorem Accounts.completeWrite (id : String) (generation bytes : Nat) :
    Accounts options inner (.completeWrite id generation bytes) := by
  have hkept : Finishes inner [] (inner.completeWrite id generation bytes) := by
    unfold IndexInner.completeWrite
    split
    · exact .of_eq rfl rfl
    case h_2 record hget =>
      split
      · exact .replace hget rfl rfl .rfl
      · exact .of_eq rfl rfl
  exact hkept.accounts rfl rfl rfl

/-- A call in one section of the index ends what leaves the tables, each once. -/
theorem Sound.accounts (h : inner.Sound options admissions) {call : IndexCall W}
    (single : ∀ id generation runtime writer, call ≠ .attach id generation runtime writer) :
    Accounts options inner call := by
  cases call with
  | reserve id => exact .reserve id
  | admitConnection id businessKey rank maxConnections overflow =>
    exact .admitConnection h id businessKey rank maxConnections overflow
  | attach id generation runtime writer => exact absurd rfl (single id generation runtime writer)
  | finish id terminal close => exact (h.finishes id terminal close).accounts rfl rfl rfl
  | runtimeDisconnected runtime =>
    exact Finishes.accounts (h.finishesAll .runtimeDisconnect none) rfl rfl rfl
  | shutdown =>
    have hclosed : ({ inner with shuttingDown := true } : IndexInner W).Sound options
        admissions := h.of_eq rfl rfl rfl
    have hraised : Finishes inner [] { inner with shuttingDown := true } := .of_eq rfl rfl
    exact (hraised.trans (hclosed.finishesAll .shutdown none)).accounts rfl rfl rfl
  | reserveWrite id generation bytes buffered => exact .reserveWrite id generation bytes buffered
  | completeWrite id generation bytes => exact .completeWrite id generation bytes
  | removeFinalized id =>
    have hkept : Finishes inner [] (inner.removeFinalized id) := .of_eq rfl rfl
    exact hkept.accounts rfl rfl rfl

end IndexInner

end Skiff.WebSocket
