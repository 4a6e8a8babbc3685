import Skiff.WebSocket.IndexTables

/-!
# Fenced admission

A connection that was admitted for a business key with a rank is protected while it is
live: an admission for the key without a rank, or with one that is not higher, is refused.
The fence that protects it is dropped when the last connection of its key finishes, also
when that is the connection which a higher rank has just replaced. `Supersedes` says when
an admission replaces; the fence holds along every run without such a step.
-/

namespace Skiff.WebSocket

open Session (RuntimeSessionEpoch)
open OrdMap

namespace IndexInner

variable {W : Type} {options : ClientConnectionIndexOptions} {inner : IndexInner W}

/-- A live connection with its business key. -/
def Holds (inner : IndexInner W) (id key : String) (record : ConnectionRecord W) : Prop :=
  inner.connectionsById.get? id = some record ∧ record.businessKey = some key

/-- Admissions that a live connection of this rank does not let pass. -/
def Outranked (rank : Option Nat) (held : Nat) : Prop := ∀ n, rank = some n → n ≤ held

/-- Every live connection with a rank refuses what it outranks and stays, whatever is
admitted for its key has a higher rank, and it is the only one of its key. -/
structure FenceLaw (options : ClientConnectionIndexOptions) (inner : IndexInner W) : Prop where
  refuses : ∀ {id key record held}, inner.Holds id key record → record.rank = some held →
    ∀ {other rank maxConnections overflow}, Outranked rank held →
      ∃ close finalizers after,
        inner.admitConnection options other (some key) rank maxConnections overflow =
          (.rejected close, finalizers, after) ∧
        after.connectionsById.get? id = some record
  rises : ∀ {id key record held}, inner.Holds id key record → record.rank = some held →
    ∀ {other rank maxConnections overflow finalizers after},
      inner.admitConnection options other (some key) rank maxConnections overflow =
        (.accepted, finalizers, after) →
      ∃ n, rank = some n ∧ held < n
  alone : ∀ {id other key record record' held}, inner.Holds id key record →
    record.rank = some held → inner.Holds other key record' → other = id

/-- An admission with a rank that replaces connections of its key: it reaches the
replacement, passes the fence and finds some of them live. -/
def Supersedes (options : ClientConnectionIndexOptions) (inner : IndexInner W) : IndexCall W → Prop
  | .admitConnection id (some key) (some rank) maxConnections _ =>
    1 ≤ maxConnections ∧ maxConnections ≤ 2 ^ 32 - 1 ∧ inner.shuttingDown = false ∧
      (∃ record, inner.connectionsById.get? id = some record ∧ record.state = .reserved) ∧
      (∀ fence, inner.highWater.get? key = some fence → fence < rank) ∧
      (inner.highWater.contains key = true ∨ inner.highWater.size < options.highWaterCapacity) ∧
      inner.existingFor key ≠ []
  | _ => False

def SparingStep (options : ClientConnectionIndexOptions) (s : IndexInner W) (call : IndexCall W)
    (t : IndexInner W) : Prop :=
  Step options s call t ∧ ¬ s.Supersedes options call

/-! ## The invariant -/

/-- The fence of a key is as high as the rank of the connection it protects, its only one. -/
structure Fenced (inner : IndexInner W) : Prop where
  fence : ∀ {id key record held}, inner.Holds id key record → record.rank = some held →
    ∃ fence, inner.highWater.get? key = some fence ∧ held ≤ fence
  alone : ∀ {id other key record record' held}, inner.Holds id key record →
    record.rank = some held → inner.Holds other key record' → other = id

variable {record : ConnectionRecord W} {id key : String} {admissions : List String}
variable {next : IndexInner W}

theorem Sound.mem_orderOf (h : inner.Sound options admissions)
    (hholds : inner.Holds id key record) : id ∈ inner.orderOf key := by
  obtain ⟨hget, hkey⟩ := hholds
  have hstate : record.state ≠ .reserved := by
    intro hreserved
    rw [(h.shaped hget).reserved hreserved] at hkey
    cases hkey
  have hadmitted : inner.admittedFor key id = true := by
    rw [admittedFor, hget, Option.any_some]
    simp [hstate, hkey]
  rw [h.order, List.mem_filter, List.mem_dedup]
  exact ⟨h.listed hadmitted, hadmitted⟩

theorem Fenced.empty : (new : IndexInner W).Fenced := by
  constructor
  · rintro id key record held ⟨hget, -⟩
    cases hget
  rintro id other key record record' held ⟨hget, -⟩
  cases hget

/-- No connection of a key is new, and the fences of the keys do not fall. -/
theorem Fenced.of_holds (h : inner.Fenced)
    (hholds : ∀ {j key r}, next.Holds j key r → ∃ r', inner.Holds j key r' ∧ r'.rank = r.rank)
    (hfences : ∀ {j key r fence}, next.Holds j key r → inner.highWater.get? key = some fence →
      ∃ fence', next.highWater.get? key = some fence' ∧ fence ≤ fence') : next.Fenced := by
  constructor
  · intro j key r held hj hheld
    obtain ⟨r', hr', hrank⟩ := hholds hj
    obtain ⟨fence, hfence, hle⟩ := h.fence hr' (hrank.trans hheld)
    obtain ⟨fence', hfence', hle'⟩ := hfences hj hfence
    exact ⟨fence', hfence', hle.trans hle'⟩
  intro j other key r r'' held hj hheld hother
  obtain ⟨r', hr', hrank⟩ := hholds hj
  obtain ⟨_, hother', -⟩ := hholds hother
  exact h.alone hr' (hrank.trans hheld) hother'

/-- The parts of the index that the invariant is about. -/
theorem Fenced.of_eq (h : inner.Fenced)
    (hconnections : next.connectionsById = inner.connectionsById)
    (hfences : next.highWater = inner.highWater) : next.Fenced :=
  h.of_holds (fun hj => ⟨_, ⟨hconnections ▸ hj.1, hj.2⟩, rfl⟩)
    fun _ hfence => ⟨_, hfences ▸ hfence, le_rfl⟩

/-- A record that has a key had it before, with its rank. -/
theorem Fenced.insert (h : inner.Fenced) {record' : ConnectionRecord W}
    (hkey : ∀ key, record'.businessKey = some key →
      ∃ record, inner.Holds id key record ∧ record.rank = record'.rank) :
    ({ inner with connectionsById := inner.connectionsById.insert id record' } :
      IndexInner W).Fenced := by
  refine h.of_holds ?_ fun _ hfence => ⟨_, hfence, le_rfl⟩
  rintro j key r ⟨hj, hr⟩
  obtain ⟨heq, rfl⟩ | ⟨-, hj⟩ := get?_insert_eq_some.mp hj
  · subst heq
    exact hkey key hr
  · exact ⟨r, ⟨hj, hr⟩, rfl⟩

/-! ## Finishing -/

/-- A key keeps its fence if another of its connections stays. -/
theorem leaveBusiness_highWater {other : String} (hmem : other ∈ inner.orderOf key)
    (hne : other ≠ id) (left : Option String) :
    (inner.leaveBusiness id left).highWater.get? key = inner.highWater.get? key := by
  cases left with
  | none => rfl
  | some leftKey =>
    rw [leaveBusiness]
    split
    · rfl
    case h_2 order horder =>
      dsimp only
      split
      case isTrue hempty =>
        refine get?_erase_of_ne _ ?_
        rintro rfl
        rw [orderOf, horder, Option.getD_some] at hmem
        have hstays : other ∈ order.filter (· ≠ id) :=
          List.mem_filter.mpr ⟨hmem, decide_eq_true hne⟩
        rw [List.isEmpty_iff.mp hempty] at hstays
        cases hstays
      case isFalse => rfl

theorem Fenced.finishLocked (h : inner.Fenced) (hs : inner.Sound options admissions) (id : String)
    (terminal : ClientTerminal) (close : Option WebSocketLifecycleClose) :
    (inner.finishLocked id terminal close).2.Fenced := by
  obtain ⟨-, heq⟩ | ⟨record, -, hconnections, -, hfences⟩ :=
    inner.finishLocked_cases id terminal close
  · rw [heq]
    exact h
  have hholds : ∀ {j key r}, (inner.finishLocked id terminal close).2.Holds j key r →
      j ≠ id ∧ inner.Holds j key r := by
    rintro j key r ⟨hj, hr⟩
    rw [hconnections] at hj
    obtain ⟨hne, hj⟩ := get?_erase_eq_some.mp hj
    exact ⟨hne, hj, hr⟩
  refine h.of_holds (fun hj => ⟨_, (hholds hj).2, rfl⟩) fun hj hfence => ⟨_, ?_, le_rfl⟩
  obtain ⟨hne, hr⟩ := hholds hj
  rw [hfences, leaveBusiness_highWater (hs.mem_orderOf hr) hne]
  exact hfence

variable {ids : List String}

theorem Fenced.finishAll (h : inner.Fenced) (hs : inner.Sound options admissions)
    (terminal : ClientTerminal) (close : Option WebSocketLifecycleClose) :
    (IndexInner.finishAll terminal close ids inner).2.Fenced := by
  induction ids generalizing inner with
  | nil => exact h
  | cons id ids ih =>
    exact ih (h.finishLocked hs id terminal close) (hs.finishLocked id terminal close)

/-! ## Admission -/

variable {overflow : OverflowPolicy} {rank : Option Nat} {maxConnections : Nat}
variable {businessKey : Option String}

/-- The index takes a connection in. Its rank is within the fence of its key, and if it has
one it is the first of its key. -/
theorem Fenced.index (h : inner.Fenced) (hfence : ∀ key n, businessKey = some key → rank = some n →
      ∃ fence, inner.highWater.get? key = some fence ∧ n ≤ fence)
    (halone : ∀ key, businessKey = some key →
      (∃ n, rank = some n) → ∀ other record', ¬ inner.Holds other key record')
    (hunranked : ∀ key, businessKey = some key →
      ∀ other record', inner.Holds other key record' → record'.rank = none) :
    (inner.index id record businessKey rank).Fenced := by
  have hcases : ∀ {j key r}, (inner.index id record businessKey rank).Holds j key r →
      (j = id ∧ businessKey = some key ∧ r.rank = rank) ∨ (j ≠ id ∧ inner.Holds j key r) := by
    rintro j key r ⟨hj, hr⟩
    change (inner.connectionsById.insert id _).get? j = some r at hj
    obtain ⟨heq, rfl⟩ | ⟨hne, hj⟩ := get?_insert_eq_some.mp hj
    · exact .inl ⟨heq, hr, rfl⟩
    · exact .inr ⟨hne, hj, hr⟩
  constructor
  · intro j key r held hj hheld
    obtain ⟨rfl, hkey, hrank⟩ | ⟨-, hr⟩ := hcases hj
    · exact hfence key held hkey (hrank.symm.trans hheld)
    · exact h.fence hr hheld
  intro j other key r r' held hj hheld hother
  obtain ⟨rfl, hkey, hrank⟩ | ⟨-, hr⟩ := hcases hj
  · obtain ⟨hid, -, -⟩ | ⟨-, hr'⟩ := hcases hother
    · exact hid
    · exact absurd hr' (halone key hkey ⟨held, hrank.symm.trans hheld⟩ other r')
  obtain ⟨rfl, hkey, -⟩ | ⟨-, hr'⟩ := hcases hother
  · rw [hunranked key hkey j r hr] at hheld
    cases hheld
  · exact h.alone hr hheld hr'

/-- The fence of a key may rise. -/
theorem Fenced.raise (h : inner.Fenced) {n : Nat}
    (habove : ∀ fence, inner.highWater.get? key = some fence → fence < n) :
    ({ inner with highWater := inner.highWater.insert key n } : IndexInner W).Fenced := by
  refine h.of_holds (fun hj => ⟨_, hj, rfl⟩) fun {_ other _ fence} _ hfence => ?_
  show ∃ fence', (inner.highWater.insert key n).get? other = some fence' ∧ fence ≤ fence'
  rw [get?_insert]
  split
  case isTrue heq =>
    subst heq
    exact ⟨n, rfl, (habove fence hfence).le⟩
  case isFalse => exact ⟨fence, hfence, le_rfl⟩

theorem finishAll_holds {terminal : ClientTerminal}
    {close : Option WebSocketLifecycleClose} {j key : String} {r : ConnectionRecord W}
    (h : (IndexInner.finishAll terminal close ids inner).2.Holds j key r) :
    inner.Holds j key r := by
  induction ids generalizing inner with
  | nil => exact h
  | cons id ids ih =>
    obtain ⟨hj, hr⟩ := ih h
    have hget := (inner.finishLocked_get? id j terminal close).symm.trans hj
    split at hget
    · cases hget
    · exact ⟨hget, hr⟩

section

variable (h : inner.Fenced) (hs : inner.Sound options admissions)
include h hs

theorem Fenced.admitReserved (id : String)
    (record : ConnectionRecord W) (hspares : ∀ key n, businessKey = some key → rank = some n →
      (∀ fence, inner.highWater.get? key = some fence → fence < n) →
      (inner.highWater.contains key = true ∨ inner.highWater.size < options.highWaterCapacity) →
      inner.existingFor key = []) :
    (inner.admitReserved options id record businessKey rank maxConnections
      overflow).2.2.Fenced := by
  cases businessKey with
  | none => exact h.index nofun nofun nofun
  | some key =>
    unfold IndexInner.admitReserved
    dsimp only
    split
    · exact h.finishLocked hs id .policyRejected none
    case h_2 finalizers after haccepted =>
      obtain ⟨ids, close, fences, hids, heq, hranked, hplain⟩ := replaceBusiness_finishes haccepted
      obtain ⟨-, rfl⟩ := Prod.mk.inj heq
      have hraised : ({ inner with highWater := fences } : IndexInner W).Sound options admissions :=
        hs.of_eq rfl rfl rfl
      cases rank with
      | some n =>
        obtain ⟨habove, hcapacity, rfl⟩ := hranked n rfl
        have hempty := hspares key n rfl rfl habove hcapacity
        rw [hempty, List.subset_nil] at hids
        subst hids
        have hnot : ∀ other record', ¬ inner.Holds other key record' := by
          intro other record' hholds
          have hmem := hs.mem_orderOf hholds
          rw [← hs.existingFor_eq, hempty] at hmem
          cases hmem
        refine (h.raise habove).index ?_ ?_ ?_
        · intro key' n' hkey hn
          cases hkey
          cases hn
          exact ⟨n, get?_insert_self _ _ _, le_refl n⟩
        · intro key' hkey _ other record' hholds
          cases hkey
          exact hnot other record' hholds
        intro key' hkey other record' hholds
        cases hkey
        exact absurd hholds (hnot other record')
      | none =>
        obtain ⟨hnone, rfl, -⟩ := hplain rfl
        refine (h.finishAll hs _ _).index nofun nofun ?_
        intro key' hkey other record' hholds
        cases hkey
        cases hrank : record'.rank with
        | none => rfl
        | some held =>
          obtain ⟨fence, hfence, -⟩ := h.fence (finishAll_holds hholds) hrank
          rw [hnone] at hfence
          cases hfence

theorem Fenced.admitConnection
    {id : String} (hspares : ¬ inner.Supersedes options
      (.admitConnection id businessKey rank maxConnections overflow)) :
    (inner.admitConnection options id businessKey rank maxConnections overflow).2.2.Fenced := by
  obtain ⟨close, heq⟩ | ⟨record, hlow, hhigh, hopen, hget, hstate, heq⟩ :=
    inner.admitConnection_cases options id businessKey rank maxConnections overflow
  · rw [heq]
    exact h
  rw [heq]
  refine h.admitReserved hs id record ?_
  rintro key n rfl rfl habove hcapacity
  by_contra hexisting
  exact hspares ⟨hlow, hhigh, hopen, ⟨record, hget, hstate⟩, habove, hcapacity, hexisting⟩

/-! ## Every call -/

theorem Fenced.step {call : IndexCall W}
    (hstep : SparingStep options inner call next) : next.Fenced := by
  obtain ⟨rfl, hspares⟩ := hstep
  cases call with
  | reserve id =>
    show (inner.reserve options id).2.Fenced
    unfold IndexInner.reserve
    split
    · exact h
    split
    · exact h
    split
    · exact h
    let reserved : ConnectionRecord W := ⟨none, none, .reserved, none, none, none, 0, 0⟩
    have hinsert : ({ inner with connectionsById := inner.connectionsById.insert id reserved } :
        IndexInner W).Fenced := h.insert (by rintro key ⟨⟩)
    exact hinsert.of_eq rfl rfl
  | admitConnection id businessKey rank maxConnections overflow =>
    exact h.admitConnection hs hspares
  | attach id generation runtime writer =>
    show (inner.attach id generation runtime writer).2.Fenced
    unfold IndexInner.attach
    split
    · exact h
    case h_2 record hget =>
      split
      · exact h
      let attached : ConnectionRecord W :=
        { record with
          generation := some generation, runtime := some runtime, writer := some writer
          state := .attached }
      have hinsert : ({ inner with connectionsById := inner.connectionsById.insert id attached } :
          IndexInner W).Fenced := h.insert fun key hkey => ⟨record, ⟨hget, hkey⟩, rfl⟩
      exact hinsert.of_eq rfl rfl
  | finish id terminal close => exact h.finishLocked hs id terminal close
  | runtimeDisconnected runtime => exact h.finishAll hs _ _
  | shutdown =>
    have hclosed : ({ inner with shuttingDown := true } : IndexInner W).Fenced := h.of_eq rfl rfl
    exact hclosed.finishAll (hs.of_eq rfl rfl rfl) _ _
  | reserveWrite id generation bytes buffered =>
    show (inner.reserveWrite options id generation bytes buffered).2.Fenced
    unfold IndexInner.reserveWrite
    split
    · exact h
    case h_2 record hget =>
      split
      · exact h
      generalize u64Saturating (_ + bytes) = total
      split
      · exact h
      · exact h.insert fun key hkey => ⟨record, ⟨hget, hkey⟩, rfl⟩
  | completeWrite id generation bytes =>
    show (inner.completeWrite id generation bytes).Fenced
    unfold IndexInner.completeWrite
    split
    · exact h
    case h_2 record hget =>
      split
      · exact h.insert fun key hkey => ⟨record, ⟨hget, hkey⟩, rfl⟩
      · exact h
  | removeFinalized id => exact h.of_eq rfl rfl

/-! ## The law -/

/-- A fence refuses what the connection behind it outranks. -/
theorem Fenced.refuses
    {held : Nat} (hholds : inner.Holds id key record) (hheld : record.rank = some held)
    {other : String} (houtranked : Outranked rank held) :
    ∃ close finalizers after,
      inner.admitConnection options other (some key) rank maxConnections overflow =
        (.rejected close, finalizers, after) ∧
      after.connectionsById.get? id = some record := by
  obtain ⟨close, heq⟩ | ⟨reserved, -, -, -, hget, hstate, heq⟩ :=
    inner.admitConnection_cases options other (some key) rank maxConnections overflow
  · exact ⟨close, [], inner, heq, hholds.1⟩
  obtain ⟨fence, hfence, hle⟩ := h.fence hholds hheld
  have hrefused : fenceRefuses (inner.highWater.get? key) rank = true := by
    rw [hfence]
    cases rank with
    | none => rfl
    | some n =>
      have hn : n ≤ fence := le_trans (houtranked n rfl) hle
      simpa [fenceRefuses] using hn
  have hne : id ≠ other := by
    rintro rfl
    obtain ⟨hlive, hkey⟩ := hholds
    obtain rfl := Option.some.inj (hget.symm.trans hlive)
    rw [(hs.shaped hget).reserved hstate] at hkey
    cases hkey
  refine ⟨closePolicyRejected, [], (inner.finishLocked other .policyRejected none).2, ?_, ?_⟩
  · rw [heq]
    unfold IndexInner.admitReserved replaceBusiness
    dsimp only
    rw [if_pos hrefused]
  rw [finishLocked_get?, if_neg hne]
  exact hholds.1

theorem Fenced.fenceLaw : inner.FenceLaw options := by
  refine ⟨?_, ?_, h.alone⟩
  · intro id key record held hholds hheld other rank maxConnections overflow houtranked
    exact h.refuses hs hholds hheld houtranked
  intro id key record held hholds hheld other rank maxConnections overflow finalizers after
    haccepted
  by_contra hnot
  have houtranked : Outranked rank held := by
    intro n hn
    by_contra hlt
    exact hnot ⟨n, hn, not_le.mp hlt⟩
  obtain ⟨close, finalizers', after', heq, -⟩ := h.refuses hs hholds hheld houtranked
  rw [heq] at haccepted
  cases haccepted

end

/-- Along a run without a replacement by rank, the fences protect the connections they
were raised for. -/
theorem admission_fenced {calls : List (IndexCall W)}
    (hrun : Run (SparingStep options) new calls inner) : inner.FenceLaw options := by
  obtain ⟨⟨_, hs⟩, hfenced⟩ : (∃ admissions, inner.Sound options admissions) ∧ inner.Fenced := by
    refine Run.invariant (P := fun s => (∃ admissions, Sound options admissions s) ∧ s.Fenced) ?_
      hrun ⟨⟨[], .new⟩, .empty⟩
    rintro s call t ⟨⟨_, hs⟩, hfenced⟩ hstep
    exact ⟨⟨_, hstep.1 ▸ hs.apply call⟩, hfenced.step hs hstep⟩
  exact hfenced.fenceLaw hs

/-- Room for a few connections. -/
def smallOptions : ClientConnectionIndexOptions := ⟨8, 1024, 8⟩

def admitRanked (id : String) (rank : Nat) : IndexCall Unit :=
  .admitConnection id (some "room") (some rank) 1 .rejectNew

/-- The index after some calls. -/
def after (calls : List (IndexCall Unit)) : IndexInner Unit :=
  calls.foldl (fun s call => s.apply smallOptions call) new

theorem admission_fenced_room :
    ∃ close finalizers later,
      (after [.reserve "a", admitRanked "a" 5, .reserve "b"]).admitConnection smallOptions
        "b" (some "room") (some 5) 1 .closeOldest = (.rejected close, finalizers, later) ∧
      later.connectionsById.get? "a" =
        some ⟨some "room", some 5, .admitted, none, none, none, 0, 0⟩ := by
  have hrun : Run (SparingStep smallOptions) new
      [.reserve "a", admitRanked "a" 5, .reserve "b"]
      (after [.reserve "a", admitRanked "a" 5, .reserve "b"]) := by
    refine .cons ⟨rfl, fun h => h⟩ (.cons ⟨rfl, ?_⟩ (.cons ⟨rfl, fun h => h⟩ (.nil _)))
    rintro ⟨-, -, -, -, -, -, hexisting⟩
    exact hexisting (by decide +kernel)
  refine (admission_fenced hrun).refuses ⟨?_, rfl⟩ rfl ?_
  · decide +kernel
  · intro n hn
    exact (Option.some.inj hn).ge

def supersedingCalls : List (IndexCall Unit) :=
  [.reserve "a", admitRanked "a" 1, .reserve "b", admitRanked "b" 2, .reserve "c"]

theorem supersedingCalls_live : (after supersedingCalls).Holds "b" "room"
    ⟨some "room", some 2, .admitted, none, none, none, 0, 0⟩ := by
  refine ⟨?_, rfl⟩
  decide +kernel

theorem supersedingCalls_accepts :
    ((after supersedingCalls).admitConnection smallOptions "c" (some "room") (some 1) 1
      .rejectNew).1 = .accepted := by
  decide +kernel

/-- A client of rank 1 takes the place of one of rank 2, which had replaced one of rank 1. -/
theorem older_client_supersedes :
    ∃ (calls : List (IndexCall Unit)) (inner : IndexInner Unit),
      Run (Step smallOptions) new calls inner ∧ ¬ inner.FenceLaw smallOptions := by
  refine ⟨supersedingCalls, after supersedingCalls,
    Run.of_foldl (fun s call => s.apply smallOptions call) new supersedingCalls, ?_⟩
  intro hlaw
  have haccepts := supersedingCalls_accepts
  rcases hcall : (after supersedingCalls).admitConnection smallOptions "c" (some "room") (some 1)
    1 .rejectNew with ⟨outcome, finalizers, later⟩
  rw [hcall] at haccepts
  rw [show outcome = .accepted from haccepts] at hcall
  obtain ⟨n, hn, hlt⟩ := hlaw.rises supersedingCalls_live rfl hcall
  cases hn
  omega

end IndexInner

end Skiff.WebSocket
