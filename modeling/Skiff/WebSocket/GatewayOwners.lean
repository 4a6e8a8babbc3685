import Skiff.WebSocket.GatewayRuns

/-!
# Owners of the generations at the broker

A generation that the broker has is owned by the attach that took it and has yet to reach the
index, by the attached connection, or by a finalizer that has yet to close it, and never by two of
them. When no call is under way the generations are those of the attached connections.
-/

namespace Skiff.WebSocket

open Session (RuntimeSessionEpoch)
open BrokerInner IndexInner

/-! ## Counting the owners -/

def BrokerInner.generationCount (inner : BrokerInner) (id : String) : Nat :=
  if inner.generations.contains id then 1 else 0

def pending (calls : List AttachCall) (id : String) : Nat := calls.countP (·.id = id)

namespace Gateway

/-- Who has still to answer for a generation of the id. -/
def owners (s : Gateway) (id : String) : Nat :=
  pending s.attaching id + closing s.finalizers id + s.index.attachedCount id

/-- Every generation at the broker is open and has one owner. -/
structure Owned (s : Gateway) : Prop where
  owner : ∀ id, s.owners id = s.broker.generationCount id
  opened : s.broker.AllOpen

end Gateway

section

variable {answers : BrokerAnswers} {inner : BrokerInner}

theorem BrokerInner.generationCount_eq (inner : BrokerInner) (id : String) :
    inner.generationCount id = if (inner.openFlag id).isSome then 1 else 0 := by
  rw [generationCount, openFlag, Option.isSome_map, OrdMap.contains]

theorem pending_append (first second : List AttachCall) (id : String) :
    pending (first ++ second) id = pending first id + pending second id :=
  List.countP_append

theorem pending_singleton (call : AttachCall) (id : String) :
    pending [call] id = if call.id = id then 1 else 0 := by
  simp [pending, List.countP_singleton]

theorem closing_singleton (record : FinalizerRecord Nat) (id : String) :
    closing [record] id =
      if record.connectionId = id ∧ record.generation.isSome = true then 1 else 0 := by
  simp [closing, List.countP_singleton]

/-- Closing an id takes its generation away and leaves every other open. -/
theorem BrokerInner.AllOpen.closed (h : inner.AllOpen) (id : String) (outcome : Bool) :
    (inner.closeGeneration answers id outcome).1.AllOpen ∧
      ∀ j, (inner.closeGeneration answers id outcome).1.generationCount j =
        if j = id then 0 else inner.generationCount j := by
  refine ⟨fun j => ?_, fun j => ?_⟩
  · rw [h.closeGeneration]
    split
    · rintro ⟨⟩
    · exact h j
  rw [generationCount_eq, h.closeGeneration, generationCount_eq]
  split <;> rfl

end

/-- `attach` in the index: the connection is unknown, has another state, or is attached now. -/
theorem IndexInner.attach_cases {W : Type} (inner : IndexInner W) (id : String) (generation : Nat)
    (runtime : RuntimeSessionEpoch) (writer : W) :
    (inner.connectionsById.get? id = none ∧ (inner.attach id generation runtime writer).2 = inner) ∨
    (∃ record, inner.connectionsById.get? id = some record ∧ record.state ≠ .admitted ∧
      (inner.attach id generation runtime writer).2 = inner) ∨
    (inner.connectionsById.contains id = true ∧ inner.attachedCount id = 0 ∧
      ∀ j, (inner.attach id generation runtime writer).2.attachedCount j =
        inner.attachedCount j + if id = j then 1 else 0) := by
  unfold attach
  split
  case h_1 hnone => exact .inl ⟨hnone, rfl⟩
  case h_2 record hget =>
    split
    case isTrue hstate => exact .inr (.inl ⟨record, hget, hstate, rfl⟩)
    case isFalse hadmitted =>
      have hstate : record.state = .admitted := not_not.mp hadmitted
      have hbefore : inner.attachedCount id = 0 := by
        rw [attachedCount, isAttached, hget, Option.any_some, hstate]
        rfl
      refine .inr (.inr ⟨OrdMap.contains_iff.mpr ⟨record, hget⟩, hbefore, fun j => ?_⟩)
      by_cases hj : j = id
      · subst hj
        rw [hbefore, if_pos rfl, attachedCount, isAttached, OrdMap.get?_insert, if_pos rfl]
        rfl
      rw [if_neg (Ne.symm hj), attachedCount, isAttached, OrdMap.get?_insert, if_neg hj]
      rfl

/-! ## Steps -/

namespace Gateway.Owned

variable {options : ClientConnectionIndexOptions} {answers : BrokerAnswers} {s : Gateway}
  {past : List String}

theorem index (h : s.Owned) (hsound : s.index.Sound options past) {call : IndexCall Nat}
    (single : ∀ id generation runtime writer, call ≠ .attach id generation runtime writer) :
    Owned { s with
      index := s.index.apply options call
      finalizers := s.finalizers ++ s.index.started options call } := by
  refine ⟨fun j => ?_, h.opened⟩
  have hattached := (hsound.accounts single).attached j
  have howner := h.owner j
  rw [owners] at howner
  rw [owners, closing_append]
  show pending s.attaching j + (closing s.finalizers j +
    closing (s.index.started options call) j) + (s.index.apply options call).attachedCount j =
      s.broker.generationCount j
  omega

theorem attachGeneration (h : s.Owned) (id : String) (generation : Nat) (display : String)
    (runtime : RuntimeSessionEpoch) (writer : Nat) (connection : AttachMeta) :
    (s.attachGeneration id generation display runtime writer connection).2.Owned := by
  rw [Gateway.attachGeneration]
  split
  · exact h
  obtain ⟨error, heq⟩ | ⟨hnone, broker, token, heq, hflags⟩ := s.broker.attachGeneration_cases
    ⟨id, display, connection.serviceId, connection.websocketEntryId⟩ writer generation
  · rw [heq]
    exact h
  rw [heq]
  refine ⟨fun j => ?_, fun j => ?_⟩
  · have howner := h.owner j
    rw [owners, generationCount_eq] at howner
    rw [owners, pending_append, pending_singleton, generationCount_eq]
    show pending s.attaching j + (if id = j then 1 else 0) + closing s.finalizers j +
      s.index.attachedCount j = if (broker.openFlag j).isSome then 1 else 0
    rw [hflags]
    by_cases hj : j = id
    · subst hj
      simp only [hnone, Option.isSome_none, Bool.false_eq_true, if_false] at howner
      simp only [if_pos, Option.isSome_some]
      omega
    rw [if_neg (Ne.symm hj), if_neg hj]
    omega
  rw [hflags]
  split
  · rintro ⟨⟩
  · exact h.opened j

/-- An attach that finds its connection admitted owns the generation from then on through the
connection. One that finds it gone closes the generation, and none finds it attached. -/
theorem attachIndexed (h : s.Owned) {before after : List AttachCall} {call : AttachCall}
    (waiting : s.attaching = before ++ call :: after)
    (hcalm : ∀ record, s.index.connectionsById.get? call.id = some record →
      record.state ≠ .reserved) :
    ({ s with attaching := before ++ after }.attachIndexed answers call).2.Owned := by
  have hpending : ∀ j, pending s.attaching j =
      pending (before ++ after) j + if call.id = j then 1 else 0 := by
    intro j
    rw [waiting, List.append_cons, pending_append, pending_append, pending_singleton,
      pending_append]
    omega
  have hone := h.owner call.id
  rw [owners, hpending, if_pos rfl] at hone
  rw [Gateway.attachIndexed]
  obtain ⟨hnone, heq⟩ | ⟨record, hget, hstate, -⟩ | ⟨hknown, hbefore, hattached⟩ :=
    s.index.attach_cases call.id call.generation call.runtime call.writer
  · obtain ⟨hopened, hcounts⟩ := @BrokerInner.AllOpen.closed answers _ h.opened call.id false
    have hunknown : s.index.connectionsById.contains call.id = false := by
      rw [OrdMap.contains, hnone]
      rfl
    simp only [heq, hunknown, Bool.false_eq_true, if_false]
    refine ⟨fun j => ?_, hopened⟩
    have howner := h.owner j
    rw [owners, hpending] at howner
    show pending (before ++ after) j + closing s.finalizers j + s.index.attachedCount j =
      (s.broker.closeGeneration answers call.id false).1.generationCount j
    rw [hcounts]
    by_cases hj : j = call.id
    · have hle : s.broker.generationCount call.id ≤ 1 := by
        rw [generationCount]
        split <;> omega
      rw [hj, if_pos rfl]
      omega
    rw [if_neg (Ne.symm hj)] at howner
    rw [if_neg hj]
    omega
  · -- a record in the third state, attached, would be a second owner
    have hattached : s.index.attachedCount call.id = 1 := by
      have hthird : record.state = .attached := by
        cases hrecord : record.state with
        | reserved => exact absurd hrecord (hcalm record hget)
        | admitted => exact absurd hrecord hstate
        | attached => rfl
      rw [attachedCount, isAttached, hget, Option.any_some, hthird]
      rfl
    have hle : s.broker.generationCount call.id ≤ 1 := by
      rw [generationCount]
      split <;> omega
    omega
  simp only [hknown, if_true]
  refine ⟨fun j => ?_, h.opened⟩
  have howner := h.owner j
  rw [owners, hpending] at howner
  show pending (before ++ after) j + closing s.finalizers j +
    (s.index.attach call.id call.generation call.runtime call.writer).2.attachedCount j =
      s.broker.generationCount j
  rw [hattached]
  omega

theorem startFinalizer (h : s.Owned) {before after : List (FinalizerRecord Nat)}
    {record : FinalizerRecord Nat} (waiting : s.finalizers = before ++ record :: after) :
    ({ s with finalizers := before ++ after }.startFinalizer answers record).Owned := by
  have hclosing : ∀ j, closing s.finalizers j = closing (before ++ after) j +
      if record.connectionId = j ∧ record.generation.isSome = true then 1 else 0 := by
    intro j
    rw [waiting, List.append_cons, closing_append, closing_append, closing_singleton,
      closing_append]
    omega
  rw [Gateway.startFinalizer]
  split
  case isTrue hsome =>
    obtain ⟨hopened, hcounts⟩ := @BrokerInner.AllOpen.closed answers _ h.opened
      record.connectionId (record.terminal = .protocolClose)
    refine ⟨fun j => ?_, hopened⟩
    have howner := h.owner j
    rw [owners, hclosing] at howner
    show pending s.attaching j + closing (before ++ after) j + s.index.attachedCount j =
      (s.broker.closeGeneration answers record.connectionId
        (record.terminal = .protocolClose)).1.generationCount j
    rw [hcounts]
    by_cases hj : j = record.connectionId
    · have hle : s.broker.generationCount record.connectionId ≤ 1 := by
        rw [generationCount]
        split <;> omega
      rw [hj, if_pos ⟨rfl, hsome⟩] at howner
      rw [hj, if_pos rfl]
      omega
    rw [if_neg fun hboth => hj hboth.1.symm] at howner
    rw [if_neg hj]
    omega
  case isFalse hnone =>
    refine ⟨fun j => ?_, h.opened⟩
    have howner := h.owner j
    rw [owners, hclosing, if_neg fun hboth => hnone hboth.2] at howner
    exact howner

end Gateway.Owned

section

variable {options : ClientConnectionIndexOptions} {brokerOptions : WebSocketRequestBrokerOptions}
  {s t : Gateway} {label : GatewayLabel} {labels : List GatewayLabel} {past : List String}

theorem CalmGatewayStep.owned (h : CalmGatewayStep options s label t)
    (hsound : s.index.Sound options past) (hs : s.Owned) : t.Owned := by
  obtain ⟨hstep, hcalm⟩ := h
  cases hstep with
  | index call single => exact hs.index hsound single
  | attachGeneration id generation display runtime writer connection =>
    exact hs.attachGeneration id generation display runtime writer connection
  | attachIndexed answers waiting =>
    refine hs.attachIndexed waiting fun record hget hreserved => hcalm ?_
    exact ⟨record, hget, hreserved⟩
  | startFinalizer answers waiting => exact hs.startFinalizer waiting

theorem Gateway.Owned.new : (Gateway.new brokerOptions).Owned :=
  ⟨fun _ => rfl, fun _ => by rintro ⟨⟩⟩

theorem owned_of_run (h : Run (CalmGatewayStep options) (.new brokerOptions) labels s) :
    s.Owned := by
  refine Run.history (P := fun _ s => s.Owned) .new ?_ h
  intro labels s label t hrun hs hstep
  exact hstep.owned (sound_of_run (hrun.mono And.left)) hs

/-- Between its calls the broker has the generations of the attached connections. -/
theorem Gateway.Owned.idle (h : s.Owned) (hidle : s.Idle) (id : String) :
    s.broker.generations.contains id = s.index.isAttached id := by
  have howner := h.owner id
  obtain ⟨hattaching, hfinalizers⟩ := hidle
  rw [owners, hattaching, hfinalizers] at howner
  have hcount : s.index.attachedCount id = s.broker.generationCount id := by
    rw [← howner, pending, closing, List.countP_nil, List.countP_nil, Nat.zero_add]
  rw [generationCount, attachedCount] at hcount
  cases hhas : s.broker.generations.contains id with
  | true | false => cases hattached : s.index.isAttached id <;> simp_all

end

/-! ## The index and the broker over whole runs -/

/-- Whatever the steps of the calls and their order, the tables of the index keep their law. As
long as no attach comes to the index while its connection is only reserved, the broker has, between
calls, a generation for just the attached connections. -/
theorem index_matches_broker (options : ClientConnectionIndexOptions)
    (brokerOptions : WebSocketRequestBrokerOptions) (labels : List GatewayLabel) (s : Gateway)
    (h : Run (GatewayStep options) (.new brokerOptions) labels s) :
    IndexLaw options labels s.index ∧
      (Run (CalmGatewayStep options) (.new brokerOptions) labels s → s.Idle →
        ∀ id, s.broker.generations.contains id = s.index.isAttached id) :=
  ⟨indexLaw_of_run h, fun hcalm hidle id => (owned_of_run hcalm).idle hidle id⟩

def roomOptions : ClientConnectionIndexOptions := ⟨4, 100, 4⟩

def roomBroker : WebSocketRequestBrokerOptions := ⟨4, 2, 4, 2, 8, 1000, 500⟩

def roomAttach : AttachCall := ⟨"a", 0, ⟨"replica", 1⟩, 7⟩

def quietAnswers : BrokerAnswers := ⟨fun _ => 0, fun _ => 0, fun _ => true, true, true⟩

/-- A connection that is admitted and then attached. -/
theorem index_matches_broker_attached : ∃ labels s,
    Run (GatewayStep roomOptions) (.new roomBroker) labels s ∧ s.index.isAttached "a" = true ∧
      s.broker.generations.contains "a" = true := by
  have hrun : ∃ labels s, Run (CalmGatewayStep roomOptions) (.new roomBroker) labels s ∧
      s.Idle ∧ s.index.isAttached "a" = true := by
    refine ⟨_, _, .cons ⟨.index (.reserve "a") (by rintro _ _ _ _ ⟨⟩), id⟩
      (.cons ⟨.index (.admitConnection "a" none none 1 .rejectNew) (by rintro _ _ _ _ ⟨⟩), id⟩
        (.cons ⟨.attachGeneration "a" 0 "a" roomAttach.runtime 7 ⟨"service", "entry"⟩, id⟩
          (.cons ⟨@GatewayStep.attachIndexed _ _ quietAnswers [] [] roomAttach rfl, ?_⟩
            (.nil _)))), ⟨rfl, rfl⟩, rfl⟩
    rintro ⟨record, hget, hreserved⟩
    cases hget
    cases hreserved
  obtain ⟨labels, s, hcalm, hidle, hattached⟩ := hrun
  have hrun : Run (GatewayStep roomOptions) (.new roomBroker) labels s := hcalm.mono And.left
  refine ⟨labels, s, hrun, hattached, ?_⟩
  rw [(index_matches_broker roomOptions roomBroker labels s hrun).2 hcalm hidle, hattached]

/-- An attach that comes while its connection is reserved fails in the index, and leaves a
generation at the broker. -/
theorem index_misses_broker : ¬ ∀ options brokerOptions labels s,
    Run (GatewayStep options) (.new brokerOptions) labels s → s.Idle →
      ∀ id, s.broker.generations.contains id = s.index.isAttached id := by
  intro hall
  have hrun : ∃ labels s, Run (GatewayStep roomOptions) (.new roomBroker) labels s ∧ s.Idle ∧
      s.broker.generations.contains "a" = true ∧ s.index.isAttached "a" = false :=
    ⟨_, _, .cons (.index (.reserve "a") (by rintro _ _ _ _ ⟨⟩))
      (.cons (.attachGeneration "a" 0 "a" roomAttach.runtime 7 ⟨"service", "entry"⟩)
        (.cons (@GatewayStep.attachIndexed _ _ quietAnswers [] [] roomAttach rfl)
          (.nil _))), ⟨rfl, rfl⟩, rfl, rfl⟩
  obtain ⟨labels, s, hrun, hidle, hhas, hnot⟩ := hrun
  have heq := hall roomOptions roomBroker labels s hrun hidle "a"
  rw [hhas, hnot] at heq
  cases heq

end Skiff.WebSocket
