import Skiff.WebSocket.BrokerTables
import Skiff.WebSocket.IndexTerminals

/-!
# Runs of the index with its broker

Along every run, whatever steps of its calls interleave, the tables of the index say what they
should. A generation at the broker has one owner, an attach under way, an attached connection or a
finalizer that has still to close it, as long as no attach finds its connection reserved: such an
attach fails in the index and leaves its generation at the broker.
-/

namespace Skiff.WebSocket

open Session (RuntimeSessionEpoch)
open List

/-! ## Generations at the broker -/

namespace BrokerInner

variable {answers : BrokerAnswers} {inner : BrokerInner}

def openFlag (inner : BrokerInner) (connectionId : String) : Option Bool :=
  (inner.generations.get? connectionId).map (·.isOpen)

/-- Every generation that the broker has is open. -/
def AllOpen (inner : BrokerInner) : Prop := ∀ c, inner.openFlag c ≠ some false

theorem openFlag_updateGeneration {f : GenerationState → GenerationState}
    (h : ∀ state, (f state).isOpen = state.isOpen) (c j : String) :
    (inner.updateGeneration c f).openFlag j = inner.openFlag j := by
  rw [openFlag, updateGeneration_get?]
  split
  case isTrue hj =>
    subst hj
    rw [openFlag, Option.map_map]
    exact congrArg (Option.map · _) (funext h)
  case isFalse => rfl

theorem openFlag_detachOutbound (entry : OutboundEntry) (j : String) :
    (inner.detachOutbound answers entry).openFlag j = inner.openFlag j := by
  rw [detachOutbound]
  split
  · apply openFlag_updateGeneration
    intro state
    rfl
  · rfl

theorem openFlag_detachInbound (entry : InboundEntry) (j : String) :
    (inner.detachInbound answers entry).openFlag j = inner.openFlag j := by
  rw [detachInbound]
  split
  · apply openFlag_updateGeneration
    intro state
    rfl
  · rfl

theorem openFlag_detachAllOutbound (entries : List OutboundEntry) (j : String) :
    (inner.detachAllOutbound answers entries).openFlag j = inner.openFlag j := by
  induction entries generalizing inner with
  | nil => rfl
  | cons entry rest ih => exact ih.trans (openFlag_detachOutbound entry j)

theorem openFlag_detachAllInbound (entries : List InboundEntry) (j : String) :
    (inner.detachAllInbound answers entries).openFlag j = inner.openFlag j := by
  induction entries generalizing inner with
  | nil => rfl
  | cons entry rest ih => exact ih.trans (openFlag_detachInbound entry j)

/-- An open generation is taken out, and the others are kept. -/
theorem AllOpen.closeGeneration (h : inner.AllOpen) (connectionId : String) (outcome : Bool)
    (j : String) :
    (inner.closeGeneration answers connectionId outcome).1.openFlag j =
      if j = connectionId then none else inner.openFlag j := by
  rw [BrokerInner.closeGeneration]
  split
  case h_1 hnone =>
    split
    case isTrue hj => rw [hj, openFlag, hnone]; rfl
    case isFalse => rfl
  case h_2 state hstate =>
    have hopen : state.isOpen = true := by
      have hflag := h connectionId
      rw [openFlag, hstate, Option.map_some] at hflag
      simpa using hflag
    rw [hopen]
    by_cases hj : j = connectionId
    · subst hj
      rw [if_pos rfl, openFlag]
      exact congrArg (Option.map _) (OrdMap.get?_erase_self _ _)
    rw [if_neg hj, openFlag]
    refine (congrArg (Option.map _) (OrdMap.get?_erase_of_ne _ hj)).trans ?_
    refine (openFlag_detachAllInbound _ j).trans ((openFlag_detachAllOutbound _ j).trans ?_)
    rw [openFlag, updateGeneration_get?, if_neg hj, openFlag]

variable (inner) in
theorem attachGeneration_cases (handle : BrokerConnectionGeneration) (writer generation : Nat) :
    (∃ error, inner.attachGeneration handle writer generation = (inner, .error error)) ∨
    (inner.openFlag handle.connectionId = none ∧
      ∃ after token, inner.attachGeneration handle writer generation = (after, .ok token) ∧
        ∀ j, after.openFlag j =
          if j = handle.connectionId then some true else inner.openFlag j) := by
  unfold BrokerInner.attachGeneration
  split
  case isTrue => exact .inl ⟨_, rfl⟩
  case isFalse hnew =>
    refine .inr ⟨?_, _, _, rfl, fun j => ?_⟩
    · rw [openFlag]
      cases hget : inner.generations.get? handle.connectionId with
      | none => rfl
      | some state => exact absurd (OrdMap.contains_iff.mpr ⟨state, hget⟩) hnew
    rw [openFlag, OrdMap.get?_insert]
    split <;> rfl

end BrokerInner

/-! ## What a run says -/

def admittedIn (labels : List GatewayLabel) : List String := labels.flatMap (·.admitted)

def reservedIn (labels : List GatewayLabel) : List String := labels.flatMap (·.reserved)

def endedIn (labels : List GatewayLabel) : List (FinalizerRecord Nat) := labels.flatMap (·.ended)

/-- A step that admits for the key, if it does, with this limit and without a rank. -/
def GatewayLabel.Unranked (key : String) (limit : Nat) (label : GatewayLabel) : Prop :=
  ∀ call, label.call = .index call → IndexInner.Unranked key limit call

/-- What the tables of the index say after a run: the order of a key has its live admitted
connections, once each and in the order of their admission; a runtime has the connections attached
to it; the connections are within the limit; every reservation of an id but that of a live
connection has been ended once, the last with the terminal on record; and a limit that all
admissions for a key have, without ranks, is the limit of its live connections. -/
structure IndexLaw (options : ClientConnectionIndexOptions) (labels : List GatewayLabel)
    (index : IndexInner Nat) : Prop where
  order : ∀ key, index.orderOf key = (admittedIn labels).dedup.filter (index.admittedFor key)
  listed : ∀ {key id}, index.admittedFor key id = true → id ∈ index.orderOf key
  pinned : ∀ runtime id, index.pinnedTo runtime id = index.attachedTo runtime id
  limit : index.connectionsById.size ≤ options.connectionLimit
  terminals : ∀ id, (reservedIn labels).count id = endings (endedIn labels) id + index.liveCount id
  recorded : ∀ id, index.terminalsById.get? id = lastEnding (endedIn labels) id
  unranked : ∀ {key limit}, (∀ label ∈ labels, label.Unranked key limit) →
    ∀ ids : List String, ids.Nodup → (∀ id ∈ ids, index.admittedFor key id = true) →
      ids.length ≤ limit

/-! ## The tables along a run -/

section

variable {options : ClientConnectionIndexOptions} {brokerOptions : WebSocketRequestBrokerOptions}
  {s t : Gateway} {label : GatewayLabel} {labels : List GatewayLabel}

/-- A step changes the index by a call, or not at all. -/
theorem GatewayStep.index_cases (h : GatewayStep options s label t) :
    (label.reserved = [] ∧ label.admitted = [] ∧ label.ended = [] ∧
      (t.index = s.index ∨ ∃ id generation runtime writer,
        t.index = (s.index.attach id generation runtime writer).2)) ∨
    ∃ call, label.call = .index call ∧
      (∀ id generation runtime writer, call ≠ .attach id generation runtime writer) ∧
      t.index = s.index.apply options call ∧ label.reserved = s.index.reserved options call ∧
      label.admitted = s.index.admitted options call ∧
      label.ended = s.index.ended options call := by
  cases h with
  | index call single => exact .inr ⟨call, rfl, single, rfl, rfl, rfl, rfl⟩
  | attachGeneration id generation display runtime writer connection =>
    refine .inl ⟨rfl, rfl, rfl, .inl ?_⟩
    rw [Gateway.attachGeneration]
    split
    · rfl
    split <;> rfl
  | attachIndexed answers waiting => exact .inl ⟨rfl, rfl, rfl, .inr ⟨_, _, _, _, rfl⟩⟩
  | startFinalizer answers waiting =>
    refine .inl ⟨rfl, rfl, rfl, .inl ?_⟩
    rw [Gateway.startFinalizer]
    split <;> rfl

theorem GatewayStep.sound {past : List String} (h : GatewayStep options s label t)
    (hs : s.index.Sound options past) : t.index.Sound options (past ++ label.admitted) := by
  obtain ⟨-, hadmitted, -, heq | ⟨id, generation, runtime, writer, heq⟩⟩ |
    ⟨call, -, -, heq, -, hadmitted, -⟩ := h.index_cases
  · rw [hadmitted, heq, append_nil]
    exact hs
  · rw [hadmitted, heq, append_nil]
    exact hs.attach id generation runtime writer
  rw [hadmitted, heq]
  exact hs.apply call

theorem sound_of_run (h : Run (GatewayStep options) (.new brokerOptions) labels s) :
    s.index.Sound options (admittedIn labels) := by
  refine Run.history (P := fun labels s => s.index.Sound options (admittedIn labels)) .new ?_ h
  intro labels s label t _ hs hstep
  rw [admittedIn, flatMap_append, flatMap_singleton]
  exact hstep.sound hs

/-- The ends of a run account for its reservations, and the records for the ends. -/
structure Accounted (labels : List GatewayLabel) (index : IndexInner Nat) : Prop where
  terminals : ∀ id, (reservedIn labels).count id = endings (endedIn labels) id + index.liveCount id
  recorded : ∀ id, index.terminalsById.get? id = lastEnding (endedIn labels) id

theorem attach_finishes {inner : IndexInner Nat} (id : String) (generation : Nat)
    (runtime : RuntimeSessionEpoch) (writer : Nat) :
    (∀ j, (inner.attach id generation runtime writer).2.liveCount j = inner.liveCount j) ∧
      (inner.attach id generation runtime writer).2.terminalsById = inner.terminalsById := by
  rw [IndexInner.attach]
  split
  · exact ⟨fun _ => rfl, rfl⟩
  case h_2 record hget =>
    split
    · exact ⟨fun _ => rfl, rfl⟩
    refine ⟨fun j => ?_, rfl⟩
    rw [IndexInner.liveCount, IndexInner.liveCount, OrdMap.contains, OrdMap.contains,
      OrdMap.get?_insert]
    split
    case isTrue hj => simp [hj, hget]
    case isFalse => rfl

theorem Accounted.step {past : List String} (h : GatewayStep options s label t)
    (hsound : s.index.Sound options past) (hs : Accounted labels s.index) :
    Accounted (labels ++ [label]) t.index := by
  have hreservations : reservedIn (labels ++ [label]) = reservedIn labels ++ label.reserved := by
    rw [reservedIn, flatMap_append, flatMap_singleton, reservedIn]
  have hterminals : endedIn (labels ++ [label]) = endedIn labels ++ label.ended := by
    rw [endedIn, flatMap_append, flatMap_singleton, endedIn]
  have hplain : label.reserved = [] → label.ended = [] →
      (∀ j, t.index.liveCount j = s.index.liveCount j) →
      t.index.terminalsById = s.index.terminalsById → Accounted (labels ++ [label]) t.index := by
    intro hreserved hended hlive hrecorded
    rw [hreserved, append_nil] at hreservations
    rw [hended, append_nil] at hterminals
    refine ⟨fun j => ?_, fun j => ?_⟩
    · rw [hreservations, hterminals, hlive]
      exact hs.terminals j
    rw [hterminals, hrecorded]
    exact hs.recorded j
  obtain ⟨hreserved, -, hended, heq | ⟨id, generation, runtime, writer, heq⟩⟩ |
    ⟨call, -, single, heq, hreserved, -, hended⟩ := h.index_cases
  · exact hplain hreserved hended (fun j => by rw [heq]) (by rw [heq])
  · obtain ⟨hlive, hrecorded⟩ := @attach_finishes s.index id generation runtime writer
    exact hplain hreserved hended (fun j => by rw [heq, hlive]) (by rw [heq, hrecorded])
  have haccounts := hsound.accounts single
  refine ⟨fun j => ?_, fun j => ?_⟩
  · have hlive := haccounts.live j
    have hbefore := hs.terminals j
    rw [hreservations, hterminals, hreserved, hended, heq, count_append, endings_append]
    omega
  · rw [hterminals, hended, heq, haccounts.recorded, lastEnding_append, hs.recorded]

section

variable (h : Run (GatewayStep options) (.new brokerOptions) labels s)
include h

theorem accounted_of_run : Accounted labels s.index := by
  refine Run.history (P := fun labels s => Accounted labels s.index)
    ⟨fun _ => rfl, fun _ => rfl⟩ ?_ h
  intro labels s label t hrun hs hstep
  exact hs.step hstep (sound_of_run hrun)

theorem length_of_run {key : String}
    {limit : Nat} (hlabels : ∀ label ∈ labels, label.Unranked key limit) :
    (s.index.orderOf key).length ≤ limit := by
  refine Run.history (P := fun labels s => (∀ label ∈ labels, label.Unranked key limit) →
    (s.index.orderOf key).length ≤ limit) ?_ ?_ h hlabels
  · intro _
    exact Nat.zero_le _
  intro labels s label t hrun hs hstep hall
  have hbefore := hs fun other hother => hall other (mem_append_left _ hother)
  have hlabel := hall label (mem_append_right _ (.head _))
  obtain ⟨-, -, -, heq | ⟨id, generation, runtime, writer, heq⟩⟩ | ⟨call, hcall, -, heq, -⟩ :=
    hstep.index_cases
  · rw [heq]
    exact hbefore
  · have hattach : ((s.index.apply options (.attach id generation runtime writer)).orderOf
        key).length ≤ limit := (sound_of_run hrun).length_apply trivial hbefore
    rw [heq]
    exact hattach
  rw [heq]
  exact (sound_of_run hrun).length_apply (hlabel call hcall) hbefore

theorem indexLaw_of_run : IndexLaw options labels s.index := by
  have hsound := sound_of_run h
  have haccounted := accounted_of_run h
  have hlisted : ∀ {key id}, s.index.admittedFor key id = true → id ∈ s.index.orderOf key := by
    intro key id hadmitted
    rw [hsound.order, mem_filter, mem_dedup]
    exact ⟨hsound.listed hadmitted, hadmitted⟩
  refine ⟨hsound.order, hlisted, hsound.pinned, hsound.limit, haccounted.terminals,
    haccounted.recorded, ?_⟩
  intro key limit hlabels ids hnodup hids
  have hsubset : ids ⊆ s.index.orderOf key := fun id hid => hlisted (hids id hid)
  exact (hnodup.subperm hsubset).length_le.trans (length_of_run h hlabels)

end

end

end Skiff.WebSocket
