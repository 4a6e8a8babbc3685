import Skiff.Session.Directory

/-!
# Runs of the session directory

Reconnects and close barriers of several epochs of one replica may overlap in any order.
In every state of a run the current epoch of a replica has a record of that replica and
the candidates are current; an epoch that was cancelled stays out of the candidates.
-/

namespace Skiff.Session

open List Run

namespace Directory

variable {installed : Finset ConsumerKind} {directory s t : Directory}
variable {event : DirectoryEvent} {events : List DirectoryEvent}
variable {session : RuntimeSessionEpoch} {record : SessionRecord}

/-! ## The laws of a state -/

/-- The current epoch of a replica is one of its own and has a record. -/
def CurrentExists (directory : Directory) : Prop :=
  ∀ replicaId session, directory.current replicaId = some session →
    session.replicaId = replicaId ∧ ∃ record, directory.record session = some record

/-- Revisions were given out before, and to one record each. -/
structure RevisionsDistinct (directory : Directory) : Prop where
  bound : ∀ session record, directory.record session = some record →
    record.registrationRevision ≤ directory.nextRevision
  distinct : ∀ session session' record record', directory.record session = some record →
    directory.record session' = some record' →
    record.registrationRevision = record'.registrationRevision → session = session'

theorem currentExists_apply (h : CurrentExists directory) (event : DirectoryEvent) :
    CurrentExists (directory.apply event) := by
  intro replicaId session hcurrent
  cases currentEffect directory event replicaId fun session hsession =>
    (h _ session hsession).1 with
  | removed _ hnone =>
    rw [hnone] at hcurrent
    cases hcurrent
  | @published published permits hpublishes hreplica hsome =>
    rw [hsome] at hcurrent
    cases hcurrent
    refine ⟨hreplica, ?_⟩
    rw [apply_publishPending_of_publishes hpublishes, record_published, if_pos rfl]
    exact ⟨_, rfl⟩
  | kept hkept hremoved =>
    rw [hkept] at hcurrent
    obtain ⟨hreplica, record, hrecord⟩ := h replicaId session hcurrent
    refine ⟨hreplica, ?_⟩
    cases effect directory event session with
    | kept hsame => exact ⟨record, hsame.trans hrecord⟩
    | published _ hafter | replaced _ _ _ _ hafter | registered _ _ hafter | closed _ hafter
    | acked _ hafter | refreshed _ hafter => exact ⟨_, hafter⟩
    | removed _ _ hnone =>
      -- the last acknowledgement of a current epoch takes the current entry with it
      have hgone := hremoved session _ rfl hcurrent hnone
      rw [hrecord] at hgone
      cases hgone

theorem nextRevision_le (directory : Directory) (event : DirectoryEvent) :
    directory.nextRevision ≤ (directory.apply event).nextRevision := by
  cases event with
  | publishPending session permits =>
    by_cases hpublishes : directory.Publishes session permits
    · rw [apply_publishPending_of_publishes hpublishes]
      exact Nat.le_succ _
    · rw [apply_publishPending_of_not_publishes hpublishes]
  | markRegistered session =>
    rw [apply]
    unfold markRegistered
    split
    · exact le_rfl
    split
    · exact le_rfl
    · exact (nextRevision_updateRecord _).ge
  | beginClose session =>
    rw [apply]
    unfold beginClose
    split
    · exact le_rfl
    · exact (nextRevision_updateRecord _).ge
  | refreshFacts session facts => exact (nextRevision_updateRecord _).ge
  | ackClose session consumer =>
    rw [apply]
    unfold ackClose
    split
    · exact le_rfl
    simp only
    split <;> exact (nextRevision_updateRecord _).ge

/-- A record keeps its revision, its permits and its acknowledgements, or is new. -/
theorem record_before {record' : SessionRecord}
    (h : (directory.apply event).record session = some record') :
    (∃ record, directory.record session = some record ∧
      record'.registrationRevision = record.registrationRevision ∧
      record'.consumerPermits = record.consumerPermits ∧
      (record.cancelled = true → record'.cancelled = true) ∧
      ∀ consumer ∈ record'.barrierAcked, consumer ∈ record.barrierAcked ∨
        event = .ackClose session consumer) ∨
    ∃ permits, event = .publishPending session permits ∧ directory.Publishes session permits ∧
      record' = .new (directory.nextRevision + 1) permits := by
  cases effect directory event session with
  | kept hsame =>
    rw [hsame] at h
    exact .inl ⟨record', h, rfl, rfl, id, fun _ hmem => .inl hmem⟩
  | published hpublishes hafter =>
    rw [hafter] at h
    cases h
    exact .inr ⟨_, rfl, hpublishes, rfl⟩
  | replaced _ _ _ hbefore hafter | closed hbefore hafter =>
    rw [hafter] at h
    cases h
    exact .inl ⟨_, hbefore, rfl, rfl, fun _ => rfl, fun _ hmem => .inl hmem⟩
  | registered hbefore _ hafter | refreshed hbefore hafter =>
    rw [hafter] at h
    cases h
    exact .inl ⟨_, hbefore, rfl, rfl, id, fun _ hmem => .inl hmem⟩
  | acked hbefore hafter =>
    rw [hafter] at h
    cases h
    refine .inl ⟨_, hbefore, rfl, rfl, id, fun consumer hmem => ?_⟩
    obtain rfl | hmem := Finset.mem_insert.mp hmem
    · exact .inr rfl
    · exact .inl hmem
  | removed _ _ hnone =>
    rw [hnone] at h
    cases h

theorem revisionsDistinct_apply (h : RevisionsDistinct directory) (event : DirectoryEvent) :
    RevisionsDistinct (directory.apply event) := by
  have hnext := nextRevision_le directory event
  have hnew : ∀ session permits, event = .publishPending session permits →
      directory.Publishes session permits →
      (directory.apply event).nextRevision = directory.nextRevision + 1 := by
    rintro session permits rfl hpublishes
    rw [apply_publishPending_of_publishes hpublishes]
    rfl
  constructor
  · intro session record' hrecord'
    obtain ⟨record, hrecord, hrevision, -⟩ | ⟨permits, hevent, hpublishes, rfl⟩ :=
      record_before hrecord'
    · have := h.bound session record hrecord
      omega
    rw [hnew session permits hevent hpublishes]
    exact le_rfl
  intro session session' record record' hrecord hrecord' hequal
  obtain ⟨old, hold, hrevision, -⟩ | ⟨permits, hevent, hpublishes, rfl⟩ := record_before hrecord
  · have hbound := h.bound session old hold
    obtain ⟨old', hold', hrevision', -⟩ | ⟨permits', hevent', hpublishes', rfl⟩ :=
      record_before hrecord'
    · exact h.distinct session session' old old' hold hold' (by omega)
    have : (SessionRecord.new (directory.nextRevision + 1) permits').registrationRevision =
        directory.nextRevision + 1 := rfl
    omega
  obtain ⟨old', hold', hrevision', -⟩ | ⟨permits', hevent', -⟩ := record_before hrecord'
  · have hbound := h.bound session' old' hold'
    have : (SessionRecord.new (directory.nextRevision + 1) permits).registrationRevision =
        directory.nextRevision + 1 := rfl
    omega
  rw [hevent] at hevent'
  cases hevent'
  rfl

theorem currentExists_run (hrun : Run Step (.new installed) events directory) :
    CurrentExists directory := by
  refine invariant ?_ hrun ?_
  · rintro s event t hs rfl
    exact currentExists_apply hs event
  intro replicaId session hcurrent
  cases hcurrent

theorem revisionsDistinct_run (hrun : Run Step (.new installed) events directory) :
    RevisionsDistinct directory := by
  refine invariant ?_ hrun ⟨?_, ?_⟩
  · rintro s event t hs rfl
    exact revisionsDistinct_apply hs event
  · intro session record hrecord
    cases hrecord
  intro session session' record record' hrecord
  cases hrecord

/-! ## Candidates -/

theorem mem_candidates_iff : session ∈ directory.candidates ↔
    directory.current session.replicaId = some session ∧
      ∃ record, directory.record session = some record ∧ record.routable = true ∧
        record.cancelled = false := by
  unfold candidates
  simp only [mem_map, mem_filter, Bool.and_eq_true, Bool.not_eq_true',
    decide_eq_true_eq, Prod.exists]
  constructor
  · rintro ⟨epoch, record, ⟨hmem, ⟨hroutable, hcancelled⟩, hcurrent⟩, rfl⟩
    exact ⟨hcurrent, record, OrdMap.get?_eq_some_iff.mpr hmem, hroutable, hcancelled⟩
  rintro ⟨hcurrent, record, hrecord, hroutable, hcancelled⟩
  exact ⟨session, record, ⟨OrdMap.get?_eq_some_iff.mp hrecord, ⟨hroutable, hcancelled⟩,
    hcurrent⟩, rfl⟩

/-- Two candidates of one replica are both its current epoch. -/
theorem candidates_nodup (directory : Directory) :
    (directory.candidates.map RuntimeSessionEpoch.replicaId).Nodup := by
  have hepochs : directory.candidates.Nodup := by
    refine List.Sublist.nodup ?_ directory.sessionsByEpoch.nodup_keys
    exact filter_sublist.map Prod.fst
  refine List.Nodup.map_on ?_ hepochs
  intro a ha b hb hreplica
  obtain ⟨hcurrent, -⟩ := mem_candidates_iff.mp ha
  obtain ⟨hcurrent', -⟩ := mem_candidates_iff.mp hb
  rw [hreplica, hcurrent'] at hcurrent
  exact (Option.some.inj hcurrent).symm

/-! ## Cancelled epochs -/

/-- The call cancels `session`, by closing it or by replacing it. -/
def Cancels (directory : Directory) (session : RuntimeSessionEpoch) : DirectoryEvent → Prop
  | .beginClose closing => closing = session ∧ directory.record session ≠ none
  | .publishPending published permits =>
    directory.Publishes published permits ∧
      directory.current published.replicaId = some session ∧ session ≠ published
  | _ => False

/-- The epoch has no record or a cancelled one. -/
def Dead (directory : Directory) (session : RuntimeSessionEpoch) : Prop :=
  ∀ record, directory.record session = some record → record.cancelled = true

theorem Dead.apply (h : Dead directory session)
    (hfresh : ∀ permits, event = .publishPending session permits →
      ¬ directory.Publishes session permits) : Dead (directory.apply event) session := by
  intro record' hrecord'
  obtain ⟨record, hrecord, -, -, hcancelled, -⟩ | ⟨permits, hevent, hpublishes, -⟩ :=
    record_before hrecord'
  · exact hcancelled (h record hrecord)
  · exact absurd hpublishes (hfresh permits hevent)

theorem Dead.run (hrun : Run Step s events t) (h : Dead s session)
    (hfresh : ∀ before permits after u, events = before ++
      .publishPending session permits :: after →
      Run Step s before u → ¬ u.Publishes session permits) : Dead t session := by
  induction hrun with
  | nil => exact h
  | @cons s _ u event rest hstep _ ih =>
    obtain rfl := hstep
    refine ih (h.apply ?_) ?_
    · rintro permits rfl
      exact hfresh [] permits rest s rfl (.nil s)
    rintro before permits after v rfl hbefore
    exact hfresh (event :: before) permits after v rfl (.cons rfl hbefore)

theorem Dead.not_candidate (h : Dead directory session) : session ∉ directory.candidates := by
  intro hmem
  obtain ⟨-, record, hrecord, -, hcancelled⟩ := mem_candidates_iff.mp hmem
  rw [h record hrecord] at hcancelled
  cases hcancelled

theorem Dead.not_registered (h : Dead directory session) :
    (directory.markRegistered session).1 = false := by
  unfold markRegistered
  split
  · rfl
  rename_i record hrecord
  rw [if_pos (h record hrecord)]

theorem dead_of_cancels (h : CurrentExists directory) (hcancels : Cancels directory session event) :
    Dead (directory.apply event) session ∧ ∃ record, directory.record session = some record := by
  cases event with
  | beginClose closing =>
    obtain ⟨rfl, hrecord⟩ := hcancels
    obtain ⟨record, hrecord⟩ := Option.ne_none_iff_exists'.mp hrecord
    refine ⟨?_, record, hrecord⟩
    intro record' hrecord'
    rw [Directory.apply, beginClose, hrecord] at hrecord'
    change (directory.updateRecord closing _).record closing = _ at hrecord'
    rw [record_updateRecord, if_pos rfl, hrecord] at hrecord'
    cases hrecord'
    rfl
  | publishPending published permits =>
    obtain ⟨hpublishes, hcurrent, hne⟩ := hcancels
    obtain ⟨-, record, hrecord⟩ := h _ session hcurrent
    refine ⟨?_, record, hrecord⟩
    intro record' hrecord'
    have hreplaced : directory.replaced published = some session := by
      simp [replaced, hcurrent, Option.filter, hne]
    rw [apply_publishPending_of_publishes hpublishes, record_published, if_neg hne,
      cancelReplaced, hreplaced] at hrecord'
    change (directory.updateRecord session _).record session = _ at hrecord'
    rw [record_updateRecord, if_pos rfl, hrecord] at hrecord'
    cases hrecord'
    rfl
  | _ => exact hcancels.elim

/-! ## The history of a record -/

/-- A record was published, and its acknowledgements were made since. -/
theorem history_of_record (hrun : Run Step (.new installed) events directory) :
    ∀ session record, directory.record session = some record →
      (∃ before permits after s, events = before ++ .publishPending session permits :: after ∧
        Run Step (.new installed) before s ∧ s.Publishes session permits) ∧
      ∀ consumer ∈ record.barrierAcked, .ackClose session consumer ∈ events := by
  refine history (P := fun events directory => ∀ session record,
    directory.record session = some record →
      (∃ before permits after s, events = before ++ .publishPending session permits :: after ∧
        Run Step (.new installed) before s ∧ s.Publishes session permits) ∧
      ∀ consumer ∈ record.barrierAcked, .ackClose session consumer ∈ events) ?_ ?_ hrun
  · intro session record hrecord
    cases hrecord
  rintro events s event t hrun ih rfl session record' hrecord'
  obtain ⟨record, hrecord, -, -, -, hacked⟩ | ⟨permits, rfl, hpublishes, rfl⟩ :=
    record_before hrecord'
  · obtain ⟨⟨before, permits, after, u, rfl, hu, hpublishes⟩, hold⟩ := ih session record hrecord
    refine ⟨⟨before, permits, after ++ [event], u, by simp, hu, hpublishes⟩, ?_⟩
    intro consumer hmem
    obtain hmem | rfl := hacked consumer hmem
    · exact mem_append_left _ (hold consumer hmem)
    · exact mem_append_right _ (.head _)
  refine ⟨⟨events, permits, [], s, rfl, hrun, hpublishes⟩, ?_⟩
  intro consumer hmem
  simp [SessionRecord.new] at hmem

/-! ## The laws of a run -/

/-- An epoch is accepted at most once: a connection generation is given out once, and its
session is published when the connection binds. -/
def EpochsOnce (installed : Finset ConsumerKind) (events : List DirectoryEvent) : Prop :=
  ∀ before session permits between permits' after s t,
    events = before ++ .publishPending session permits ::
      (between ++ .publishPending session permits' :: after) →
    Run Step (.new installed) before s →
    Run Step s (.publishPending session permits :: between) t →
    s.Publishes session permits → ¬ t.Publishes session permits'

/-- The epoch a call publishes. -/
def publishedEpoch? : DirectoryEvent → Option RuntimeSessionEpoch
  | .publishPending session _ => some session
  | _ => none

/-- Distinct epochs are enough, which is what the generation counter of the router gives. -/
theorem epochsOnce_of_nodup (h : (events.filterMap publishedEpoch?).Nodup) :
    EpochsOnce installed events := by
  rintro before session permits between permits' after s t rfl _ _ _ _
  have hfirst : publishedEpoch? (.publishPending session permits) = some session := rfl
  have hsecond : publishedEpoch? (.publishPending session permits') = some session := rfl
  rw [filterMap_append, filterMap_cons_some hfirst, nodup_append, nodup_cons] at h
  refine h.2.1.1 (mem_filterMap.mpr ⟨_, ?_, hsecond⟩)
  exact mem_append_right _ (.head _)

/-- What is current exists, candidates are unique and current, revisions are distinct. -/
structure Sound (directory : Directory) : Prop where
  current : directory.CurrentExists
  unique : (directory.candidates.map RuntimeSessionEpoch.replicaId).Nodup
  candidates : ∀ session ∈ directory.candidates,
    directory.current session.replicaId = some session ∧
      ∃ record, directory.record session = some record ∧ record.routable = true ∧
        record.cancelled = false
  revisions : ∀ session session' record record', directory.record session = some record →
    directory.record session' = some record' →
    record.registrationRevision = record'.registrationRevision → session = session'

/-- A cancelled epoch is never a candidate again and cannot be registered. -/
def StaysCancelled (installed : Finset ConsumerKind) (events : List DirectoryEvent) : Prop :=
  ∀ before event after session s t, events = before ++ event :: after →
    Run Step (.new installed) before s → Cancels s session event →
    Run Step (s.apply event) after t →
    session ∉ t.candidates ∧ (t.markRegistered session).1 = false

/-- The close barrier of one epoch leaves every other record and current entry alone. -/
def ClosesItself (directory : Directory) : Prop :=
  ∀ session consumer other, other ≠ session →
    (directory.ackClose session consumer).2.record other = directory.record other ∧
    ∀ replicaId, directory.current replicaId = some other →
      (directory.ackClose session consumer).2.current replicaId = some other

/-- Later publications get higher revisions. -/
def RevisionsIncrease (installed : Finset ConsumerKind) (events : List DirectoryEvent) : Prop :=
  ∀ before first permits between second permits' after s t reply reply' u u',
    events = before ++ .publishPending first permits ::
      (between ++ .publishPending second permits' :: after) →
    Run Step (.new installed) before s →
    Run Step s (.publishPending first permits :: between) t →
    s.publishPending first permits = .ok (reply, u) →
    t.publishPending second permits' = .ok (reply', u') → reply.revision < reply'.revision

/-- A record goes only when every permit on it has acknowledged. -/
def RemovedWhenAcked (installed : Finset ConsumerKind) (events : List DirectoryEvent) : Prop :=
  ∀ before event after s session record, events = before ++ event :: after →
    Run Step (.new installed) before s → s.record session = some record →
    (s.apply event).record session = none →
    ∀ permit ∈ record.consumerPermits, .ackClose session permit ∈ before ++ [event]

theorem sound_run (hrun : Run Step (.new installed) events directory) : directory.Sound where
  current := currentExists_run hrun
  unique := candidates_nodup directory
  candidates _ hmem := mem_candidates_iff.mp hmem
  revisions := (revisionsDistinct_run hrun).distinct

theorem staysCancelled (honce : EpochsOnce installed events) : StaysCancelled installed events := by
  rintro before event after session s t rfl hbefore hcancels hafter
  obtain ⟨hdead, record, hrecord⟩ := dead_of_cancels (currentExists_run hbefore) hcancels
  obtain ⟨⟨earlier, permits, later, u, rfl, hu, hpublishes⟩, -⟩ :=
    history_of_record hbefore session record hrecord
  have hlast : Dead t session := by
    refine hdead.run hafter ?_
    rintro part permits' rest v rfl hpart
    refine honce earlier session permits (later ++ event :: part) permits' rest u v (by simp) hu ?_
      hpublishes
    obtain ⟨u', hu', hlater⟩ := append_iff.mp hbefore
    obtain rfl := functional step_functional hu hu'
    obtain ⟨w, hw, hlater⟩ := cons_iff.mp hlater
    exact .cons hw (hlater.trans (.cons rfl hpart))
  exact ⟨hlast.not_candidate, hlast.not_registered⟩

theorem closesItself (h : CurrentExists directory) : ClosesItself directory := by
  intro session consumer other hne
  constructor
  · cases effect directory (.ackClose session consumer) other with
    | kept hsame => exact hsame
    | acked | removed => exact absurd rfl hne
  intro replicaId hcurrent
  cases currentEffect directory (.ackClose session consumer) replicaId
    fun found hfound => (h _ found hfound).1 with
  | kept hkept _ => exact hkept.trans hcurrent
  | removed hequal _ =>
    rw [hcurrent] at hequal
    exact absurd (Option.some.inj hequal) hne

theorem revisionsIncrease (events : List DirectoryEvent) : RevisionsIncrease installed events := by
  intro before first permits between second permits' after s t reply reply' u u' _ _ hbetween
    hfirst hsecond
  have hpublishes := publishes_of_publishPending hfirst
  rw [publishPending_of_publishes hpublishes] at hfirst
  rw [publishPending_of_publishes (publishes_of_publishPending hsecond)] at hsecond
  cases hfirst
  cases hsecond
  obtain ⟨_, rfl, hbetween⟩ := cons_iff.mp hbetween
  have hstart : (s.apply (.publishPending first permits)).nextRevision = s.nextRevision + 1 := by
    rw [apply_publishPending_of_publishes hpublishes]
    rfl
  have hle : s.nextRevision + 1 ≤ t.nextRevision := by
    refine invariant (P := fun r => s.nextRevision + 1 ≤ r.nextRevision) ?_ hbetween hstart.ge
    rintro r event r' hr rfl
    exact hr.trans (nextRevision_le r event)
  change s.nextRevision + 1 < t.nextRevision + 1
  omega

theorem removedWhenAcked (events : List DirectoryEvent) : RemovedWhenAcked installed events := by
  rintro before event after s session record _ hbefore hrecord hgone permit hpermit
  have hacked := (history_of_record hbefore session record hrecord).2
  cases effect s event session with
  | removed hfound hall _ =>
    rw [hrecord] at hfound
    cases hfound
    obtain rfl | hmem := Finset.mem_insert.mp (hall permit hpermit)
    · exact mem_append_right _ (.head _)
    · exact mem_append_left _ (hacked permit hmem)
  | kept hsame =>
    rw [hsame, hrecord] at hgone
    cases hgone
  | published _ hafter | replaced _ _ _ _ hafter | registered _ _ hafter | closed _ hafter
  | acked _ hafter | refreshed _ hafter =>
    rw [hafter] at hgone
    cases hgone

/-- A replica reconnects before its first session is registered: the late registration is
refused, the old barrier completes, and the new session is the candidate. -/
def reconnectEvents : List DirectoryEvent :=
  [ .publishPending ⟨"replica-1", 1⟩ [.healthLedger], .publishPending ⟨"replica-1", 2⟩ [],
    .markRegistered ⟨"replica-1", 1⟩, .markRegistered ⟨"replica-1", 2⟩,
    .ackClose ⟨"replica-1", 1⟩ .healthLedger ]

/-- The directory of a router with a health ledger after the reconnect. -/
def reconnected : Directory := reconnectEvents.foldl apply (.new {ConsumerKind.healthLedger})

theorem run_reconnected : Run Step (.new {ConsumerKind.healthLedger}) reconnectEvents reconnected :=
  of_foldl apply (.new {ConsumerKind.healthLedger}) reconnectEvents

/-- The first session closes, and its epoch is published and registered once more. -/
def republishEvents : List DirectoryEvent :=
  [ .ackClose ⟨"replica-1", 1⟩ .healthLedger, .publishPending ⟨"replica-1", 1⟩ [],
    .markRegistered ⟨"replica-1", 1⟩ ]

end Directory
end Skiff.Session
