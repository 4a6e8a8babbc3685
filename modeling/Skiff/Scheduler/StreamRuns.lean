import Skiff.Scheduler.Stream

/-!
# Runs of the bounded stream

Whatever the order of the calls: items arrive in the order in which they were taken over,
all of them unless the stream is cancelled; nothing but an end or a cancellation is
observed after a terminal event; and a parked side is woken once, by the first call that
has something for it.
-/

namespace Skiff.Scheduler

open StreamLabel List StreamAnswer Option

namespace StreamLabel

variable {T E W : Type} (label : StreamLabel T E W)

def deliveredItem : Option T :=
  match label.delivered with
  | some (.item item) => some item
  | _ => none

def deliveredError : Option E :=
  match label.delivered with
  | some (.error error) => some error
  | _ => none

/-- The error payload that the stream took over. -/
def acceptedError : Option E :=
  match label.call, label.answer with
  | .finishError error, .finished (.ok ()) => some error
  | _, _ => none

/-- A terminal event was delivered. -/
def Terminates : Prop := ∃ event, label.delivered = some event ∧ ∀ item, event ≠ .item item

/-- The signal that a `Pending` answer left with the stream. -/
def registered : Option W :=
  match label.call, label.answer with
  | .emit _ wake, .emitted .pending => some wake
  | .pollNext wake, .polled (some .pending) => some wake
  | _, _ => none

end StreamLabel

namespace Stream

variable {T E W : Type} {stream next s t : Stream T E W} {label : StreamLabel T E W}
variable {labels : List (StreamLabel T E W)}

def acceptedItems (labels : List (StreamLabel T E W)) : List T := labels.filterMap accepted

def deliveredItems (labels : List (StreamLabel T E W)) : List T := labels.filterMap deliveredItem

/-- The signals that wait for a wake. -/
def parkedSignals (stream : Stream T E W) : List W :=
  stream.consumerWaiter.toList ++ (stream.blockedEmit.map BlockedEmit.wake).toList

/-! ## The shape of the state -/

/-- One slot, a consumer that waits for nothing it could have, a blocked item only behind a
full buffer, and nothing left after the end. -/
structure Shaped (stream : Stream T E W) : Prop where
  capacity : stream.buffer.length ≤ streamBufferCapacity
  parked : stream.consumerWaiter ≠ none →
    stream.buffer = [] ∧ stream.blockedEmit = none ∧ stream.terminal = .opened
  blocked : stream.blockedEmit ≠ none → stream.buffer ≠ [] ∧ stream.terminal = .opened
  drained : stream.terminal = .cancelled ∨ stream.terminal = .exhausted → stream.inFlight = []

theorem shaped_opened : Shaped (opened : Stream T E W) where
  capacity := by simp [opened]
  parked := by simp [opened]
  blocked := by simp [opened]
  drained := by simp [opened]

theorem Same.shaped (h : Same stream next) (hs : stream.Shaped) : next.Shaped := by
  obtain ⟨hbuffer, hwaiter, hblocked, hterminal⟩ := h
  obtain ⟨hcapacity, hparked, hblock, hover⟩ := hs
  unfold inFlight at hover
  refine ⟨?_, ?_, ?_, ?_⟩
  · rw [hbuffer]
    exact hcapacity
  · rw [hwaiter, hbuffer, hblocked, hterminal]
    exact hparked
  · rw [hblocked, hbuffer, hterminal]
    exact hblock
  rw [inFlight, hterminal, hbuffer, hblocked]
  exact hover

theorem Same.inFlight (h : Same stream next) : next.inFlight = stream.inFlight := by
  rw [Stream.inFlight, Stream.inFlight, h.buffer, h.blocked]

theorem Same.parkedSignals (h : Same stream next) : next.parkedSignals = stream.parkedSignals := by
  rw [Stream.parkedSignals, Stream.parkedSignals, h.waiter, h.blocked]

theorem Same.available (h : Same stream next) : next.Available ↔ stream.Available := by
  rw [Available, Available, h.inFlight, h.terminal]

theorem Effect.shaped (h : Effect stream next label) (hs : stream.Shaped) : next.Shaped := by
  cases h with
  | silent hsame _ => exact hsame.shaped hs
  | handed item wake hopen hblocked hwaiter _ _ _ _ hsame =>
    have hempty := (hs.parked (by simp [hwaiter])).1
    exact hsame.shaped ⟨by simp [hempty, streamBufferCapacity], by simp, by simp [hblocked],
      by simp [hopen]⟩
  | buffered item hopen hblocked hwaiter hroom _ _ _ _ hsame =>
    refine hsame.shaped ⟨?_, by simp [hwaiter], by simp [hblocked], by simp [hopen]⟩
    rw [length_append]
    exact hroom
  | blocked item wake hopen hblocked hwaiter hfull _ _ _ hsame =>
    exact hsame.shaped ⟨hs.capacity, by simp [hwaiter], by simp [hfull, hopen], by simp [hopen]⟩
  | popped item rest hwaiter hbuffer _ _ _ _ hsame =>
    have hone := hs.capacity
    rw [hbuffer, length_cons] at hone
    have hrest : rest = [] := eq_nil_of_length_eq_zero (by
      unfold streamBufferCapacity at hone
      omega)
    have hover : stream.terminal = .cancelled ∨ stream.terminal = .exhausted → False := by
      intro hterminal
      have hflight := hs.drained hterminal
      simp [inFlight, hbuffer] at hflight
    refine hsame.shaped ⟨?_, by simp [hwaiter], by simp, fun hterminal => (hover hterminal).elim⟩
    rw [hrest]
    cases stream.blockedEmit <;> simp [streamBufferCapacity]
  | passed blocked _ hbuffer hblocked => exact absurd hbuffer (hs.blocked (by simp [hblocked])).1
  | observed event hwaiter hbuffer hblocked _ _ _ _ _ hsame =>
    exact hsame.shaped ⟨hs.capacity, by simp [hwaiter], by simp [hblocked],
      by simp [inFlight, hbuffer, hblocked]⟩
  | parked wake _ hbuffer hblocked hopen _ _ _ hsame =>
    exact hsame.shaped ⟨hs.capacity, by simp [hbuffer, hblocked, hopen], by simp [hblocked],
      by simp [hopen]⟩
  | finished terminal hblocked hopen hkind _ _ hsame =>
    refine hsame.shaped ⟨hs.capacity, by simp, by simp [hblocked], ?_⟩
    obtain ⟨-, rfl⟩ | ⟨error, -, rfl⟩ := hkind <;> simp
  | discarded _ _ _ _ hsame => exact hsame.shaped ⟨by simp, by simp, by simp, by simp [inFlight]⟩

theorem shaped_run (hrun : Run Step s labels t) (hs : s.Shaped) : t.Shaped := by
  refine Run.invariant ?_ hrun hs
  intro s label t hs hstep
  exact (step_effect hstep).shaped hs

/-! ## Items -/

/-- One call: what was delivered and what is on its way is what was on its way and what was
taken over, unless the call discards it. -/
theorem Effect.items (h : Effect stream next label) (hs : stream.Shaped) :
    (label.cancels = false ∧
      stream.inFlight ++ label.accepted.toList = label.deliveredItem.toList ++ next.inFlight) ∨
    (label.cancels = true ∧ label.accepted = none ∧ label.deliveredItem = none) := by
  cases h with
  | silent hsame hsilent =>
    refine .inl ⟨hsilent.cancels, ?_⟩
    simp [deliveredItem, hsilent.delivered, hsilent.accepted, hsame.inFlight]
  | handed item wake _ hblocked _ haccepted hdelivered hcancels _ hsame
  | buffered item _ hblocked _ _ haccepted hdelivered hcancels _ hsame =>
    refine .inl ⟨hcancels, ?_⟩
    rw [hsame.inFlight]
    simp [deliveredItem, hdelivered, haccepted, inFlight, hblocked]
  | blocked item wake _ hblocked _ _ hcall hanswer _ hsame =>
    refine .inl ⟨by simp [cancels, hanswer], ?_⟩
    rw [hsame.inFlight]
    simp [deliveredItem, delivered, accepted, hcall, hanswer, inFlight, hblocked]
  | popped item rest _ hbuffer haccepted hdelivered hcancels _ hsame =>
    refine .inl ⟨hcancels, ?_⟩
    rw [hsame.inFlight]
    simp [deliveredItem, hdelivered, haccepted, inFlight, hbuffer]
  | passed blocked _ hbuffer hblocked => exact absurd hbuffer (hs.blocked (by simp [hblocked])).1
  | observed event _ hbuffer hblocked hevent haccepted hdelivered hcancels _ hsame =>
    refine .inl ⟨hcancels, ?_⟩
    have hitem : label.deliveredItem = none := by
      rw [deliveredItem, hdelivered]
      obtain ⟨rfl, -⟩ | ⟨error, rfl, -⟩ | ⟨rfl, -⟩ := hevent <;> rfl
    rw [hsame.inFlight]
    simp [hitem, haccepted, inFlight, hbuffer, hblocked]
  | parked wake _ hbuffer hblocked _ hcall hanswer _ hsame =>
    refine .inl ⟨by simp [cancels, hanswer], ?_⟩
    rw [hsame.inFlight]
    simp [deliveredItem, delivered, accepted, hcall, hanswer, inFlight, hbuffer, hblocked]
  | finished terminal _ _ _ hanswer _ hsame =>
    refine .inl ⟨by simp [cancels, hanswer], ?_⟩
    rw [hsame.inFlight]
    simp [deliveredItem, delivered, accepted, hanswer, inFlight]
  | discarded haccepted hdelivered hcancels _ _ =>
    exact .inr ⟨hcancels, haccepted, by simp [deliveredItem, hdelivered]⟩

/-! ## After the end -/

/-- A terminal event was delivered or the stream was cancelled. -/
def Over (stream : Stream T E W) : Prop :=
  stream.terminal = .cancelled ∨ stream.terminal = .exhausted

/-- Nothing is taken over or delivered any more, ends and cancellations apart. -/
theorem Effect.ofOver (h : Effect stream next label) (hs : stream.Shaped) (hover : stream.Over) :
    next.Over ∧ label.accepted = none ∧
      ∀ event, label.delivered = some event → event = .ended ∨ event = .cancelled := by
  have hflight : stream.buffer = [] ∧ stream.blockedEmit = none := by
    simpa [inFlight] using hs.drained hover
  have hopen : stream.terminal ≠ .opened := by
    intro hopen
    rw [Over, hopen] at hover
    obtain hover | hover := hover <;> cases hover
  cases h with
  | silent hsame hsilent =>
    refine ⟨by rw [Over, hsame.terminal]; exact hover, hsilent.accepted, ?_⟩
    intro event hevent
    rw [hsilent.delivered] at hevent
    cases hevent
  | handed _ _ hopened | buffered _ hopened | blocked _ _ hopened | parked _ _ _ _ hopened
  | finished _ _ hopened => exact absurd hopened hopen
  | popped item rest _ hbuffer =>
    rw [hflight.1] at hbuffer
    cases hbuffer
  | passed blocked _ _ hblocked =>
    rw [hflight.2] at hblocked
    cases hblocked
  | observed event _ _ _ hevent haccepted hdelivered _ _ hsame =>
    refine ⟨.inr hsame.terminal, haccepted, ?_⟩
    intro event' hevent'
    rw [hdelivered] at hevent'
    cases hevent'
    obtain ⟨rfl, -⟩ | ⟨error, -, hterminal⟩ | ⟨rfl, -⟩ := hevent
    · exact .inl rfl
    · rw [Over, hterminal] at hover
      obtain hover | hover := hover <;> cases hover
    · exact .inr rfl
  | discarded haccepted hdelivered _ _ hsame =>
    refine ⟨.inl hsame.terminal, haccepted, ?_⟩
    intro event hevent
    rw [hdelivered] at hevent
    cases hevent

/-- A terminal event is delivered when nothing is on its way, and is the last. -/
theorem Effect.terminates (h : Effect stream next label) (hterminates : label.Terminates) :
    stream.inFlight = [] ∧ next.Over ∧ next.inFlight = [] ∧ label.accepted = none := by
  obtain ⟨event, hevent, hno⟩ := hterminates
  cases h with
  | observed event' _ hbuffer hblocked _ haccepted _ _ _ hsame =>
    have hflight : stream.inFlight = [] := by simp [inFlight, hbuffer, hblocked]
    exact ⟨hflight, .inr hsame.terminal, hsame.inFlight.trans hflight, haccepted⟩
  | silent _ hsilent =>
    rw [hsilent.delivered] at hevent
    cases hevent
  | handed _ _ _ _ _ _ hdelivered | buffered _ _ _ _ _ _ hdelivered | discarded _ hdelivered =>
    rw [hdelivered] at hevent
    cases hevent
  | popped item _ _ _ _ hdelivered =>
    rw [hdelivered] at hevent
    exact absurd (some.inj hevent).symm (hno item)
  | passed blocked _ _ _ _ hdelivered =>
    rw [hdelivered] at hevent
    exact absurd (some.inj hevent).symm (hno blocked.item)
  | blocked _ _ _ _ _ _ _ hanswer | parked _ _ _ _ _ _ hanswer | finished _ _ _ _ hanswer =>
    rw [delivered, hanswer] at hevent
    cases hevent

theorem Effect.discards (h : Effect stream next label) (hcancels : label.cancels = true) :
    next.Over ∧ next.inFlight = [] := by
  cases h with
  | discarded _ _ _ _ hsame => exact ⟨.inl hsame.terminal, hsame.inFlight.trans rfl⟩
  | silent _ hsilent =>
    rw [hsilent.cancels] at hcancels
    cases hcancels
  | handed _ _ _ _ _ _ _ hno | buffered _ _ _ _ _ _ _ hno | popped _ _ _ _ _ _ hno
  | passed _ _ _ _ _ _ hno | observed _ _ _ _ _ _ _ hno =>
    rw [hno] at hcancels
    cases hcancels
  | blocked _ _ _ _ _ _ _ hanswer | parked _ _ _ _ _ _ hanswer | finished _ _ _ _ hanswer =>
    rw [cancels, hanswer] at hcancels
    cases hcancels

theorem over_run (hrun : Run Step s labels t) (hs : s.Shaped) (hover : s.Over) :
    ∀ label ∈ labels, label.accepted = none ∧
      ∀ event, label.delivered = some event → event = .ended ∨ event = .cancelled := by
  induction hrun with
  | nil => simp
  | cons hstep _ ih =>
    have heffect := step_effect hstep
    obtain ⟨hnext, hfirst⟩ := heffect.ofOver hs hover
    intro label hmem
    obtain rfl | hmem := mem_cons.mp hmem
    · exact hfirst
    · exact ih (heffect.shaped hs) hnext label hmem

/-! ## Items over a run -/

/-- Without a cancellation nothing is lost; after one nothing moves any more. -/
def ItemsKept (labels : List (StreamLabel T E W)) (t : Stream T E W) : Prop :=
  ((∀ label ∈ labels, label.cancels = false) →
      acceptedItems labels = deliveredItems labels ++ t.inFlight) ∧
    ((∃ label ∈ labels, label.cancels = true) →
      t.Over ∧ deliveredItems labels <+: acceptedItems labels)

theorem ItemsKept.isPrefix (h : ItemsKept labels t) :
    deliveredItems labels <+: acceptedItems labels := by
  by_cases hcancels : ∃ label ∈ labels, label.cancels = true
  · exact (h.2 hcancels).2
  have hnone : ∀ label ∈ labels, label.cancels = false := by
    intro label hmem
    cases hlabel : label.cancels with
    | false => rfl
    | true => exact absurd ⟨label, hmem, hlabel⟩ hcancels
  rw [h.1 hnone]
  exact prefix_append _ _

theorem acceptedItems_snoc (labels : List (StreamLabel T E W)) (label : StreamLabel T E W) :
    acceptedItems (labels ++ [label]) = acceptedItems labels ++ label.accepted.toList := by
  unfold acceptedItems
  cases h : label.accepted <;> simp [h]

theorem deliveredItems_snoc (labels : List (StreamLabel T E W)) (label : StreamLabel T E W) :
    deliveredItems (labels ++ [label]) = deliveredItems labels ++ label.deliveredItem.toList := by
  unfold deliveredItems
  cases h : label.deliveredItem <;> simp [h]

theorem deliveredItem_eq_none
    (h : ∀ event, label.delivered = some event → event = .ended ∨ event = .cancelled) :
    label.deliveredItem = none := by
  unfold deliveredItem
  split
  · rename_i item hitem
    obtain hevent | hevent := h _ hitem <;> cases hevent
  · rfl

theorem ItemsKept.snoc (h : ItemsKept labels s) (hs : s.Shaped) (heffect : Effect s t label) :
    ItemsKept (labels ++ [label]) t := by
  rw [ItemsKept, acceptedItems_snoc, deliveredItems_snoc]
  constructor
  · intro hnone
    have hbefore : ∀ label ∈ labels, label.cancels = false := by
      intro label hmem
      exact hnone label (mem_append_left _ hmem)
    have hlast := hnone label (by simp)
    obtain ⟨-, hitems⟩ | ⟨hcancels, -⟩ := heffect.items hs
    · rw [h.1 hbefore, append_assoc, append_assoc, hitems]
    rw [hlast] at hcancels
    cases hcancels
  rintro ⟨cancelling, hmem, hcancels⟩
  obtain hmem | hmem := mem_append.mp hmem
  · obtain ⟨hover, hprefixed⟩ := h.2 ⟨cancelling, hmem, hcancels⟩
    obtain ⟨hnext, haccepted, hevents⟩ := heffect.ofOver hs hover
    refine ⟨hnext, ?_⟩
    rw [haccepted, deliveredItem_eq_none hevents]
    simpa using hprefixed
  obtain rfl := mem_singleton.mp hmem
  refine ⟨(heffect.discards hcancels).1, ?_⟩
  obtain ⟨hno, -⟩ | ⟨-, haccepted, hitem⟩ := heffect.items hs
  · rw [hcancels] at hno
    cases hno
  rw [haccepted, hitem]
  simpa using h.isPrefix

theorem itemsKept_run (hrun : Run Step (opened : Stream T E W) labels t) : ItemsKept labels t := by
  refine Run.history (P := ItemsKept) ?_ ?_ hrun
  · exact ⟨fun _ => rfl, by simp⟩
  intro labels s label t hrun hkept hstep
  exact hkept.snoc (shaped_run hrun shaped_opened) (step_effect hstep)

/-! ## The error payload -/

/-- Where the error payload is. -/
structure ErrorKept (labels : List (StreamLabel T E W)) (t : Stream T E W) : Prop where
  opened : t.terminal = .opened → labels.filterMap acceptedError = []
  waiting : ∀ error, t.terminal = .error error →
    labels.filterMap acceptedError = [error] ∧ labels.filterMap deliveredError = []
  once : (labels.filterMap acceptedError).length ≤ 1
  delivered : labels.filterMap deliveredError <+: labels.filterMap acceptedError

/-- Nothing happens to the error payload. -/
theorem ErrorKept.frame (h : ErrorKept labels s) (haccepted : label.acceptedError = none)
    (hdelivered : label.deliveredError = none)
    (hterminal : t.terminal = s.terminal ∨ t.terminal = .cancelled ∨ t.terminal = .exhausted ∨
      s.terminal = .opened ∧ t.terminal = .ended) :
    ErrorKept (labels ++ [label]) t := by
  have haccepted' : (labels ++ [label]).filterMap acceptedError =
      labels.filterMap acceptedError := by simp [haccepted]
  have hdelivered' : (labels ++ [label]).filterMap deliveredError =
      labels.filterMap deliveredError := by simp [hdelivered]
  refine ⟨?_, ?_, ?_, ?_⟩
  · intro hopen
    rw [haccepted']
    rw [hopen] at hterminal
    obtain hsame | hother | hother | ⟨-, hother⟩ := hterminal
    · exact h.opened hsame.symm
    all_goals cases hother
  · intro error herror
    rw [haccepted', hdelivered']
    rw [herror] at hterminal
    obtain hsame | hother | hother | ⟨-, hother⟩ := hterminal
    · exact h.waiting error hsame.symm
    all_goals cases hother
  · rw [haccepted']
    exact h.once
  rw [haccepted', hdelivered']
  exact h.delivered

theorem deliveredError_eq_none (h : label.delivered = none) : label.deliveredError = none := by
  rw [deliveredError, h]

theorem deliveredError_of_item {item : T} (h : label.delivered = some (.item item)) :
    label.deliveredError = none := by
  rw [deliveredError, h]

/-- A payload is taken over by an open stream, and is its terminal event then. -/
theorem step_acceptedError {error : E} (hstep : Step s label t)
    (h : label.acceptedError = some error) :
    s.terminal = .opened ∧ t.terminal = .error error ∧ label.deliveredError = none := by
  obtain ⟨call, answer, wakes⟩ := label
  cases call with
  | finishError given =>
    have hrun : ((s.finishError given).map finished id) = (answer, wakes, t) := hstep
    unfold finishError at hrun
    split at hrun
    · cases hrun
      cases h
    rename_i taken next hfinish
    cases hrun
    cases h
    obtain ⟨-, hopen, -, hsame⟩ := finish_eq_ok hfinish
    exact ⟨hopen, hsame.terminal, rfl⟩
  | emit | finishEnd | dropProducer | pollNext | pollNextReady | cancel | dropConsumer
  | dropSupervisor => cases h

/-- The calls that take no payload over. -/
theorem Effect.error (h : Effect s t label) (haccepted : label.acceptedError = none) :
    (label.deliveredError = none ∧
      (t.terminal = s.terminal ∨ t.terminal = .cancelled ∨ t.terminal = .exhausted ∨
        s.terminal = .opened ∧ t.terminal = .ended)) ∨
    ∃ error, label.deliveredError = some error ∧ s.terminal = .error error ∧
      t.terminal = .exhausted := by
  cases h with
  | silent hsame hsilent =>
    exact .inl ⟨deliveredError_eq_none hsilent.delivered, .inl hsame.terminal⟩
  | handed _ _ _ _ _ _ hdelivered _ _ hsame | buffered _ _ _ _ _ _ hdelivered _ _ hsame =>
    exact .inl ⟨deliveredError_eq_none hdelivered, .inl hsame.terminal⟩
  | blocked _ _ _ _ _ _ _ hanswer _ hsame | parked _ _ _ _ _ _ hanswer _ hsame =>
    have hdelivered : label.delivered = none := by rw [delivered, hanswer]
    exact .inl ⟨deliveredError_eq_none hdelivered, .inl hsame.terminal⟩
  | popped _ _ _ _ _ hdelivered _ _ hsame | passed _ _ _ _ _ hdelivered _ _ hsame =>
    exact .inl ⟨deliveredError_of_item hdelivered, .inl hsame.terminal⟩
  | observed event _ _ _ hevent _ hdelivered _ _ hsame =>
    obtain ⟨rfl, -⟩ | ⟨error, rfl, hterminal⟩ | ⟨rfl, -⟩ := hevent
    · exact .inl ⟨by rw [deliveredError, hdelivered], .inr (.inr (.inl hsame.terminal))⟩
    · exact .inr ⟨error, by rw [deliveredError, hdelivered], hterminal, hsame.terminal⟩
    · exact .inl ⟨by rw [deliveredError, hdelivered], .inr (.inr (.inl hsame.terminal))⟩
  | finished terminal _ hopen hkind hanswer _ hsame =>
    have hdelivered : label.delivered = none := by rw [delivered, hanswer]
    obtain ⟨-, rfl⟩ | ⟨error, hcall, -⟩ := hkind
    · exact .inl ⟨deliveredError_eq_none hdelivered, .inr (.inr (.inr ⟨hopen, hsame.terminal⟩))⟩
    rw [acceptedError, hcall, hanswer] at haccepted
    cases haccepted
  | discarded _ hdelivered _ _ hsame =>
    exact .inl ⟨deliveredError_eq_none hdelivered, .inr (.inl hsame.terminal)⟩

theorem ErrorKept.snoc (h : ErrorKept labels s) (hstep : Step s label t) :
    ErrorKept (labels ++ [label]) t := by
  cases haccepted : label.acceptedError with
  | none =>
    obtain ⟨hdelivered, hterminal⟩ | ⟨error, hdelivered, hwaiting, hterminal⟩ :=
      (step_effect hstep).error haccepted
    · exact h.frame haccepted hdelivered hterminal
    obtain ⟨hone, hnone⟩ := h.waiting error hwaiting
    refine ⟨by simp [hterminal], by simp [hterminal], ?_, ?_⟩
    · simp [haccepted, hone]
    · simp [haccepted, hone, hdelivered, hnone]
  | some error =>
    obtain ⟨hopen, hterminal, hdelivered⟩ := step_acceptedError hstep haccepted
    have hnone := h.opened hopen
    have hno : labels.filterMap deliveredError = [] := by
      have hdelivered := h.delivered
      rw [hnone] at hdelivered
      exact prefix_nil.mp hdelivered
    refine ⟨by simp [hterminal], ?_, ?_, ?_⟩
    · intro error' herror
      rw [hterminal] at herror
      cases herror
      simp [haccepted, hnone, hdelivered, hno]
    · simp [haccepted, hnone]
    · simp [haccepted, hnone, hdelivered, hno]

theorem errorKept_run (hrun : Run Step (opened : Stream T E W) labels t) : ErrorKept labels t := by
  refine Run.history (P := ErrorKept) ?_ ?_ hrun
  · exact ⟨fun _ => rfl, by simp [opened], by simp, by simp⟩
  intro labels s label t _ hkept hstep
  exact hkept.snoc hstep

/-! ## Wakes -/

/-- What one call owes to the two sides that may be parked. -/
structure WakeLaws (s : Stream T E W) (label : StreamLabel T E W) (t : Stream T E W) : Prop where
  /-- A parked consumer stays parked until there is an event for it, and is woken then. -/
  consumer : ∀ wake, s.consumerWaiter = some wake →
    (t.consumerWaiter = some wake ∧ label.wakes = [] ∧ ¬ t.Available) ∨
      (t.consumerWaiter = none ∧ label.wakes = [wake] ∧ t.Available)
  /-- A blocked producer stays blocked until its item moves on or is discarded. -/
  producer : ∀ blocked, s.blockedEmit = some blocked →
    (t.blockedEmit = some blocked ∧ t.buffer = s.buffer ∧ label.wakes = []) ∨
      (t.blockedEmit = none ∧ label.wakes = [blocked.wake] ∧
        (t.buffer = [blocked.item] ∨ label.cancels = true))
  /-- Nobody else is woken. -/
  nobody : s.consumerWaiter = none → s.blockedEmit = none → label.wakes = []
  /-- A `Pending` answer leaves its signal with the stream. -/
  registers : ∀ wake, label.registered = some wake → wake ∈ t.parkedSignals

theorem registered_emit {item : T} {wake signal : W}
    (h : (⟨.emit item wake, .emitted (s.emit item wake).1, (s.emit item wake).2.1⟩ :
      StreamLabel T E W).registered = some signal) :
    s.consumerWaiter = none ∧ s.blockedEmit = none ∧ (s.emit item wake).2.1 = [] ∧
      (s.emit item wake).2.2 = { s with blockedEmit := some ⟨item, signal⟩ } := by
  unfold emit at h ⊢
  split at h
  · cases h
  rename_i hopen
  split at h
  · cases h
  rename_i hblocked
  split at h
  · cases h
  rename_i hwaiter
  split at h
  · cases h
  rename_i hfull
  cases h
  rw [if_neg hopen, if_neg hblocked]
  simp only [hwaiter, if_neg hfull]
  exact ⟨trivial, by simpa using hblocked, trivial, trivial⟩

theorem registered_pollNext {wake signal : W}
    (h : (⟨.pollNext wake, .polled (some (s.pollNext wake).1), (s.pollNext wake).2.1⟩ :
      StreamLabel T E W).registered = some signal) :
    s.consumerWaiter = none ∧ s.blockedEmit = none ∧ (s.pollNext wake).2.1 = [] ∧
      (s.pollNext wake).2.2 = { s with consumerWaiter := some signal } := by
  unfold pollNext at h ⊢
  split at h
  · cases h
  rename_i hwaiter
  split at h
  · cases h
  rename_i hready
  cases h
  rw [if_neg hwaiter]
  simp only
  exact ⟨by simpa using hwaiter, (takeReady_eq_none hready).2.1, trivial, trivial⟩

/-- A signal is registered by a side of which nobody is parked, and nobody is woken. -/
theorem step_registered {signal : W} (hstep : Step s label t) (h : label.registered = some signal) :
    s.parkedSignals = [] ∧ label.wakes = [] ∧ t.parkedSignals = [signal] := by
  obtain ⟨call, answer, wakes⟩ := label
  cases call with
  | emit item wake =>
    have hrun : (s.emit item wake).map emitted id = (answer, wakes, t) := hstep
    obtain rfl : .emitted (s.emit item wake).1 = answer := congrArg Prod.fst hrun
    obtain rfl : (s.emit item wake).2.1 = wakes := congrArg (·.2.1) hrun
    obtain rfl : (s.emit item wake).2.2 = t := congrArg (·.2.2) hrun
    obtain ⟨hwaiter, hblocked, hwakes, hnext⟩ := registered_emit h
    exact ⟨by simp [parkedSignals, hwaiter, hblocked], hwakes,
      by simp [parkedSignals, hnext, hwaiter]⟩
  | pollNext wake =>
    have hrun : (s.pollNext wake).map (fun poll => polled (some poll)) id =
      (answer, wakes, t) := hstep
    obtain rfl : .polled (some (s.pollNext wake).1) = answer := congrArg Prod.fst hrun
    obtain rfl : (s.pollNext wake).2.1 = wakes := congrArg (·.2.1) hrun
    obtain rfl : (s.pollNext wake).2.2 = t := congrArg (·.2.2) hrun
    obtain ⟨hwaiter, hblocked, hwakes, hnext⟩ := registered_pollNext h
    exact ⟨by simp [parkedSignals, hwaiter, hblocked], hwakes,
      by simp [parkedSignals, hnext, hblocked]⟩
  | finishEnd | finishError | dropProducer | pollNextReady | cancel | dropConsumer
  | dropSupervisor => cases h

/-- A call that registers no signal wakes the signals that it takes out. -/
theorem Effect.wakes (h : Effect s t label) (hs : s.Shaped)
    (hregistered : label.registered = none) :
    s.parkedSignals.Perm (label.wakes ++ t.parkedSignals) := by
  cases h with
  | silent hsame hsilent =>
    rw [hsilent.wakes, hsame.parkedSignals]
    exact .refl _
  | handed item wake _ hblocked hwaiter _ _ _ hwakes hsame
  | buffered item _ hblocked hwaiter _ _ _ _ hwakes hsame
  | observed event hwaiter _ hblocked _ _ _ _ hwakes hsame =>
    rw [hwakes, hsame.parkedSignals]
    simp [parkedSignals, hblocked, hwaiter]
  | blocked item wake _ _ _ _ hcall hanswer | parked wake _ _ _ _ hcall hanswer =>
    rw [registered, hcall, hanswer] at hregistered
    cases hregistered
  | popped item rest hwaiter _ _ _ _ hwakes hsame =>
    rw [hwakes, hsame.parkedSignals]
    simp [parkedSignals, hwaiter]
  | passed blocked _ hbuffer hblocked => exact absurd hbuffer (hs.blocked (by simp [hblocked])).1
  | finished terminal hblocked _ _ _ hwakes hsame =>
    rw [hwakes, hsame.parkedSignals]
    simp [parkedSignals, hblocked]
  | discarded _ _ _ hwakes hsame =>
    rw [hwakes, hsame.parkedSignals]
    simp [parkedSignals]

theorem step_wakes (hstep : Step s label t) (hs : s.Shaped) :
    (s.parkedSignals ++ label.registered.toList).Perm (label.wakes ++ t.parkedSignals) := by
  cases hregistered : label.registered with
  | none =>
    rw [toList_none, append_nil]
    exact (step_effect hstep).wakes hs hregistered
  | some signal =>
    obtain ⟨hbefore, hwakes, hafter⟩ := step_registered hstep hregistered
    rw [hbefore, hwakes, hafter]
    exact .refl _

/-- Signals are woken once each or still parked. -/
theorem wakes_run (hrun : Run Step (opened : Stream T E W) labels t) :
    (labels.filterMap registered).Perm (labels.flatMap wakes ++ t.parkedSignals) := by
  refine Run.history (P := fun labels t => (labels.filterMap registered).Perm
      (labels.flatMap wakes ++ t.parkedSignals)) ?_ ?_ hrun
  · exact .refl _
  intro labels s label t hrun hperm hstep
  have hone := step_wakes hstep (shaped_run hrun shaped_opened)
  have hregistered : (labels ++ [label]).filterMap registered =
      labels.filterMap registered ++ label.registered.toList := by
    cases h : label.registered <;> simp [h]
  have hwoken : (labels ++ [label]).flatMap wakes = labels.flatMap wakes ++ label.wakes := by simp
  rw [hregistered, hwoken, append_assoc]
  refine (hperm.append_right _).trans ?_
  rw [append_assoc]
  exact hone.append_left _

theorem Effect.consumer {wake : W} (h : Effect s t label) (hs : s.Shaped)
    (hparked : s.consumerWaiter = some wake) :
    (t.consumerWaiter = some wake ∧ label.wakes = [] ∧ ¬ t.Available) ∨
      (t.consumerWaiter = none ∧ label.wakes = [wake] ∧ t.Available) := by
  obtain ⟨hbuffer, hblocked, hopen⟩ := hs.parked (by simp [hparked])
  cases h with
  | silent hsame hsilent =>
    refine .inl ⟨hsame.waiter.trans hparked, hsilent.wakes, ?_⟩
    rw [hsame.available]
    simp [Available, inFlight, hbuffer, hblocked, hopen]
  | handed item signal _ _ hwaiter _ _ _ hwakes hsame =>
    obtain rfl : signal = wake := some.inj (hwaiter.symm.trans hparked)
    refine .inr ⟨hsame.waiter, hwakes, ?_⟩
    rw [hsame.available]
    simp [Available, inFlight]
  | finished terminal _ _ hkind _ hwakes hsame =>
    refine .inr ⟨hsame.waiter, by simpa [hparked] using hwakes, .inr ?_⟩
    rw [hsame.terminal]
    obtain ⟨-, rfl⟩ | ⟨error, -, rfl⟩ := hkind <;> simp
  | discarded _ _ _ hwakes hsame =>
    refine .inr ⟨hsame.waiter, by simpa [hparked, hblocked] using hwakes, .inr ?_⟩
    rw [hsame.terminal]
    simp
  | buffered _ _ _ hwaiter | blocked _ _ _ _ hwaiter | popped _ _ hwaiter | passed _ hwaiter
  | observed _ hwaiter | parked _ hwaiter =>
    rw [hparked] at hwaiter
    cases hwaiter

theorem Effect.producer {blocked : BlockedEmit T W} (h : Effect s t label) (hs : s.Shaped)
    (hblocked : s.blockedEmit = some blocked) :
    (t.blockedEmit = some blocked ∧ t.buffer = s.buffer ∧ label.wakes = []) ∨
      (t.blockedEmit = none ∧ label.wakes = [blocked.wake] ∧
        (t.buffer = [blocked.item] ∨ label.cancels = true)) := by
  have hfull := (hs.blocked (by simp [hblocked])).1
  have hwaiter : s.consumerWaiter = none := by
    by_contra hparked
    exact hfull (hs.parked hparked).1
  cases h with
  | silent hsame hsilent => exact .inl ⟨hsame.blocked.trans hblocked, hsame.buffer, hsilent.wakes⟩
  | popped item rest _ hbuffer _ _ _ hwakes hsame =>
    have hone := hs.capacity
    rw [hbuffer, length_cons, streamBufferCapacity] at hone
    have hrest : rest = [] := eq_nil_of_length_eq_zero (by omega)
    refine .inr ⟨hsame.blocked, by simpa [hblocked] using hwakes, .inl ?_⟩
    rw [hsame.buffer, hrest]
    simp [hblocked]
  | observed _ _ hbuffer | parked _ _ hbuffer | passed _ _ hbuffer => exact absurd hbuffer hfull
  | discarded _ _ hcancels hwakes hsame =>
    exact .inr ⟨hsame.blocked, by simpa [hwaiter, hblocked] using hwakes, .inr hcancels⟩
  | handed _ _ _ hnone | buffered _ _ hnone | blocked _ _ _ hnone | finished _ hnone =>
    rw [hblocked] at hnone
    cases hnone

theorem step_wakeLaws (hstep : Step s label t) (hs : s.Shaped) : WakeLaws s label t where
  consumer _ hparked := (step_effect hstep).consumer hs hparked
  producer _ hblocked := (step_effect hstep).producer hs hblocked
  nobody := by
    intro hwaiter hblocked
    cases hregistered : label.registered with
    | none =>
      have hwakes := (step_effect hstep).wakes hs hregistered
      simp only [parkedSignals, hwaiter, hblocked, toList_none, map_none, append_nil] at hwakes
      have hnone := append_eq_nil_iff.mp (nil_perm.mp hwakes)
      exact hnone.1
    | some signal => exact (step_registered hstep hregistered).2.1
  registers := by
    intro wake hregistered
    rw [(step_registered hstep hregistered).2.2]
    exact mem_singleton.mpr rfl

/-! ## The laws of the stream -/

/-- A rejected item or error goes back to its owner, and the stream is as it was. -/
structure Returns (s : Stream T E W) (label : StreamLabel T E W) (t : Stream T E W) : Prop where
  item : ∀ item wake back reason, label.call = .emit item wake →
    label.answer = .emitted (.rejected back reason) → back = item ∧ t = s
  error : ∀ error reason back, label.call = .finishError error →
    label.answer = .finished (.error (reason, back)) → back = some error ∧ t = s

theorem emit_rejected {item back : T} {wake : W} {reason : StreamError}
    (h : (s.emit item wake).1 = .rejected back reason) :
    back = item ∧ (s.emit item wake).2.2 = s := by
  unfold emit at h ⊢
  split at h
  · rename_i hclosed
    cases h
    rw [if_pos hclosed]
    exact ⟨rfl, rfl⟩
  rename_i hopen
  split at h
  · rename_i hblocked
    cases h
    rw [if_neg hopen, if_pos hblocked]
    exact ⟨rfl, rfl⟩
  split at h
  · cases h
  · split at h <;> cases h

theorem finishError_rejected {error : E} {reason : StreamError} {back : Option E}
    (h : (s.finishError error).1 = .error (reason, back)) :
    back = some error ∧ (s.finishError error).2.2 = s := by
  unfold finishError at h ⊢
  split at h
  · cases h
    exact ⟨rfl, rfl⟩
  · cases h

theorem step_returns (hstep : Step s label t) : Returns s label t := by
  obtain ⟨call, answer, wakes⟩ := label
  constructor
  · rintro item wake back reason ⟨⟩ ⟨⟩
    have hanswer : emitted (s.emit item wake).1 = .emitted (.rejected back reason) :=
      congrArg Prod.fst hstep
    have hnext : (s.emit item wake).2.2 = t := congrArg (·.2.2) hstep
    obtain ⟨hback, hsame⟩ := emit_rejected (emitted.inj hanswer)
    exact ⟨hback, hnext.symm.trans hsame⟩
  rintro error reason back ⟨⟩ ⟨⟩
  have hanswer : finished (s.finishError error).1 =
    .finished (.error (reason, back)) := congrArg Prod.fst hstep
  have hnext : (s.finishError error).2.2 = t := congrArg (·.2.2) hstep
  obtain ⟨hback, hsame⟩ := finishError_rejected (finished.inj hanswer)
  exact ⟨hback, hnext.symm.trans hsame⟩

/-- What holds of a stream after any calls in any order. -/
structure Laws (labels : List (StreamLabel T E W)) (t : Stream T E W) : Prop where
  /-- Items arrive in the order in which they were taken over, each once. -/
  ordered : deliveredItems labels <+: acceptedItems labels
  /-- An uncancelled stream ends after its last item; nothing is taken over later. -/
  complete : ∀ before label after, labels = before ++ label :: after →
    (∀ earlier ∈ before, earlier.cancels = false) →
    (label.delivered = some .ended ∨ ∃ error, label.delivered = some (.error error)) →
    deliveredItems before = acceptedItems before ∧ acceptedItems labels = acceptedItems before
  /-- The payload that was taken over is delivered at most once, and no other is. -/
  errors : labels.filterMap deliveredError <+: labels.filterMap acceptedError ∧
    (labels.filterMap acceptedError).length ≤ 1
  /-- After a terminal event there are only ends and cancellations. -/
  terminal : ∀ before label after, labels = before ++ label :: after → label.Terminates →
    ∀ later ∈ after, ∀ event, later.delivered = some event → event = .ended ∨ event = .cancelled
  capacity : t.buffer.length ≤ streamBufferCapacity
  parked : t.consumerWaiter ≠ none → t.buffer = [] ∧ t.blockedEmit = none ∧ t.terminal = .opened
  /-- Every signal that a `Pending` answer took is woken once, or still parked. -/
  woken : (labels.filterMap registered).Perm (labels.flatMap wakes ++ t.parkedSignals)

theorem terminates_of_delivered
    (h : label.delivered = some .ended ∨ ∃ error, label.delivered = some (.error error)) :
    label.Terminates := by
  obtain hended | ⟨error, herror⟩ := h
  · exact ⟨.ended, hended, by simp⟩
  · exact ⟨.error error, herror, by simp⟩

/-- The part of a run that follows a terminal event. -/
theorem after_terminates {before after : List (StreamLabel T E W)}
    (hrun : Run Step (opened : Stream T E W) (before ++ label :: after) t)
    (hterminates : label.Terminates) :
    ∃ s, Run Step (opened : Stream T E W) before s ∧ s.inFlight = [] ∧ label.accepted = none ∧
      ∀ later ∈ after, later.accepted = none ∧
        ∀ event, later.delivered = some event → event = .ended ∨ event = .cancelled := by
  obtain ⟨s, hbefore, hrest⟩ := Run.append_iff.mp hrun
  obtain ⟨u, hstep, hafter⟩ := Run.cons_iff.mp hrest
  have hs := shaped_run hbefore shaped_opened
  obtain ⟨hflight, hover, -, haccepted⟩ := (step_effect hstep).terminates hterminates
  exact ⟨s, hbefore, hflight, haccepted, over_run hafter ((step_effect hstep).shaped hs) hover⟩

theorem laws_run (hrun : Run Step (opened : Stream T E W) labels t) : Laws labels t := by
  have hshaped := shaped_run hrun shaped_opened
  have herrors := errorKept_run hrun
  refine ⟨(itemsKept_run hrun).isPrefix, ?_, ⟨herrors.delivered, herrors.once⟩, ?_,
    hshaped.capacity, hshaped.parked, wakes_run hrun⟩
  · rintro before label after rfl hcancels hends
    obtain ⟨s, hbefore, hflight, haccepted, hafter⟩ :=
      after_terminates hrun (terminates_of_delivered hends)
    have hitems := (itemsKept_run hbefore).1 hcancels
    rw [hflight, append_nil] at hitems
    refine ⟨hitems.symm, ?_⟩
    have hnone : acceptedItems after = [] := by
      refine filterMap_eq_nil_iff.mpr ?_
      intro later hmem
      exact (hafter later hmem).1
    unfold acceptedItems at hnone ⊢
    simp [haccepted, hnone]
  rintro before label after rfl hterminates later hmem
  obtain ⟨-, -, -, -, hafter⟩ := after_terminates hrun hterminates
  exact (hafter later hmem).2

/-- Any interleaving of the calls of the two endpoints and the supervisor: the laws hold at
every moment, and the next call keeps the laws of wakes and returns what it rejects. -/
theorem stream_lawful (hrun : Run Step (opened : Stream T E W) labels t) :
    Laws labels t ∧ ∀ label u, Step t label u → WakeLaws t label u ∧ Returns t label u := by
  refine ⟨laws_run hrun, ?_⟩
  intro label u hstep
  exact ⟨step_wakeLaws hstep (shaped_run hrun shaped_opened), step_returns hstep⟩

/-- The calls made one after the other. -/
def play (stream : Stream T E W) : List (StreamCall T E W) → List (StreamLabel T E W) × Stream T E W
  | [] => ([], stream)
  | call :: rest =>
    let (labels, last) := (stream.run call).2.2.play rest
    (stream.labelOf call :: labels, last)

theorem run_play (stream : Stream T E W) (calls : List (StreamCall T E W)) :
    Run Step stream (stream.play calls).1 (stream.play calls).2 := by
  induction calls generalizing stream with
  | nil => exact .nil stream
  | cons call rest ih => exact .cons rfl (ih (stream.run call).2.2)

/-- A consumer that parks first, a producer that overtakes it by two items and fails. -/
def overtaken : List (StreamCall Nat Nat Nat) :=
  [.pollNext 0, .emit 10 1, .emit 11 2, .emit 12 3, .pollNext 4, .finishError 7, .pollNextReady,
    .pollNext 5, .pollNext 6]

theorem stream_lawful_overtaken :
    Laws ((opened : Stream Nat Nat Nat).play overtaken).1 (opened.play overtaken).2 ∧
      deliveredItems (opened.play overtaken).1 = [10, 11] ∧
      (opened.play overtaken).1.filterMap deliveredError = [7] ∧
      (opened.play overtaken).1.flatMap wakes = [0, 2] :=
  ⟨(stream_lawful (run_play opened overtaken)).1, by decide, by decide, by decide⟩

end Stream
end Skiff.Scheduler
