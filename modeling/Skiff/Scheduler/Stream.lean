import Skiff.Data.Run

/-!
# The bounded stream

A producer, a consumer and a supervisor share one buffer slot, one blocked item, one
waiting consumer and a terminal event. Every call works under the lock of the stream and
wakes the signals it took out afterwards; the wakes of a call are part of its result here,
since waking touches nothing of the stream.

Runs are not restricted to what the endpoints can still do: a dropped endpoint may be
used again in the model. `Effect` says once what a call can do.
-/

namespace Skiff.Scheduler

/-- Items, error payloads and wake signals are opaque to the stream. -/
inductive StreamEvent (T E : Type) where
  | item (item : T)
  | ended
  | error (error : E)
  | cancelled

inductive StreamError where
  | consumerPollAlreadyPending
  | producerEmitAlreadyPending
  | producerHasPendingEmit
  | alreadyTerminal

inductive StreamPoll (T E : Type) where
  | ready (event : StreamEvent T E)
  | pending
  | rejected (reason : StreamError)

inductive StreamEmit (T : Type) where
  | ready
  | pending
  | rejected (item : T) (reason : StreamError)

inductive Terminal (E : Type) where
  | opened
  | ended
  | error (error : E)
  | cancelled
  | exhausted

def Terminal.isOpen {E : Type} : Terminal E → Bool
  | .opened => true
  | .ended | .error _ | .cancelled | .exhausted => false

structure BlockedEmit (T W : Type) where
  item : T
  wake : W

def streamBufferCapacity : Nat := 1

/-- The shared state, and what the two endpoints remember about the terminal event. -/
structure Stream (T E W : Type) where
  buffer : List T
  consumerWaiter : Option W
  blockedEmit : Option (BlockedEmit T W)
  terminal : Terminal E
  terminalSent : Bool
  terminalSeen : Bool

inductive StreamCall (T E W : Type) where
  | emit (item : T) (wake : W)
  | finishEnd
  | finishError (error : E)
  | dropProducer
  | pollNext (wake : W)
  | pollNextReady
  | cancel
  | dropConsumer
  | dropSupervisor

inductive StreamAnswer (T E : Type) where
  | emitted (emit : StreamEmit T)
  | finished (result : Except (StreamError × Option E) Unit)
  | polled (poll : Option (StreamPoll T E))
  /-- Whether `cancel_stream` ran. -/
  | closed (cancels : Bool)

namespace Stream

variable {T E W : Type}

/-- `StreamSupervisor::open`. -/
def opened : Stream T E W where
  buffer := []
  consumerWaiter := none
  blockedEmit := none
  terminal := .opened
  terminalSent := false
  terminalSeen := false

variable (stream : Stream T E W)

def emit (item : T) (wake : W) : StreamEmit T × List W × Stream T E W :=
  if ¬ stream.terminal.isOpen then (.rejected item .alreadyTerminal, [], stream)
  else if stream.blockedEmit.isSome then
    (.rejected item .producerEmitAlreadyPending, [], stream)
  else
    match stream.consumerWaiter with
    | some consumer =>
      (.ready, [consumer],
        { stream with consumerWaiter := none, buffer := stream.buffer ++ [item] })
    | none =>
      if stream.buffer.length < streamBufferCapacity then
        (.ready, [], { stream with buffer := stream.buffer ++ [item] })
      else (.pending, [], { stream with blockedEmit := some ⟨item, wake⟩ })

/-- The part that `finish_end` and `finish_error` share. -/
def finish (terminal : Terminal E) : Except StreamError (List W × Stream T E W) :=
  if stream.blockedEmit.isSome then .error .producerHasPendingEmit
  else if ¬ stream.terminal.isOpen then .error .alreadyTerminal
  else
    .ok (stream.consumerWaiter.toList,
      { stream with terminal := terminal, consumerWaiter := none, terminalSent := true })

def finishEnd : Except (StreamError × Option E) Unit × List W × Stream T E W :=
  match stream.finish .ended with
  | .error reason => (.error (reason, none), [], stream)
  | .ok (wakes, next) => (.ok (), wakes, next)

def finishError (error : E) : Except (StreamError × Option E) Unit × List W × Stream T E W :=
  match stream.finish (.error error) with
  | .error reason => (.error (reason, some error), [], stream)
  | .ok (wakes, next) => (.ok (), wakes, next)

/-- `cancel_stream`: everything is discarded, and both sides are woken. -/
def cancelStream : List W × Stream T E W :=
  (stream.consumerWaiter.toList ++ (stream.blockedEmit.map BlockedEmit.wake).toList,
    { stream with buffer := [], blockedEmit := none, consumerWaiter := none,
                  terminal := .cancelled })

def dropProducer : Bool × List W × Stream T E W :=
  if stream.terminalSent then (false, [], stream) else (true, stream.cancelStream)

def dropConsumer : Bool × List W × Stream T E W :=
  if stream.terminalSeen then (false, [], stream) else (true, stream.cancelStream)

def dropSupervisor : Bool × List W × Stream T E W := (true, stream.cancelStream)

def cancel : Bool × List W × Stream T E W :=
  (true, stream.cancelStream.1, { stream.cancelStream.2 with terminalSeen := true })

/-- `refill_from_blocked`. -/
def refillFromBlocked : List W × Stream T E W :=
  match stream.blockedEmit with
  | none => ([], stream)
  | some blocked =>
    ([blocked.wake],
      { stream with blockedEmit := none, buffer := stream.buffer ++ [blocked.item] })

/-- The next event that is there already, if any. -/
def takeReady : Option (StreamEvent T E × List W × Stream T E W) :=
  match stream.buffer with
  | item :: rest => some (.item item, { stream with buffer := rest }.refillFromBlocked)
  | [] =>
    match stream.blockedEmit with
    | some blocked => some (.item blocked.item, [blocked.wake], { stream with blockedEmit := none })
    | none =>
      let seen := { stream with terminal := .exhausted, terminalSeen := true }
      match stream.terminal with
      | .opened => none
      | .ended | .exhausted => some (.ended, [], seen)
      | .error error => some (.error error, [], seen)
      | .cancelled => some (.cancelled, [], seen)

def pollNext (wake : W) : StreamPoll T E × List W × Stream T E W :=
  if stream.consumerWaiter.isSome then (.rejected .consumerPollAlreadyPending, [], stream)
  else
    match stream.takeReady with
    | some (event, wakes, next) => (.ready event, wakes, next)
    | none => (.pending, [], { stream with consumerWaiter := some wake })

def pollNextReady : Option (StreamPoll T E) × List W × Stream T E W :=
  if stream.consumerWaiter.isSome then (none, [], stream)
  else
    match stream.takeReady with
    | some (event, wakes, next) => (some (.ready event), wakes, next)
    | none => (none, [], stream)

/-- One call with its answer and the signals it wakes. -/
def run : StreamCall T E W → StreamAnswer T E × List W × Stream T E W
  | .emit item wake => (stream.emit item wake).map .emitted id
  | .finishEnd => stream.finishEnd.map .finished id
  | .finishError error => (stream.finishError error).map .finished id
  | .dropProducer => stream.dropProducer.map .closed id
  | .pollNext wake => (stream.pollNext wake).map (fun poll => .polled (some poll)) id
  | .pollNextReady => stream.pollNextReady.map .polled id
  | .cancel => stream.cancel.map .closed id
  | .dropConsumer => stream.dropConsumer.map .closed id
  | .dropSupervisor => stream.dropSupervisor.map .closed id

end Stream

/-- A call as an observer sees it. -/
structure StreamLabel (T E W : Type) where
  call : StreamCall T E W
  answer : StreamAnswer T E
  wakes : List W

namespace StreamLabel

variable {T E W : Type} (label : StreamLabel T E W)

/-- The item that the stream took over. -/
def accepted : Option T :=
  match label.call, label.answer with
  | .emit item _, .emitted .ready => some item
  | .emit item _, .emitted .pending => some item
  | _, _ => none

/-- The event that the consumer received. -/
def delivered : Option (StreamEvent T E) :=
  match label.answer with
  | .polled (some (.ready event)) => some event
  | _ => none

/-- The call cancelled the stream. -/
def cancels : Bool :=
  match label.answer with
  | .closed cancels => cancels
  | _ => false

/-- Nothing was taken over, delivered, cancelled or woken. -/
structure Silent : Prop where
  accepted : label.accepted = none
  delivered : label.delivered = none
  cancels : label.cancels = false
  wakes : label.wakes = []

end StreamLabel

namespace Stream

variable {T E W : Type}

def Step (stream : Stream T E W) (label : StreamLabel T E W) (next : Stream T E W) : Prop :=
  stream.run label.call = (label.answer, label.wakes, next)

/-- The same stream, whatever the endpoints remember. -/
structure Same (stream next : Stream T E W) : Prop where
  buffer : next.buffer = stream.buffer
  waiter : next.consumerWaiter = stream.consumerWaiter
  blocked : next.blockedEmit = stream.blockedEmit
  terminal : next.terminal = stream.terminal

theorem Same.refl (stream : Stream T E W) : Same stream stream := ⟨rfl, rfl, rfl, rfl⟩

/-- The items on their way, oldest first. -/
def inFlight (stream : Stream T E W) : List T :=
  stream.buffer ++ (stream.blockedEmit.map BlockedEmit.item).toList

/-- The consumer would find an event. -/
def Available (stream : Stream T E W) : Prop := stream.inFlight ≠ [] ∨ stream.terminal ≠ .opened

/-- What a call can do to the stream. -/
inductive Effect (stream next : Stream T E W) (label : StreamLabel T E W) : Prop
  | silent : Same stream next → label.Silent → Effect stream next label
  | handed (item : T) (wake : W) :
      stream.terminal = .opened → stream.blockedEmit = none → stream.consumerWaiter = some wake →
      label.accepted = some item → label.delivered = none → label.cancels = false →
      label.wakes = [wake] →
      Same { stream with consumerWaiter := none, buffer := stream.buffer ++ [item] } next →
      Effect stream next label
  | buffered (item : T) :
      stream.terminal = .opened → stream.blockedEmit = none → stream.consumerWaiter = none →
      stream.buffer.length < streamBufferCapacity →
      label.accepted = some item → label.delivered = none → label.cancels = false →
      label.wakes = [] → Same { stream with buffer := stream.buffer ++ [item] } next →
      Effect stream next label
  | blocked (item : T) (wake : W) :
      stream.terminal = .opened → stream.blockedEmit = none → stream.consumerWaiter = none →
      stream.buffer ≠ [] → label.call = .emit item wake → label.answer = .emitted .pending →
      label.wakes = [] → Same { stream with blockedEmit := some ⟨item, wake⟩ } next →
      Effect stream next label
  | popped (item : T) (rest : List T) :
      stream.consumerWaiter = none → stream.buffer = item :: rest →
      label.accepted = none → label.delivered = some (.item item) → label.cancels = false →
      label.wakes = (stream.blockedEmit.map BlockedEmit.wake).toList →
      Same { stream with
        blockedEmit := none
        buffer := rest ++ (stream.blockedEmit.map BlockedEmit.item).toList } next →
      Effect stream next label
  | passed (blocked : BlockedEmit T W) :
      stream.consumerWaiter = none → stream.buffer = [] → stream.blockedEmit = some blocked →
      label.accepted = none → label.delivered = some (.item blocked.item) →
      label.cancels = false → label.wakes = [blocked.wake] →
      Same { stream with blockedEmit := none } next → Effect stream next label
  | observed (event : StreamEvent T E) :
      stream.consumerWaiter = none → stream.buffer = [] → stream.blockedEmit = none →
      (event = .ended ∧ (stream.terminal = .ended ∨ stream.terminal = .exhausted) ∨
        (∃ error, event = .error error ∧ stream.terminal = .error error) ∨
        event = .cancelled ∧ stream.terminal = .cancelled) →
      label.accepted = none → label.delivered = some event → label.cancels = false →
      label.wakes = [] → Same { stream with terminal := .exhausted } next →
      Effect stream next label
  | parked (wake : W) :
      stream.consumerWaiter = none → stream.buffer = [] → stream.blockedEmit = none →
      stream.terminal = .opened → label.call = .pollNext wake →
      label.answer = .polled (some .pending) → label.wakes = [] →
      Same { stream with consumerWaiter := some wake } next → Effect stream next label
  | finished (terminal : Terminal E) :
      stream.blockedEmit = none → stream.terminal = .opened →
      (label.call = .finishEnd ∧ terminal = .ended ∨
        ∃ error, label.call = .finishError error ∧ terminal = .error error) →
      label.answer = .finished (.ok ()) → label.wakes = stream.consumerWaiter.toList →
      Same { stream with terminal := terminal, consumerWaiter := none } next →
      Effect stream next label
  | discarded :
      label.accepted = none → label.delivered = none → label.cancels = true →
      label.wakes = stream.consumerWaiter.toList ++
        (stream.blockedEmit.map BlockedEmit.wake).toList →
      Same { stream with
        buffer := []
        blockedEmit := none
        consumerWaiter := none
        terminal := .cancelled } next →
      Effect stream next label

variable {stream next : Stream T E W} {label : StreamLabel T E W}

theorem isOpen_iff {terminal : Terminal E} : terminal.isOpen = true ↔ terminal = .opened := by
  cases terminal <;> simp [Terminal.isOpen]

/-- The label of a call. -/
def labelOf (stream : Stream T E W) (call : StreamCall T E W) : StreamLabel T E W :=
  ⟨call, (stream.run call).1, (stream.run call).2.1⟩

theorem effect_emit (stream : Stream T E W) (item : T) (wake : W) :
    Effect stream (stream.emit item wake).2.2
      ⟨.emit item wake, .emitted (stream.emit item wake).1, (stream.emit item wake).2.1⟩ := by
  unfold emit
  split
  · exact .silent (.refl stream) ⟨rfl, rfl, rfl, rfl⟩
  rename_i hopen
  have hopened := isOpen_iff.mp (not_not.mp hopen)
  split
  · exact .silent (.refl stream) ⟨rfl, rfl, rfl, rfl⟩
  rename_i hblocked
  have hnone : stream.blockedEmit = none := by simpa using hblocked
  split
  · rename_i consumer hwaiter
    exact .handed item consumer hopened hnone hwaiter rfl rfl rfl rfl (.refl _)
  rename_i hwaiter
  split
  · rename_i hroom
    exact .buffered item hopened hnone hwaiter hroom rfl rfl rfl rfl (.refl _)
  rename_i hfull
  refine .blocked item wake hopened hnone hwaiter ?_ rfl rfl rfl (.refl _)
  intro hempty
  simp [hempty, streamBufferCapacity] at hfull

theorem finish_eq_ok {terminal : Terminal E} {wakes : List W}
    (h : stream.finish terminal = .ok (wakes, next)) :
    stream.blockedEmit = none ∧ stream.terminal = .opened ∧
      wakes = stream.consumerWaiter.toList ∧
      Same { stream with terminal := terminal, consumerWaiter := none } next := by
  unfold finish at h
  split at h
  · cases h
  rename_i hblocked
  split at h
  · cases h
  rename_i hopen
  cases h
  exact ⟨by simpa using hblocked, isOpen_iff.mp (not_not.mp hopen), rfl, ⟨rfl, rfl, rfl, rfl⟩⟩

theorem effect_finishEnd (stream : Stream T E W) :
    Effect stream stream.finishEnd.2.2
      ⟨.finishEnd, .finished stream.finishEnd.1, stream.finishEnd.2.1⟩ := by
  unfold finishEnd
  split
  · exact .silent (.refl stream) ⟨rfl, rfl, rfl, rfl⟩
  rename_i wakes next hfinish
  obtain ⟨hblocked, hopen, rfl, hsame⟩ := finish_eq_ok hfinish
  exact .finished .ended hblocked hopen (.inl ⟨rfl, rfl⟩) rfl rfl hsame

theorem effect_finishError (stream : Stream T E W) (error : E) :
    Effect stream (stream.finishError error).2.2
      ⟨.finishError error, .finished (stream.finishError error).1,
        (stream.finishError error).2.1⟩ := by
  unfold finishError
  split
  · exact .silent (.refl stream) ⟨rfl, rfl, rfl, rfl⟩
  rename_i wakes next hfinish
  obtain ⟨hblocked, hopen, rfl, hsame⟩ := finish_eq_ok hfinish
  exact .finished (.error error) hblocked hopen (.inr ⟨error, rfl, rfl⟩) rfl rfl hsame

/-- An event that is there is delivered, whichever of the two polls takes it. -/
theorem effect_takeReady {event : StreamEvent T E} {wakes : List W}
    (hwaiter : stream.consumerWaiter = none)
    (h : stream.takeReady = some (event, wakes, next)) (haccepted : label.accepted = none)
    (hdelivered : label.delivered = some event) (hcancels : label.cancels = false)
    (hwakes : label.wakes = wakes) : Effect stream next label := by
  unfold takeReady at h
  split at h
  · rename_i item rest hbuffer
    unfold refillFromBlocked at h
    cases hblocked : stream.blockedEmit with
    | none | some blocked =>
      simp only [hblocked] at h
      cases h
      refine .popped item rest hwaiter hbuffer haccepted hdelivered hcancels ?_ ?_
      · rw [hwakes, hblocked]
        rfl
      · exact ⟨by simp [hblocked], rfl, rfl, rfl⟩
  rename_i hbuffer
  split at h
  · rename_i blocked hblocked
    cases h
    exact .passed blocked hwaiter hbuffer hblocked haccepted hdelivered hcancels hwakes (.refl _)
  rename_i hblocked
  simp only at h
  split at h
  · cases h
  · rename_i hterminal
    cases h
    exact .observed .ended hwaiter hbuffer hblocked (.inl ⟨rfl, .inl hterminal⟩) haccepted
      hdelivered hcancels hwakes ⟨rfl, rfl, rfl, rfl⟩
  · rename_i hterminal
    cases h
    exact .observed .ended hwaiter hbuffer hblocked (.inl ⟨rfl, .inr hterminal⟩) haccepted
      hdelivered hcancels hwakes ⟨rfl, rfl, rfl, rfl⟩
  · rename_i error hterminal
    cases h
    exact .observed (.error error) hwaiter hbuffer hblocked (.inr (.inl ⟨error, rfl, hterminal⟩))
      haccepted hdelivered hcancels hwakes ⟨rfl, rfl, rfl, rfl⟩
  rename_i hterminal
  cases h
  exact .observed .cancelled hwaiter hbuffer hblocked (.inr (.inr ⟨rfl, hterminal⟩)) haccepted
    hdelivered hcancels hwakes ⟨rfl, rfl, rfl, rfl⟩

theorem takeReady_eq_none (h : stream.takeReady = none) :
    stream.buffer = [] ∧ stream.blockedEmit = none ∧ stream.terminal = .opened := by
  unfold takeReady at h
  split at h
  · cases h
  rename_i hbuffer
  split at h
  · cases h
  rename_i hblocked
  simp only at h
  split at h
  · rename_i hterminal
    exact ⟨hbuffer, hblocked, hterminal⟩
  all_goals cases h

theorem effect_pollNext (stream : Stream T E W) (wake : W) :
    Effect stream (stream.pollNext wake).2.2
      ⟨.pollNext wake, .polled (some (stream.pollNext wake).1), (stream.pollNext wake).2.1⟩ := by
  unfold pollNext
  split
  · exact .silent (.refl stream) ⟨rfl, rfl, rfl, rfl⟩
  rename_i hwaiter
  have hnone : stream.consumerWaiter = none := by simpa using hwaiter
  split
  · rename_i event wakes next hready
    exact effect_takeReady hnone hready rfl rfl rfl rfl
  rename_i hready
  obtain ⟨hbuffer, hblocked, hterminal⟩ := takeReady_eq_none hready
  exact .parked wake hnone hbuffer hblocked hterminal rfl rfl rfl (.refl _)

theorem effect_pollNextReady (stream : Stream T E W) :
    Effect stream stream.pollNextReady.2.2
      ⟨.pollNextReady, .polled stream.pollNextReady.1, stream.pollNextReady.2.1⟩ := by
  unfold pollNextReady
  split
  · exact .silent (.refl stream) ⟨rfl, rfl, rfl, rfl⟩
  rename_i hwaiter
  have hnone : stream.consumerWaiter = none := by simpa using hwaiter
  split
  · rename_i event wakes next hready
    exact effect_takeReady hnone hready rfl rfl rfl rfl
  · exact .silent (.refl stream) ⟨rfl, rfl, rfl, rfl⟩

theorem effect_dropProducer (stream : Stream T E W) :
    Effect stream stream.dropProducer.2.2
      ⟨.dropProducer, .closed stream.dropProducer.1, stream.dropProducer.2.1⟩ := by
  unfold dropProducer
  split
  · exact .silent (.refl stream) ⟨rfl, rfl, rfl, rfl⟩
  · exact .discarded rfl rfl rfl rfl (.refl _)

theorem effect_dropConsumer (stream : Stream T E W) :
    Effect stream stream.dropConsumer.2.2
      ⟨.dropConsumer, .closed stream.dropConsumer.1, stream.dropConsumer.2.1⟩ := by
  unfold dropConsumer
  split
  · exact .silent (.refl stream) ⟨rfl, rfl, rfl, rfl⟩
  · exact .discarded rfl rfl rfl rfl (.refl _)

theorem effect_run (stream : Stream T E W) (call : StreamCall T E W) :
    Effect stream (stream.run call).2.2 (stream.labelOf call) := by
  cases call with
  | emit item wake => exact effect_emit stream item wake
  | finishEnd => exact effect_finishEnd stream
  | finishError error => exact effect_finishError stream error
  | pollNext wake => exact effect_pollNext stream wake
  | pollNextReady => exact effect_pollNextReady stream
  | cancel => exact .discarded rfl rfl rfl rfl ⟨rfl, rfl, rfl, rfl⟩
  | dropSupervisor => exact .discarded rfl rfl rfl rfl (.refl _)
  | dropProducer => exact effect_dropProducer stream
  | dropConsumer => exact effect_dropConsumer stream

theorem step_effect (h : Step stream label next) : Effect stream next label := by
  obtain ⟨call, answer, wakes⟩ := label
  have heffect := effect_run stream call
  unfold labelOf at heffect
  have hrun : stream.run call = (answer, wakes, next) := h
  rw [hrun] at heffect
  exact heffect

end Stream

end Skiff.Scheduler
