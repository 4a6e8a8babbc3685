import Skiff.Router.Dispatcher

/-!
# The lives of requests

Along a run, what happens to one request id is a sequence of lives: an admission, the
frames that are delivered, and an end with one terminal and, for a task attempt, one
settlement. The last life is open if and only if the request is pending. `Moves` says what
one operation can do to one request; the permits that are out are those of the pendings.
-/

namespace Skiff.Router

open Session (RuntimeSessionEpoch)
open List

variable {ε : Type}

/-! ## Marks -/

/-- What an operation does that concerns one request. -/
inductive Mark (ε : Type) where
  | accepted (kind : PendingKind) (facts : Option TaskAttemptFacts)
  | delivered (frame : DispatchedFrame ε)
  | settled (facts : TaskAttemptFacts)
  | terminal (terminal : PendingTerminal)

def settledMarks (requestId : String) (effects : List Effect) : List (Mark ε) :=
  effects.filterMap fun
    | .onTerminal other facts _ => if other = requestId then some (.settled facts) else none
    | _ => none

def frameMarks (requestId : String) (frames : List (DispatchedFrame ε)) : List (Mark ε) :=
  (frames.filter fun frame => frame.requestId = requestId).map .delivered

def terminalMarks (requestId : String) (terminals : List PendingTerminal) : List (Mark ε) :=
  (terminals.filter fun terminal => terminal.requestId = requestId).map .terminal

/-- The admission of an operation, with the kind of the pending. -/
def acceptedMarks (requestId : String) (op : DispatchOp ε) (result : Option SubmitResult) :
    List (Mark ε) :=
  match op, result with
  | .submit request, some (.accepted other _) =>
    if other = requestId then
      (dispatchModeFromWire request.header.mode).toList.map fun mode =>
        .accepted mode.pendingKind none
    else []
  | .taskAttemptSubmit attempt, some (.accepted other _) =>
    if other = requestId then [.accepted .taskAttempt (some attempt.facts)] else []
  | _, _ => []

def DispatchLabel.marks (requestId : String) (label : DispatchLabel ε) : List (Mark ε) :=
  acceptedMarks requestId label.op label.reply.result ++ settledMarks requestId label.effects ++
    frameMarks requestId label.reply.frames ++ terminalMarks requestId label.reply.terminals

/-- Everything that happened to a request id, in order. -/
def lifecycle (requestId : String) (labels : List (DispatchLabel ε)) : List (Mark ε) :=
  labels.flatMap (DispatchLabel.marks requestId)

/-! ## Lives -/

/-- The frames of a stream after its start: its chunks, numbered from 0. -/
def chunks (requestId : String) (payloads : List (List UInt8)) : List (DispatchedFrame ε) :=
  payloads.mapIdx fun seq payload => .chunk requestId seq payload

/-- Nothing, or for a stream its start and the first chunks. -/
def InOrder (requestId : String) (kind : PendingKind) (frames : List (DispatchedFrame ε)) : Prop :=
  frames = [] ∨ kind = .stream ∧ ∃ payloads, frames = .start requestId :: chunks requestId payloads

/-- How a life ends. A last frame is an `End`, which a stream only gets after its start,
or an `Error`. -/
structure Ends (requestId : String) (kind : PendingKind) (frames : List (DispatchedFrame ε))
    (last : Option (DispatchedFrame ε)) (terminal : PendingTerminal) : Prop where
  named : terminal.requestId = requestId
  last_frame : ∀ frame, last = some frame →
    (∃ payload, frame = .endFrame requestId payload ∧ terminal.outcome = .completed ∧
      (kind = .stream → frames ≠ [])) ∨
    ∃ error, frame = .error requestId error ∧ terminal.outcome = .failed
  completed : terminal.outcome = .completed → ∃ payload, last = some (.endFrame requestId payload)

/-- One life of a request id, from its admission to its terminal. -/
structure Life (ε : Type) (requestId : String) where
  kind : PendingKind
  facts : Option TaskAttemptFacts
  frames : List (DispatchedFrame ε)
  last : Option (DispatchedFrame ε)
  terminal : PendingTerminal
  attempt : kind = .taskAttempt ↔ facts.isSome = true
  in_order : InOrder requestId kind frames
  ends : Ends requestId kind frames last terminal

/-- The marks at the end of a life. A task attempt is settled once. -/
def endMarks (facts : Option TaskAttemptFacts) (last : Option (DispatchedFrame ε))
    (terminal : PendingTerminal) : List (Mark ε) :=
  facts.toList.map .settled ++ last.toList.map .delivered ++ [.terminal terminal]

def openMarks (kind : PendingKind) (facts : Option TaskAttemptFacts)
    (frames : List (DispatchedFrame ε)) : List (Mark ε) :=
  .accepted kind facts :: frames.map .delivered

def Life.marks {requestId : String} (life : Life ε requestId) : List (Mark ε) :=
  openMarks life.kind life.facts life.frames ++ endMarks life.facts life.last life.terminal

/-- The frames a pending has had delivered are those its phase and its next sequence
number say. -/
structure Pending.Delivered (requestId : String) (pending : Pending)
    (frames : List (DispatchedFrame ε)) : Prop where
  attempt : pending.kind = .taskAttempt ↔ pending.taskAttempt.isSome = true
  streaming : pending.streamPhase = some .streaming → pending.kind = .stream ∧
    ∃ payloads, payloads.length = pending.nextSeq ∧
      frames = .start requestId :: chunks requestId payloads
  waiting : pending.streamPhase ≠ some .streaming → frames = [] ∧ pending.nextSeq = 0

/-- The open life of a pending request. -/
def openLife (requestId : String) : Option Pending → List (Mark ε) → Prop
  | none, marks => marks = []
  | some pending, marks => ∃ frames, pending.Delivered requestId frames ∧
      marks = openMarks pending.kind pending.taskAttempt frames

/-- The marks of a request id are whole lives, and the open one of its pending. -/
def Lived (requestId : String) (pending : Option Pending) (marks : List (Mark ε)) : Prop :=
  ∃ (lives : List (Life ε requestId)) (rest : List (Mark ε)),
    marks = lives.flatMap Life.marks ++ rest ∧ openLife requestId pending rest

/-! ## What an operation does to one request -/

inductive Moves (requestId : String) : Option Pending → List (Mark ε) → Option Pending → Prop where
  | idle (pending : Option Pending) : Moves requestId pending [] pending
  | accepted (pending : Pending) (hseq : pending.nextSeq = 0)
      (hphase : pending.streamPhase ≠ some .streaming)
      (hattempt : pending.kind = .taskAttempt ↔ pending.taskAttempt.isSome = true) :
      Moves requestId none [.accepted pending.kind pending.taskAttempt] (some pending)
  | started (pending : Pending) (hkind : pending.kind = .stream)
      (hphase : pending.streamPhase = some .waitingStart) :
      Moves requestId (some pending) [.delivered (.start requestId)]
        (some { pending with streamPhase := some .streaming })
  | chunk (pending : Pending) (payload : List UInt8) (hkind : pending.kind = .stream)
      (hphase : pending.streamPhase = some .streaming) :
      Moves requestId (some pending) [.delivered (.chunk requestId pending.nextSeq payload)]
        (some { pending with nextSeq := pending.nextSeq + 1 })
  | ended (pending : Pending) (last : Option (DispatchedFrame ε)) (terminal : PendingTerminal)
      (hends : ∀ frames, pending.Delivered requestId frames →
        Ends requestId pending.kind frames last terminal) :
      Moves requestId (some pending) (endMarks pending.taskAttempt last terminal) none

variable {requestId : String}

variable {frames : List (DispatchedFrame ε)}

theorem Pending.Delivered.inOrder {pending : Pending} (h : pending.Delivered requestId frames) :
    InOrder requestId pending.kind frames := by
  by_cases hphase : pending.streamPhase = some .streaming
  · obtain ⟨hkind, payloads, -, hframes⟩ := h.streaming hphase
    exact .inr ⟨hkind, payloads, hframes⟩
  · exact .inl (h.waiting hphase).1

/-- A move continues the lives of its request. -/
theorem Lived.move {before after : Option Pending} {marks more : List (Mark ε)}
    (h : Lived requestId before marks) (hmove : Moves requestId before more after) :
    Lived requestId after (marks ++ more) := by
  obtain ⟨lives, rest, rfl, hrest⟩ := h
  cases hmove with
  | idle => exact ⟨lives, rest, append_nil _, hrest⟩
  | accepted pending hseq hphase hattempt =>
    obtain rfl : rest = [] := hrest
    refine ⟨lives, [.accepted pending.kind pending.taskAttempt], by simp, [],
      ⟨hattempt, ?_, ?_⟩, rfl⟩
    · intro hstreaming
      exact absurd hstreaming hphase
    intro _
    exact ⟨rfl, hseq⟩
  | started pending hkind hphase =>
    obtain ⟨frames, hframes, rfl⟩ := hrest
    have hwaiting := hframes.waiting (by simp [hphase])
    refine ⟨lives, _, append_assoc _ _ _, [.start requestId], ⟨hframes.attempt, ?_, ?_⟩, ?_⟩
    · intro _
      exact ⟨hkind, [], hwaiting.2.symm, rfl⟩
    · intro hne
      exact absurd rfl hne
    rw [hwaiting.1]
    rfl
  | chunk pending payload hkind hphase =>
    obtain ⟨frames, hframes, rfl⟩ := hrest
    obtain ⟨-, payloads, hlength, rfl⟩ := hframes.streaming hphase
    refine ⟨lives, _, append_assoc _ _ _,
      .start requestId :: chunks requestId (payloads ++ [payload]),
      ⟨hframes.attempt, ?_, ?_⟩, ?_⟩
    · intro _
      refine ⟨hkind, payloads ++ [payload], ?_, rfl⟩
      rw [length_append, hlength]
      rfl
    · intro hne
      exact absurd hphase hne
    · simp [openMarks, chunks, mapIdx_concat, hlength]
  | ended pending last terminal hends =>
    obtain ⟨frames, hframes, rfl⟩ := hrest
    let life : Life ε requestId :=
      ⟨pending.kind, pending.taskAttempt, frames, last, terminal, hframes.attempt,
        hframes.inOrder, hends frames hframes⟩
    refine ⟨lives ++ [life], [], ?_, rfl⟩
    simp [life, Life.marks, append_assoc]

/-! ## Marks of terminals -/

theorem settledMarks_append (requestId : String) (effects more : List Effect) :
    (settledMarks requestId (effects ++ more) : List (Mark ε)) =
      settledMarks requestId effects ++ settledMarks requestId more :=
  filterMap_append

/-- The settlement of a terminal is its only effect that leaves a mark. -/
theorem settledMarks_terminal {facts : Option TaskAttemptFacts}
    {outcome : TaskAttemptTerminalOutcome} {session : RuntimeSessionEpoch}
    {cancelReason : Option String} {aborts : Bool} (other : String) :
    (settledMarks other
      ((facts.toList.map fun facts => Effect.onTerminal requestId facts outcome) ++
      (cancelReason.toList.map fun reason => Effect.requestCancel session requestId reason) ++
      if aborts then [Effect.abortSession session] else []) : List (Mark ε)) =
      if requestId = other then facts.toList.map .settled else [] := by
  have hcancels : (settledMarks other
      (cancelReason.toList.map fun reason => Effect.requestCancel session requestId reason) :
      List (Mark ε)) = [] := by
    cases cancelReason <;> rfl
  have haborts : (settledMarks other (if aborts then [Effect.abortSession session] else []) :
      List (Mark ε)) = [] := by
    cases aborts <;> rfl
  rw [settledMarks_append, settledMarks_append, hcancels, haborts, append_nil, append_nil]
  cases facts with
  | none => simp [settledMarks]
  | some facts =>
    by_cases hother : requestId = other
    · simp [settledMarks, hother]
    · simp [settledMarks, hother]

/-- The marks of an operation that only ends requests. -/
def endingMarks (requestId : String) (effects : List Effect) (terminals : List PendingTerminal) :
    List (Mark ε) :=
  settledMarks requestId effects ++ terminalMarks requestId terminals

theorem Ends.of_none {kind : PendingKind}
    {terminal : PendingTerminal} (hnamed : terminal.requestId = requestId)
    (houtcome : terminal.outcome ≠ .completed) : Ends requestId kind frames none terminal := by
  refine ⟨hnamed, nofun, ?_⟩
  intro hcompleted
  exact absurd hcompleted houtcome

theorem Moves.eq_nil {marks : List (Mark ε)} (h : Moves requestId none marks none) :
    marks = [] := by
  cases h
  rfl

theorem terminalMarks_singleton (terminal : PendingTerminal) (other : String) :
    (terminalMarks other [terminal] : List (Mark ε)) =
      if terminal.requestId = other then [.terminal terminal] else [] := by
  by_cases h : terminal.requestId = other
  · simp [terminalMarks, h]
  · simp [terminalMarks, h]

end Skiff.Router
