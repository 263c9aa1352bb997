import RexlibCuda.CommandToken
import RexlibCuda.Lib.Prog
import RexlibCuda.Lib.Streams
import RexlibCuda.MemoryBlockAllocator

/-! `stream_timeline`, and the `pooled_event_recorder` that any number of them
share. What the driver does is given by the streams themselves; whether it
does it, and whether the host has memory, is given by answers that may differ
from call to call. -/

namespace RexlibCuda

open Prog Streams

/-- `event_recorder::ticket`. -/
abbrev Ticket := Nat

/-- `event_recorder::no_ticket` -/
def noTicket : Ticket := 0

structure PooledEventRecorder (σ : Type) where
  /-- `m_events.size()`. The tickets start at one. -/
  events : Nat
  /-- `m_available`, its back first. -/
  available : List Ticket
  /-- How many tickets `m_available` has been told to have room for. -/
  reserved : Nat
  /-- What the event of each ticket has captured last. -/
  captured : Ticket → Option (Point σ)

structure StreamTimeline where
  /-- `m_points` -/
  points : List Ticket
  /-- `m_first_id` -/
  firstId : Nat
  /-- `m_waiter_count` -/
  waiterCount : Nat

/-- How far a thread has come between the locked beginning of
`stream_timeline::wait` and `end_wait`. -/
inductive WaitPhase (σ : Type) where
  | begun
  /-- `cudaEventSynchronize` waits for what the event had captured when it was
  called. -/
  | blocked (p : Point σ)
  | finished (returned : Bool)

/-- A thread inside `stream_timeline::wait`. -/
structure HostWait (σ : Type) where
  timeline : Timeline
  id : Nat
  ticket : Ticket
  phase : WaitPhase σ

/-- The streams, the recorder and the timelines. -/
structure Timelines (σ ω : Type) where
  device : Device σ ω
  recorder : PooledEventRecorder σ
  timeline : Timeline → StreamTimeline
  waits : List (HostWait σ)
  /-- What each id a timeline has given stands for: the point of the stream
  its command was recorded at. -/
  given : Timeline → List (Point σ)
  /-- What the calls of `record` that returned have returned. -/
  returned : Timeline → List Nat

/-- Whether what is asked of the driver and of the host succeeds, in one call. -/
structure Answers where
  /-- `m_available.reserve` -/
  reserves : Bool
  /-- `m_events.emplace_back` -/
  creates : Bool
  /-- `cudaEventRecord` -/
  captures : Bool
  /-- `cudaEventQuery` -/
  queries : Ticket → Bool
  /-- `m_points.push_back` -/
  room : Bool
  /-- `cudaStreamWaitEvent` -/
  schedules : Bool

/-- The answers of a call in which nothing fails. -/
def Answers.good : Answers := ⟨true, true, true, fun _ => true, true, true⟩

namespace Timelines

variable {σ ω : Type}

def empty : Timelines σ ω where
  device := .empty
  recorder := ⟨0, [], 0, fun _ => none⟩
  timeline _ := ⟨[], 0, 0⟩
  waits := []
  given _ := []
  returned _ := []

abbrev Action (σ ω : Type) := Prog Exn (Timelines σ ω)

/-- Whether the work an event has captured has finished. One that has captured
nothing has nothing to wait for. -/
def signaled (s : Timelines σ ω) (ticket : Ticket) : Bool :=
  match s.recorder.captured ticket with
  | some p => decide (s.device.Reached p)
  | none => true

def setTimeline (t : Timeline) (timeline : StreamTimeline) (s : Timelines σ ω) : Timelines σ ω :=
  { s with timeline := Function.update s.timeline t timeline }

/-! ## `pooled_event_recorder` -/

/-- `pooled_event_recorder::release` -/
def release (ticket : Ticket) (s : Timelines σ ω) : Timelines σ ω :=
  if ticket = noTicket then s
  else { s with recorder := { s.recorder with available := ticket :: s.recorder.available } }

variable (answers : Answers)

/-- `pooled_event_recorder::create` -/
def create : Action σ ω Ticket :=
  if !answers.reserves then throw .badAlloc
  else do
    modify fun s => { s with recorder :=
      { s.recorder with reserved := max s.recorder.reserved (s.recorder.events + 1) } }
    if !answers.creates then throw .error
    else do
      modify fun s => { s with recorder :=
        { s.recorder with events := s.recorder.events + 1 } }
      let s ← get
      pure s.recorder.events

/-- `pooled_event_recorder::acquire` -/
def acquire : Action σ ω Ticket := do
  let s ← get
  match s.recorder.available with
  | [] => create answers
  | ticket :: available => do
      modify fun s => { s with recorder := { s.recorder with available } }
      pure ticket

variable [DecidableEq σ]

/-- The event of the ticket captures where the stream ends. -/
def capture (stream : σ) (ticket : Ticket) (s : Timelines σ ω) : Timelines σ ω :=
  { s with
    device := s.device.issue stream .capture
    recorder := { s.recorder with
      captured := Function.update s.recorder.captured ticket (some (s.device.last stream)) } }

/-- `cudaEventRecord` -/
def eventRecord (stream : σ) (ticket : Ticket) : Action σ ω Unit :=
  if answers.captures then modify (capture stream ticket) else throw .error

/-- `pooled_event_recorder::record` -/
def recorderRecord (stream : σ) : Action σ ω Ticket := do
  let result ← acquire answers
  tryCatch (eventRecord answers stream result)
    (fun e => do
      modify (release result)
      throw e)
  pure result

omit [DecidableEq σ] in
/-- `pooled_event_recorder::is_complete` -/
def recorderIsComplete (ticket : Ticket) : Action σ ω Bool := do
  let s ← get
  if answers.queries ticket then pure (s.signaled ticket) else throw .error

/-- What `cudaStreamWaitEvent` issues. -/
def scheduleWait (stream : σ) (ticket : Ticket) (s : Timelines σ ω) : Timelines σ ω :=
  match s.recorder.captured ticket with
  | some p => { s with device := s.device.issue stream (.wait p) }
  | none => s

/-- `pooled_event_recorder::enqueue_wait` -/
def recorderEnqueueWait (stream : σ) (ticket : Ticket) : Action σ ω Unit :=
  if answers.schedules then modify (scheduleWait stream ticket) else throw .error

/-! ## `stream_timeline` -/

def isKnownComplete (timeline : StreamTimeline) (id : Nat) : Bool := decide (id < timeline.firstId)

/-- What `get_point` throws. -/
def neverGave : Exn := .outOfRange "stream_timeline: The timeline never gave that id to a command."

/-- `get_point`. The index of an id that is known to be complete would wrap. -/
def getPoint (timeline : StreamTimeline) (id : Nat) : Action σ ω Ticket :=
  match if id < timeline.firstId then none else timeline.points[id - timeline.firstId]? with
  | some ticket => pure ticket
  | none => throw neverGave

/-- The loop of `drop_reached_points`, with `points` left. -/
def dropLoop (t : Timeline) : List Ticket → Action σ ω Unit
  | [] => pure ()
  | point :: points => do
      let complete ← recorderIsComplete answers point
      if complete then do
        modify fun s => (s.release point).setTimeline t
          { s.timeline t with points, firstId := (s.timeline t).firstId + 1 }
        dropLoop t points
      else pure ()

/-- `drop_reached_points`, where nobody waits. -/
def dropReachedPoints (t : Timeline) : Action σ ω Unit := do
  let s ← get
  if (s.timeline t).waiterCount = 0 then dropLoop answers t (s.timeline t).points else pure ()

/-- `m_points.push_back` -/
def pushPoint (t : Timeline) (point : Ticket) : Action σ ω Unit :=
  if answers.room then
    modify fun s => s.setTimeline t
      { s.timeline t with points := (s.timeline t).points ++ [point] }
  else throw .badAlloc

/-- `stream_timeline::record` -/
def record (t : Timeline) (stream : σ) : Action σ ω Nat := do
  dropReachedPoints answers t
  let point ← recorderRecord answers stream
  tryCatch (pushPoint answers t point)
    (fun e => do
      modify (release point)
      throw e)
  let s ← get
  pure ((s.timeline t).firstId + (s.timeline t).points.length - 1)

/-- `stream_timeline::is_complete` -/
def isComplete (t : Timeline) (id : Nat) : Action σ ω Bool := do
  let s ← get
  if isKnownComplete (s.timeline t) id then pure true
  else do
    let ticket ← getPoint (s.timeline t) id
    recorderIsComplete answers ticket

/-- `stream_timeline::wait` as far as it holds the lock: the ticket to wait
for, if there is anything to wait for. -/
def beginWait (t : Timeline) (id : Nat) : Action σ ω (Option Ticket) := do
  let s ← get
  if isKnownComplete (s.timeline t) id then pure none
  else do
    let point ← getPoint (s.timeline t) id
    modify fun s => s.setTimeline t
      { s.timeline t with waiterCount := (s.timeline t).waiterCount + 1 }
    pure (some point)

/-- `stream_timeline::end_wait` -/
def endWait (t : Timeline) (s : Timelines σ ω) : Timelines σ ω :=
  s.setTimeline t { s.timeline t with waiterCount := (s.timeline t).waiterCount - 1 }

/-- `stream_timeline::enqueue_wait` -/
def enqueueWait (waiter : σ) (t : Timeline) (id : Nat) : Action σ ω Unit := do
  let s ← get
  if isKnownComplete (s.timeline t) id then pure ()
  else do
    let ticket ← getPoint (s.timeline t) id
    recorderEnqueueWait answers waiter ticket

/-- `stream_timeline::~stream_timeline`. Another one may be constructed where
it was. -/
def destroy (t : Timeline) (s : Timelines σ ω) : Timelines σ ω :=
  { (s.timeline t).points.foldl (fun s point => s.release point) s with
    timeline := Function.update s.timeline t ⟨[], 0, 0⟩
    given := Function.update s.given t []
    returned := Function.update s.returned t [] }

/-- Whoever called `record` was given the next id. -/
def give (t : Timeline) (point : Point σ) (id : Nat) (s : Timelines σ ω) : Timelines σ ω :=
  { s with
    given := Function.update s.given t (s.given t ++ [point])
    returned := Function.update s.returned t (s.returned t ++ [id]) }

/-- What any thread does next, or a stream. Every call of `record` on a
timeline names the stream of that timeline. -/
inductive Step (streamOf : Timeline → σ) : Timelines σ ω → Timelines σ ω → Prop
  /-- `record` returns. -/
  | recorded {s a : Timelines σ ω} {answers : Answers} {t : Timeline} {id : Nat}
      (returned : record answers t (streamOf t) s = (.ok id, a)) :
      Step streamOf s (a.give t (s.device.last (streamOf t)) id)
  /-- `record` throws. -/
  | recordThrew {s a : Timelines σ ω} {answers : Answers} {t : Timeline} {e : Exn}
      (thrown : record answers t (streamOf t) s = (.error e, a)) :
      Step streamOf s a
  /-- `wait` lets go of the lock, to wait for a point. -/
  | waitBegan {s a : Timelines σ ω} {t : Timeline} {id : Nat} {ticket : Ticket}
      (began : beginWait t id s = (.ok (some ticket), a)) :
      Step streamOf s { a with waits := ⟨t, id, ticket, .begun⟩ :: a.waits }
  /-- It calls the driver. -/
  | waitCalled {s : Timelines σ ω} {before after : List (HostWait σ)} {t : Timeline} {id : Nat}
      {ticket : Ticket} {p : Point σ} (has : s.waits = before ++ ⟨t, id, ticket, .begun⟩ :: after)
      (captured : s.recorder.captured ticket = some p) :
      Step streamOf s { s with waits := before ++ ⟨t, id, ticket, .blocked p⟩ :: after }
  /-- An event that has captured nothing is not waited for. -/
  | waitSkipped {s : Timelines σ ω} {before after : List (HostWait σ)} {t : Timeline} {id : Nat}
      {ticket : Ticket} (has : s.waits = before ++ ⟨t, id, ticket, .begun⟩ :: after)
      (nothing : s.recorder.captured ticket = none) :
      Step streamOf s { s with waits := before ++ ⟨t, id, ticket, .finished true⟩ :: after }
  /-- The driver returns. -/
  | waitReturned {s : Timelines σ ω} {before after : List (HostWait σ)} {t : Timeline} {id : Nat}
      {ticket : Ticket} {p : Point σ}
      (has : s.waits = before ++ ⟨t, id, ticket, .blocked p⟩ :: after)
      (reached : s.device.Reached p) :
      Step streamOf s { s with waits := before ++ ⟨t, id, ticket, .finished true⟩ :: after }
  /-- It fails. -/
  | waitFailed {s : Timelines σ ω} {before after : List (HostWait σ)} {t : Timeline} {id : Nat}
      {ticket : Ticket} {phase : WaitPhase σ}
      (has : s.waits = before ++ ⟨t, id, ticket, phase⟩ :: after)
      (inside : ∀ returned, phase ≠ .finished returned) :
      Step streamOf s { s with waits := before ++ ⟨t, id, ticket, .finished false⟩ :: after }
  /-- `end_wait`, after which `wait` returns or throws. -/
  | waitEnded {s : Timelines σ ω} {before after : List (HostWait σ)} {t : Timeline} {id : Nat}
      {ticket : Ticket} {returned : Bool}
      (has : s.waits = before ++ ⟨t, id, ticket, .finished returned⟩ :: after) :
      Step streamOf s { s.endWait t with waits := before ++ after }
  /-- `enqueue_wait` returns or throws. -/
  | enqueued {s a : Timelines σ ω} {answers : Answers} {waiter : σ} {t : Timeline} {id : Nat}
      {result : Except Exn Unit} (asked : enqueueWait answers waiter t id s = (result, a)) :
      Step streamOf s a
  /-- Somebody issues work. -/
  | issued {s : Timelines σ ω} (stream : σ) (w : ω) :
      Step streamOf s { s with device := s.device.issue stream (.work w) }
  /-- A stream executes its oldest operation. -/
  | executed {s : Timelines σ ω} {stream : σ} {op : Op σ ω} {stamp : Nat}
      (front : s.device.At stream (s.device.line stream).executed op stamp)
      (ready : ∀ p, op = .wait p → s.device.Reached p) :
      Step streamOf s { s with device := s.device.execute stream }

/-- Timelines also come and go. Nobody is inside one that is destroyed. -/
inductive Life (streamOf : Timeline → σ) : Timelines σ ω → Timelines σ ω → Prop
  | step {s a : Timelines σ ω} (step : Step streamOf s a) : Life streamOf s a
  | destroyed {s : Timelines σ ω} {t : Timeline} (idle : ∀ w ∈ s.waits, w.timeline ≠ t) :
      Life streamOf s (s.destroy t)

end Timelines

end RexlibCuda
