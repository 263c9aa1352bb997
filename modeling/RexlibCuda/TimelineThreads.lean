import RexlibCuda.Lib.Locks
import RexlibCuda.StreamTimeline

/-! `stream_timeline` and `pooled_event_recorder` as threads run them at the
same time. A mutex is taken and let go of by calls, and every access to what it
protects is a call, as is every call of the driver. What happens between two
calls is up to the other threads and to the streams. -/

namespace RexlibCuda

open Calls Streams

/-- The mutexes of the backend. -/
inductive Mutex where
  /-- The `m_mutex` of a `memory_block_allocator`. -/
  | allocator (a : Nat)
  /-- The `m_mutex` of a `stream_timeline`. -/
  | timeline (t : Timeline)
  /-- The `m_mutex` of the `pooled_event_recorder`. -/
  | recorder
  /-- The `m_mutex` of a `cuda_buffer`. -/
  | buffer (b : Nat)
deriving DecidableEq

/-- A mutex is only taken where those that are held come before it. -/
def Mutex.rank : Mutex → Nat
  | allocator _ => 0
  | timeline _ => 1
  | recorder => 2
  | buffer _ => 2

inductive HostCall (σ ω : Type) where
  | lock (m : Mutex)
  | unlock (m : Mutex)
  /-- Memory of the host. -/
  | hostAllocate
  /-- The back of `m_available` is taken, if there is one. -/
  | takeAvailable
  /-- `m_available` gets room for one ticket more than there are events. -/
  | reserveAvailable
  /-- An `event` is constructed. -/
  | makeEvent
  /-- It joins `m_events`. -/
  | addEvent
  /-- `m_events[ticket - 1]` -/
  | eventAt (ticket : Ticket)
  /-- A ticket joins `m_available`. Which timeline drops it, if any does, is not
  stored. -/
  | giveBack (ticket : Ticket) (dropped : Option Timeline)
  /-- `cudaEventRecord` -/
  | eventRecord (ticket : Ticket) (stream : σ)
  /-- `cudaEventQuery` -/
  | eventQuery (ticket : Ticket)
  /-- `cudaEventSynchronize` is called. It waits for what the event has captured
  by then. -/
  | eventSynchronize (ticket : Ticket)
  /-- It returns. -/
  | await (p : Option (Point σ))
  /-- `cudaStreamWaitEvent` -/
  | streamWaitEvent (waiter : σ) (ticket : Ticket)
  /-- Work is issued. -/
  | issue (stream : σ) (w : ω)
  /-- The fields of a timeline are read. -/
  | fields (t : Timeline)
  /-- A point joins `m_points` at the back. -/
  | pushPoint (t : Timeline) (ticket : Ticket)
  /-- One leaves at the front, and `m_first_id` counts it. -/
  | popPoint (t : Timeline)
  /-- The id of the last point, which `record` returns. Who is told which id is
  not stored. -/
  | lastId (t : Timeline)
  /-- `m_waiter_count` grows. Which command is waited for is not stored. -/
  | addWaiter (t : Timeline) (id : Nat) (ticket : Ticket)
  /-- It gets smaller. -/
  | removeWaiter (t : Timeline) (id : Nat) (ticket : Ticket)
  /-- A token joins the `m_uses` of a buffer. -/
  | recordUse (b : Nat)

/-- What a call is answered. `false` and `none` are failures, but where a buffer
waits for nothing or the pool is empty. -/
abbrev HostCall.Answer {σ ω : Type} : HostCall σ ω → Type
  | hostAllocate | reserveAvailable | makeEvent | eventRecord _ _ | await _ | streamWaitEvent _ _
  | recordUse _ => Bool
  | takeAvailable => Option Ticket
  | addEvent => Ticket
  | lastId _ => Nat
  | eventQuery _ => Option Bool
  | eventSynchronize _ => Option (Point σ)
  | fields _ => StreamTimeline
  | _ => Unit

/-- What a call does to the mutexes. -/
def HostCall.use {σ ω : Type} : HostCall σ ω → LockUse Mutex
  | lock m => .takes m
  | unlock m => .frees m
  | _ => .none

/-- The mutex that protects what a call reads or writes. -/
def HostCall.touches {σ ω : Type} : HostCall σ ω → Option Mutex
  | takeAvailable | reserveAvailable | addEvent | eventAt _ | giveBack _ _ => some .recorder
  | fields t | pushPoint t _ | popPoint t | lastId t | addWaiter t _ _ | removeWaiter t _ _ =>
      some (.timeline t)
  | recordUse b => some (.buffer b)
  | _ => none

abbrev Host (σ ω α : Type) := Calls (HostCall σ ω) HostCall.Answer Exn α

namespace Host

variable {σ ω α : Type}

/-- Make a call. -/
def request (c : HostCall σ ω) : Host σ ω c.Answer := Calls.ask c

/-- `body` in the scope of a `std::lock_guard`. -/
def underMutex (m : Mutex) (body : Host σ ω α) : Host σ ω α :=
  Calls.locked (.lock m) (.unlock m) body

/-- Memory of the host is there, or `std::bad_alloc` is thrown. -/
def granted (success : Bool) : Host σ ω Unit := if success then pure () else .throw .badAlloc

def hostMemory : Host σ ω Unit := do
  let answer ← request .hostAllocate
  granted answer

/-- `REXLIB_CUDA_CHECK` of a call that succeeds or fails. -/
def checked (success : Bool) : Host σ ω Unit := if success then pure () else .throw .error

/-! ## `pooled_event_recorder` -/

/-- `pooled_event_recorder::create` -/
def create : Host σ ω Ticket := do
  let reserved ← request .reserveAvailable
  granted reserved
  hostMemory -- room for the event in `m_events`
  let made ← request .makeEvent
  checked made
  request .addEvent

/-- `pooled_event_recorder::acquire` -/
def acquire : Host σ ω Ticket := underMutex .recorder do
  let available ← request .takeAvailable
  match available with
  | some ticket => pure ticket
  | none => create

/-- `pooled_event_recorder::get_event` -/
def getEvent (ticket : Ticket) : Host σ ω Unit := underMutex .recorder (request (.eventAt ticket))

/-- `pooled_event_recorder::release` -/
def release (ticket : Ticket) (dropped : Option Timeline) : Host σ ω Unit :=
  if ticket = noTicket then pure ()
  else underMutex .recorder (request (.giveBack ticket dropped))

/-- `pooled_event_recorder::record` -/
def recorderRecord (stream : σ) : Host σ ω Ticket := do
  let result ← acquire
  Calls.tryCatch
    (do
      getEvent result
      let recorded ← request (.eventRecord result stream)
      checked recorded)
    (fun e => do
      release result none
      .throw e)
  pure result

/-- `pooled_event_recorder::is_complete` -/
def recorderIsComplete (ticket : Ticket) : Host σ ω Bool := do
  getEvent ticket
  let answer ← request (.eventQuery ticket)
  match answer with
  | some complete => pure complete
  | none => .throw .error

/-- `pooled_event_recorder::wait` -/
def recorderWait (ticket : Ticket) : Host σ ω Unit := do
  getEvent ticket
  let p ← request (.eventSynchronize ticket)
  let returned ← request (.await p)
  checked returned

/-- `pooled_event_recorder::enqueue_wait` -/
def recorderEnqueueWait (waiter : σ) (ticket : Ticket) : Host σ ω Unit := do
  getEvent ticket
  let scheduled ← request (.streamWaitEvent waiter ticket)
  checked scheduled

/-! ## `stream_timeline` -/

/-- `stream_timeline::get_point`. The index of an id that is known to be
complete would wrap. -/
def getPoint (timeline : StreamTimeline) (id : Nat) : Host σ ω Ticket :=
  match if id < timeline.firstId then none else timeline.points[id - timeline.firstId]? with
  | some ticket => pure ticket
  | none => .throw Timelines.neverGave

/-- The loop of `drop_reached_points`, with `points` left. -/
def dropLoop (t : Timeline) : List Ticket → Host σ ω Unit
  | [] => pure ()
  | point :: points => do
      let complete ← recorderIsComplete point
      if complete then do
        release point (some t)
        request (.popPoint t)
        dropLoop t points
      else pure ()

/-- `stream_timeline::drop_reached_points`, where nobody waits. -/
def dropReachedPoints (t : Timeline) : Host σ ω Unit := do
  let timeline ← request (.fields t)
  if timeline.waiterCount = 0 then dropLoop t timeline.points else pure ()

/-- `m_points.push_back` -/
def pushPoint (t : Timeline) (point : Ticket) : Host σ ω Unit := do
  hostMemory
  request (.pushPoint t point)

/-- `stream_timeline::record` -/
def record (t : Timeline) (stream : σ) : Host σ ω Nat := underMutex (.timeline t) do
  dropReachedPoints t
  let point ← recorderRecord stream
  Calls.tryCatch (pushPoint t point)
    (fun e => do
      release point none
      .throw e)
  request (.lastId t)

/-- `stream_timeline::is_complete` -/
def isComplete (t : Timeline) (id : Nat) : Host σ ω Bool := underMutex (.timeline t) do
  let timeline ← request (.fields t)
  if Timelines.isKnownComplete timeline id then pure true
  else do
    let point ← getPoint timeline id
    recorderIsComplete point

/-- `stream_timeline::wait` as far as it holds the lock: the point to wait for,
if there is anything to wait for. -/
def beginWait (t : Timeline) (id : Nat) : Host σ ω (Option Ticket) := underMutex (.timeline t) do
  let timeline ← request (.fields t)
  if Timelines.isKnownComplete timeline id then pure none
  else do
    let point ← getPoint timeline id
    request (.addWaiter t id point)
    pure (some point)

/-- `stream_timeline::end_wait` -/
def endWait (t : Timeline) (id : Nat) (point : Ticket) : Host σ ω Unit :=
  underMutex (.timeline t) (request (.removeWaiter t id point))

/-- `stream_timeline::wait` -/
def wait (t : Timeline) (id : Nat) : Host σ ω Unit := do
  let began ← beginWait t id
  match began with
  | none => pure ()
  | some point => do
      Calls.tryCatch (recorderWait point)
        (fun e => do
          endWait t id point
          .throw e)
      endWait t id point

/-- `stream_timeline::enqueue_wait` -/
def enqueueWait (waiter : σ) (t : Timeline) (id : Nat) : Host σ ω Unit :=
  underMutex (.timeline t) do
    let timeline ← request (.fields t)
    if Timelines.isKnownComplete timeline id then pure ()
    else do
      let point ← getPoint timeline id
      recorderEnqueueWait waiter point

end Host

/-! ## What the threads do -/

inductive HostOperation (σ ω : Type) where
  /-- `record`, which names the stream of the timeline. -/
  | record (t : Timeline)
  | isComplete (t : Timeline) (id : Nat)
  | wait (t : Timeline) (id : Nat)
  | enqueueWait (waiter : σ) (t : Timeline) (id : Nat)
  /-- Somebody issues work. -/
  | issue (stream : σ) (w : ω)
  /-- `cuda_buffer::record_use`, of which only the lock matters here. -/
  | recordUse (b : Nat)

/-- What an operation returns. -/
inductive HostOutcome where
  | gave (id : Nat)
  | complete (complete : Bool)
  | done

variable {σ ω : Type}

def HostOperation.program (streamOf : Timeline → σ) : HostOperation σ ω → Host σ ω HostOutcome
  | record t => do
      let id ← Host.record t (streamOf t)
      pure (.gave id)
  | isComplete t id => do
      let complete ← Host.isComplete t id
      pure (.complete complete)
  | wait t id => do
      Host.wait t id
      pure .done
  | enqueueWait waiter t id => do
      Host.enqueueWait waiter t id
      pure .done
  | issue stream w => do
      Host.request (.issue stream w)
      pure .done
  | recordUse b => Host.underMutex (.buffer b) do
      let recorded ← Host.request (.recordUse b)
      Host.granted recorded
      pure .done

/-- What a thread does: one operation after another, where what one returns or
throws decides what comes next. -/
inductive Client (σ ω : Type) where
  | done
  | ask (operation : HostOperation σ ω) (next : Except Exn HostOutcome → Client σ ω)

/-- An operation, and how it went. -/
abbrev Transcript (σ ω : Type) := List (HostOperation σ ω × Except Exn HostOutcome)

def Client.program (streamOf : Timeline → σ) : Client σ ω → Host σ ω (Transcript σ ω)
  | done => pure []
  | ask operation next => do
      let outcome ← Calls.tryCatch
        (do
          let outcome ← operation.program streamOf
          pure (Except.ok outcome))
        (fun e => pure (Except.error e))
      let later ← (next outcome).program streamOf
      pure ((operation, outcome) :: later)

/-- A client that has the lock of an allocator all along, as `allocate`,
`recycle` and `trim` have, or none. -/
def Client.programUnder (streamOf : Timeline → σ) (client : Client σ ω) :
    Option Nat → Host σ ω (Transcript σ ω)
  | none => client.program streamOf
  | some a => Host.underMutex (.allocator a) (client.program streamOf)

end RexlibCuda
