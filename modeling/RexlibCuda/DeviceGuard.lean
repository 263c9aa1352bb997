import RexlibCuda.CudaDeviceBackend
import RexlibCuda.Lib.Threads
import RexlibCuda.StreamTimeline

/-! `device_guard`, and what the backend does under one: creating events,
streams and the heaps of a device. Each call to the driver is a step of its
own, as is what is done under the lock of a `pooled_event_recorder`, so that
other threads may come between any two of them. -/

namespace RexlibCuda

open Calls

/-- `cudaError_t`, as far as the code tells its values apart. -/
inductive CudaError where
  /-- `cudaSuccess` -/
  | success
  /-- `cudaErrorMemoryAllocation` -/
  | memoryAllocation
  /-- `cudaErrorNotReady` -/
  | notReady
  | other
  deriving DecidableEq

/-- The name of something the driver has made. None is given twice. -/
abbrev Handle := Nat

/-- `event` -/
structure CudaEvent where
  /-- `m_event` -/
  handle : Handle
  /-- `m_ordinal` -/
  ordinal : Int

/-- `cuda_command_queue` -/
structure CudaCommandQueue where
  /-- `m_ordinal` -/
  ordinal : Int
  /-- The `m_recorder` of `m_timeline`, by its place among the recorders. -/
  recorder : Nat
  /-- `m_stream` -/
  stream : Handle

/-- `cuda_device`, as the threads share it. -/
structure DeviceHandle where
  /-- `m_ordinal` -/
  ordinal : Int
  /-- `m_events`, by its place among the recorders. -/
  events : Nat
  /-- The `m_ordinal` of `m_memory`, unless it is null. -/
  memory : Option Int

/-- What the driver is asked to make. -/
inductive Making where
  /-- `cudaEventCreateWithFlags` -/
  | event
  /-- `cudaStreamCreateWithFlags` -/
  | stream
  /-- `cudaMalloc` -/
  | deviceMemory (size : Nat)
  /-- `cudaHostAlloc`, always with `cudaHostAllocPortable`. -/
  | pinnedMemory (size : Nat) (mapped : Bool)

/-- A call to the driver that is answered with a return code and no more. -/
inductive DriverCall where
  | eventDestroy (event : Handle)
  | eventRecord (event stream : Handle)
  | eventQuery (event : Handle)
  | eventSynchronize (event : Handle)
  | streamDestroy (stream : Handle)
  | streamSynchronize (stream : Handle)
  | streamWaitEvent (stream event : Handle)
  | free (data : Handle)
  | freeHost (data : Handle)

/-- A call to the driver, to the host for memory, or to what the threads have in
common. A recorder is named by its place among the recorders. -/
inductive BackendCall where
  | getDevice
  | setDevice (ordinal : Int)
  | make (what : Making)
  | driver (c : DriverCall)
  /-- Memory of the host, for an object or for an element of a container. -/
  | hostAllocate
  /-- A `pooled_event_recorder` comes to be. -/
  | addRecorder (ordinal : Int)
  /-- The back of `m_available` is taken, if there is one. -/
  | takeAvailable (recorder : Nat)
  /-- An event joins `m_events`. -/
  | addEvent (recorder : Nat) (event : CudaEvent)
  /-- `m_events[ticket - 1]` -/
  | eventAt (recorder : Nat) (ticket : Ticket)
  /-- A ticket joins `m_available`. -/
  | giveBack (recorder : Nat) (ticket : Ticket)
  /-- A `cuda_command_queue` comes to be. -/
  | addQueue (queue : CudaCommandQueue)
  /-- `pinned_memory_resource::get().get_kind()` -/
  | getPinnedKind
  /-- A `cuda_device` comes to be. -/
  | addDevice (device : DeviceHandle)

/-- What a call is answered. What a failing call of the driver leaves in its
output is not read. -/
abbrev BackendCall.Answer : BackendCall → Type
  | getDevice => CudaError × Int
  | setDevice _ | driver _ => CudaError
  | make _ => CudaError × Handle
  | hostAllocate => Bool
  | addRecorder _ => Nat
  | takeAvailable _ => Option Ticket
  | addEvent _ _ => Ticket
  | eventAt _ _ => CudaEvent
  | giveBack _ _ | addQueue _ | addDevice _ => Unit
  | getPinnedKind => MemoryResourceKind

abbrev Backend (α : Type) := Calls BackendCall BackendCall.Answer Exn α

/-- Make a call. -/
def request (c : BackendCall) : Backend c.Answer := Calls.ask c

/-! ## `error.cpp` -/

def check (code : CudaError) : Backend Unit :=
  if code ≠ .success then .throw .error else pure ()

def checkAllocation (code : CudaError) : Backend Unit :=
  if code = .memoryAllocation then .throw .badAlloc else check code

/-- What is reported on `stderr` is left out. -/
def checkNoThrow (_ : CudaError) : Backend Unit := pure ()

/-- Memory of the host, or `std::bad_alloc`. -/
def hostMemory : Backend Unit := do
  let granted ← request .hostAllocate
  if granted then pure () else .throw .badAlloc

/-! ## `device_guard` -/

namespace DeviceGuard

/-- `no_selection` -/
def noSelection : Int := -1

/-- The constructor. It returns `m_previous`. -/
def construct (ordinal : Int) : Backend Int := do
  let (code, previous) ← request .getDevice
  check code
  if previous ≠ ordinal then do
    let code ← request (.setDevice ordinal)
    check code
    pure previous
  else pure noSelection

/-- The destructor. -/
def destruct (previous : Int) : Backend Unit :=
  if previous ≠ noSelection then do
    let code ← request (.setDevice previous)
    checkNoThrow code
  else pure ()

/-- `body` in the scope of a guard. -/
def scope {α : Type} (ordinal : Int) (body : Backend α) : Backend α := do
  let previous ← construct ordinal
  body.andFinally (destruct previous)

end DeviceGuard

/-- Have the driver make something. `checked` is how the return code is
checked. -/
def makeChecked (checked : CudaError → Backend Unit) (what : Making) : Backend Handle := do
  let (code, handle) ← request (.make what)
  checked code
  pure handle

/-- So under a guard. -/
def makeOn (ordinal : Int) (checked : CudaError → Backend Unit) (what : Making) :
    Backend Handle :=
  DeviceGuard.scope ordinal (makeChecked checked what)

/-! ## `event` -/

namespace CudaEvent

/-- The constructor. -/
def construct (ordinal : Int) : Backend CudaEvent := do
  let handle ← makeOn ordinal check .event
  pure ⟨handle, ordinal⟩

/-- The destructor. -/
def destruct (event : CudaEvent) : Backend Unit := do
  let code ← request (.driver (.eventDestroy event.handle))
  checkNoThrow code

def wait (event : CudaEvent) : Backend Unit := do
  let code ← request (.driver (.eventSynchronize event.handle))
  check code

def isSignaled (event : CudaEvent) : Backend Bool := do
  let code ← request (.driver (.eventQuery event.handle))
  match code with
  | .success => pure true
  | .notReady => pure false
  | code => do
      check code
      pure false

end CudaEvent

/-! ## `pooled_event_recorder` -/

namespace PooledEventRecorder

/-- `create`, where `ordinal` is `m_ordinal`. -/
def createOn (recorder : Nat) (ordinal : Int) : Backend Ticket := do
  hostMemory -- `m_available.reserve`
  hostMemory -- room for the event in `m_events`
  let event ← CudaEvent.construct ordinal
  request (.addEvent recorder event)

def acquireOn (recorder : Nat) (ordinal : Int) : Backend Ticket := do
  let available ← request (.takeAvailable recorder)
  match available with
  | some ticket => pure ticket
  | none => createOn recorder ordinal

def getEvent (recorder : Nat) (ticket : Ticket) : Backend CudaEvent := request (.eventAt recorder ticket)

def releaseTo (recorder : Nat) (ticket : Ticket) : Backend Unit :=
  if ticket = noTicket then pure () else request (.giveBack recorder ticket)

def recordOn (recorder : Nat) (ordinal : Int) (stream : Handle) : Backend Ticket := do
  let result ← acquireOn recorder ordinal
  Calls.tryCatch
    (do
      let event ← getEvent recorder result
      let code ← request (.driver (.eventRecord event.handle stream))
      check code)
    (fun e => do
      releaseTo recorder result
      .throw e)
  pure result

def isComplete (recorder : Nat) (ticket : Ticket) : Backend Bool := do
  let event ← getEvent recorder ticket
  event.isSignaled

def wait (recorder : Nat) (ticket : Ticket) : Backend Unit := do
  let event ← getEvent recorder ticket
  event.wait

def enqueueWait (recorder : Nat) (stream : Handle) (ticket : Ticket) : Backend Unit := do
  let event ← getEvent recorder ticket
  let code ← request (.driver (.streamWaitEvent stream event.handle))
  check code

end PooledEventRecorder

/-! ## `cuda_command_queue` and `cuda_device` -/

namespace CudaCommandQueue

/-- The constructor, with that of the `stream_timeline`. -/
def construct (ordinal : Int) : Option Nat → Backend CudaCommandQueue
  | none => do
      hostMemory
      .throw (.invalidArgument
        "stream_timeline::stream_timeline: An event recorder is required.")
  | some recorder => do
      hostMemory
      let stream ← makeOn ordinal check .stream
      pure ⟨ordinal, recorder, stream⟩

/-- The destructor. -/
def destruct (queue : CudaCommandQueue) : Backend Unit := do
  let code ← request (.driver (.streamDestroy queue.stream))
  checkNoThrow code

def synchronize (queue : CudaCommandQueue) : Backend Unit := do
  let code ← request (.driver (.streamSynchronize queue.stream))
  check code

end CudaCommandQueue

namespace CudaDevice

/-- `m_events`, as the constructor makes it. -/
def makeEvents (ordinal : Int) : Backend Nat := do
  hostMemory
  request (.addRecorder ordinal)

/-- `m_memory`, as the constructor makes it. -/
def makeMemory (ordinal : Int) : Backend (Option Int) := do
  let kind ← request .getPinnedKind
  if kind ≠ .unified then do
    hostMemory
    pure (some ordinal)
  else pure none

/-- The constructor. -/
def construct (ordinal : Int) : Backend DeviceHandle := do
  let events ← makeEvents ordinal
  let memory ← makeMemory ordinal
  pure ⟨ordinal, events, memory⟩

/-- `std::make_shared<cuda_device>`, the last thing `create_device` does. -/
def makeShared (ordinal : Int) : Backend Unit := do
  hostMemory
  let device ← construct ordinal
  request (.addDevice device)

def createCommandQueue (device : DeviceHandle) : Backend Unit := do
  hostMemory
  let queue ← CudaCommandQueue.construct device.ordinal (some device.events)
  request (.addQueue queue)

end CudaDevice

/-! ## The memory sources -/

/-- `device_memory_source::allocate`, where `ordinal` is `m_ordinal`. -/
def DeviceMemorySource.allocate (ordinal : Int) (size : Nat) : Backend Handle :=
  makeOn ordinal checkAllocation (.deviceMemory size)

def DeviceMemorySource.deallocate (data : Handle) : Backend Unit := do
  let code ← request (.driver (.free data))
  checkNoThrow code

/-- `pinned_memory_source::allocate`, where `mapped` is `m_mapped`. It needs no
device: the memory is portable. -/
def PinnedMemorySource.allocate (mapped : Bool) (size : Nat) : Backend Handle :=
  makeChecked checkAllocation (.pinnedMemory size mapped)

def PinnedMemorySource.deallocate (data : Handle) : Backend Unit := do
  let code ← request (.driver (.freeHost data))
  checkNoThrow code

end RexlibCuda
