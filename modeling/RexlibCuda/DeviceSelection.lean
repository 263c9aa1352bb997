import RexlibCuda.DeviceGuard

/-! What holds while any number of threads make and use the objects of several
devices: which device each object is of, and what becomes of the device a
thread had selected. -/

namespace RexlibCuda

open Calls

/-! ## What the threads share -/

/-- Where what the driver has made is. -/
inductive Home where
  | device (ordinal : Int)
  /-- Page-locked memory, which every device can use. -/
  | host

/-- Where the driver makes something when the device is selected. -/
def Making.home (ordinal : Int) : Making → Home
  | pinnedMemory _ _ => .host
  | _ => .device ordinal

/-- The events and the free tickets of a `pooled_event_recorder`. -/
structure EventPool where
  /-- `m_ordinal` -/
  ordinal : Int
  /-- `m_events` -/
  events : List CudaEvent
  /-- `m_available`, its back first. -/
  available : List Ticket

/-- The ticket is one of an event. -/
def EventPool.Has (pool : EventPool) (ticket : Ticket) : Prop :=
  0 < ticket ∧ ticket ≤ pool.events.length

/-- The driver and the objects of the backend, for threads `Θ`. -/
structure Devices (Θ : Type) where
  /-- The device each thread has selected. -/
  current : Θ → Int
  /-- How many calls of `cudaSetDevice` have failed in each thread. -/
  failures : Θ → Nat
  made : Handle → Option Home
  /-- What each thread has had made and nothing owns yet, latest first. -/
  loose : Θ → List Handle
  recorders : List EventPool
  devices : List DeviceHandle
  queues : List CudaCommandQueue
  /-- The `m_kind` of the one `pinned_memory_resource`. -/
  pinnedKind : MemoryResourceKind
  /-- What `cudaEventRecord` was called with: the event and the stream. -/
  recorded : List (Handle × Handle)

namespace Devices

variable {Θ : Type} {θ θ' : Θ} {s t u : Devices Θ}

section Does

variable [DecidableEq Θ]

def select (θ : Θ) (ordinal : Int) (s : Devices Θ) : Devices Θ :=
  { s with current := Function.update s.current θ ordinal }

def fail (θ : Θ) (s : Devices Θ) : Devices Θ :=
  { s with failures := Function.update s.failures θ (s.failures θ + 1) }

/-- The thread has had something made. -/
def gain (θ : Θ) (handle : Handle) (home : Home) (s : Devices Θ) : Devices Θ :=
  { s with
    made := Function.update s.made handle (some home)
    loose := Function.update s.loose θ (handle :: s.loose θ) }

/-- What the thread has had made has an owner now. -/
def owned (θ : Θ) (handle : Handle) (s : Devices Θ) : Devices Θ :=
  { s with loose := Function.update s.loose θ ((s.loose θ).erase handle) }

def setRecorder (recorder : Nat) (pool : EventPool) (s : Devices Θ) : Devices Θ :=
  { s with recorders := s.recorders.set recorder pool }

/-- What a call of the driver leaves behind here. -/
def note (s : Devices Θ) : DriverCall → Devices Θ
  | .eventRecord event stream => { s with recorded := (event, stream) :: s.recorded }
  | _ => s

/-- **What a call may do, and how it may be answered.** Every call of the driver
may fail. One that selects a device may then have selected it or not. -/
inductive Does (θ : Θ) : Devices Θ → (c : BackendCall) → c.Answer → Devices Θ → Prop
  | gotDevice {s : Devices Θ} {code : CudaError} {ordinal : Int}
      (told : code = .success → ordinal = s.current θ) :
      Does θ s .getDevice (code, ordinal) s
  | selected {s : Devices Θ} {ordinal : Int} (exist : 0 ≤ ordinal) :
      Does θ s (.setDevice ordinal) .success (s.select θ ordinal)
  | notSelected {s : Devices Θ} {ordinal left : Int} {code : CudaError} (failed : code ≠ .success)
      (left_ : left = s.current θ ∨ left = ordinal ∧ 0 ≤ ordinal) :
      Does θ s (.setDevice ordinal) code ((s.select θ left).fail θ)
  | made {s : Devices Θ} {what : Making} {handle : Handle} (fresh : s.made handle = none) :
      Does θ s (.make what) (.success, handle) (s.gain θ handle (what.home (s.current θ)))
  | notMade {s : Devices Θ} {what : Making} {code : CudaError} {handle : Handle}
      (failed : code ≠ .success) :
      Does θ s (.make what) (code, handle) s
  | called {s : Devices Θ} {c : DriverCall} {code : CudaError} :
      Does θ s (.driver c) code (s.note c)
  | hostAllocated {s : Devices Θ} {granted : Bool} : Does θ s .hostAllocate granted s
  | recorderAdded {s : Devices Θ} {ordinal : Int} :
      Does θ s (.addRecorder ordinal) s.recorders.length
        { s with recorders := s.recorders ++ [⟨ordinal, [], []⟩] }
  | taken {s : Devices Θ} {recorder : Nat} {pool : EventPool}
      (has : s.recorders[recorder]? = some pool) :
      Does θ s (.takeAvailable recorder) pool.available.head?
        (s.setRecorder recorder { pool with available := pool.available.tail })
  | eventAdded {s : Devices Θ} {recorder : Nat} {pool : EventPool} {event : CudaEvent}
      (has : s.recorders[recorder]? = some pool) :
      Does θ s (.addEvent recorder event) (pool.events.length + 1)
        ((s.setRecorder recorder { pool with events := pool.events ++ [event] }).owned θ
          event.handle)
  | gotEvent {s : Devices Θ} {recorder : Nat} {pool : EventPool} {ticket : Ticket}
      {event : CudaEvent} (has : s.recorders[recorder]? = some pool)
      (at_ : pool.events[ticket - 1]? = some event) :
      Does θ s (.eventAt recorder ticket) event s
  | gaveBack {s : Devices Θ} {recorder : Nat} {pool : EventPool} {ticket : Ticket}
      (has : s.recorders[recorder]? = some pool) :
      Does θ s (.giveBack recorder ticket) ()
        (s.setRecorder recorder { pool with available := ticket :: pool.available })
  | queueAdded {s : Devices Θ} {queue : CudaCommandQueue} :
      Does θ s (.addQueue queue) ()
        (Devices.owned θ queue.stream { s with queues := s.queues ++ [queue] })
  | gotKind {s : Devices Θ} : Does θ s .getPinnedKind s.pinnedKind s
  | deviceAdded {s : Devices Θ} {device : DeviceHandle} :
      Does θ s (.addDevice device) () { s with devices := s.devices ++ [device] }

end Does

/-! ## What holds between any two calls -/

/-- A recorder is there, and serves the device. -/
def Serves (s : Devices Θ) (recorder : Nat) (ordinal : Int) : Prop :=
  ∃ pool, s.recorders[recorder]? = some pool ∧ pool.ordinal = ordinal

/-- What a device makes queues and memory with is of that device. -/
def Outfits (s : Devices Θ) (device : DeviceHandle) : Prop :=
  s.Serves device.events device.ordinal ∧ ∀ ordinal ∈ device.memory, ordinal = device.ordinal

/-- It has an event for the ticket. -/
def HasTicket (s : Devices Θ) (recorder : Nat) (ticket : Ticket) : Prop :=
  ∃ pool, s.recorders[recorder]? = some pool ∧ pool.Has ticket

/-- **Every object is of the device it is for**, whatever its threads have
selected. -/
structure Coherent (s : Devices Θ) : Prop where
  selected : ∀ θ, 0 ≤ s.current θ
  events : ∀ pool ∈ s.recorders, ∀ event ∈ pool.events,
    event.ordinal = pool.ordinal ∧ s.made event.handle = some (.device event.ordinal)
  available : ∀ pool ∈ s.recorders, ∀ ticket ∈ pool.available, pool.Has ticket
  devices : ∀ device ∈ s.devices, s.Outfits device
  queues : ∀ queue ∈ s.queues, s.made queue.stream = some (.device queue.ordinal) ∧
    s.Serves queue.recorder queue.ordinal
  recorded : ∀ x ∈ s.recorded, ∃ ordinal, s.made x.1 = some (.device ordinal) ∧
    s.made x.2 = some (.device ordinal)

/-- What has been made stays what it is, and recorders keep their events. -/
structure Grows (s t : Devices Θ) : Prop where
  made : ∀ h home, s.made h = some home → t.made h = some home
  recorders : ∀ (r : Nat) (pool : EventPool), s.recorders[r]? = some pool →
    ∃ pool', t.recorders[r]? = some pool' ∧ pool'.ordinal = pool.ordinal ∧
      pool.events <+: pool'.events

/-- What is a thread's own. -/
structure SameOwn (θ : Θ) (s t : Devices Θ) : Prop where
  current : t.current θ = s.current θ
  failures : t.failures θ = s.failures θ
  loose : t.loose θ = s.loose θ

/-- What the calls ask of those who make them. -/
def Demands (s : Devices Θ) : BackendCall → Prop
  | .takeAvailable recorder => ∃ ordinal, s.Serves recorder ordinal
  | .addEvent recorder event => s.Serves recorder event.ordinal ∧
      s.made event.handle = some (.device event.ordinal)
  | .eventAt recorder ticket => s.HasTicket recorder ticket
  | .giveBack recorder ticket => s.HasTicket recorder ticket
  | .addQueue queue => s.made queue.stream = some (.device queue.ordinal) ∧
      s.Serves queue.recorder queue.ordinal
  | .addDevice device => s.Outfits device
  -- an event can only be recorded on a stream of its device
  | .driver (.eventRecord event stream) => ∃ ordinal, s.made event = some (.device ordinal) ∧
      s.made stream = some (.device ordinal)
  | _ => True

theorem Grows.refl (s : Devices Θ) : s.Grows s :=
  ⟨fun _ _ h => h, fun _ pool h => ⟨pool, h, rfl, List.prefix_rfl⟩⟩

theorem Grows.trans (h : s.Grows t) (h' : t.Grows u) : s.Grows u where
  made g home hg := h'.made g home (h.made g home hg)
  recorders r pool hr := by
    obtain ⟨pool', hr', hord, hpre⟩ := h.recorders r pool hr
    obtain ⟨pool'', hr'', hord', hpre'⟩ := h'.recorders r pool' hr'
    exact ⟨pool'', hr'', hord'.trans hord, hpre.trans hpre'⟩

/-- A recorder that keeps its device and its events is as good as before. -/
theorem grows_setRecorder {r : Nat} {pool pool' : EventPool} (has : s.recorders[r]? = some pool)
    (hord : pool'.ordinal = pool.ordinal) (hpre : pool.events <+: pool'.events) :
    s.Grows (s.setRecorder r pool') where
  made _ _ h := h
  recorders r' before hr' := by
    by_cases heq : r = r'
    · subst heq
      rw [has] at hr'
      cases hr'
      have hlt := (List.getElem?_eq_some_iff.mp has).1
      exact ⟨pool', List.getElem?_set_self hlt, hord, hpre⟩
    · exact ⟨before, by rw [setRecorder, List.getElem?_set_ne heq]; exact hr', rfl, List.prefix_rfl⟩

/-- A recorder that joins changes none of the others. -/
theorem grows_addRecorder (ordinal : Int) :
    s.Grows { s with recorders := s.recorders ++ [⟨ordinal, [], []⟩] } where
  made _ _ h := h
  recorders r pool hr := by
    refine ⟨pool, ?_, rfl, List.prefix_rfl⟩
    rw [List.getElem?_append_left (List.getElem?_eq_some_iff.mp hr).1]
    exact hr

theorem Serves.grows {r : Nat} {ordinal : Int} (h : s.Serves r ordinal) (hg : s.Grows t) :
    t.Serves r ordinal := by
  obtain ⟨pool, hr, hord⟩ := h
  obtain ⟨pool', hr', hord', -⟩ := hg.recorders r pool hr
  exact ⟨pool', hr', hord'.trans hord⟩

theorem Outfits.grows {device : DeviceHandle} (h : s.Outfits device) (hg : s.Grows t) :
    t.Outfits device :=
  ⟨h.1.grows hg, h.2⟩

theorem HasTicket.grows {r : Nat} {ticket : Ticket} (h : s.HasTicket r ticket) (hg : s.Grows t) :
    t.HasTicket r ticket := by
  obtain ⟨pool, hr, hpos, hle⟩ := h
  obtain ⟨pool', hr', -, hpre⟩ := hg.recorders r pool hr
  exact ⟨pool', hr', hpos, Nat.le_trans hle hpre.length_le⟩

/-- Where the recorders stay as they are, what has been said of objects that
stay is still true. -/
theorem Coherent.grow (h : s.Coherent) (hg : s.Grows t) (hselected : ∀ θ, 0 ≤ t.current θ)
    (hrecorders : t.recorders = s.recorders) (hdevices : t.devices = s.devices)
    (hqueues : t.queues = s.queues) (hrecorded : t.recorded = s.recorded) : t.Coherent where
  selected := hselected
  events pool hpool event hevent := by
    obtain ⟨hord, hmade⟩ := h.events pool (hrecorders ▸ hpool) event hevent
    exact ⟨hord, hg.made _ _ hmade⟩
  available pool hpool := h.available pool (hrecorders ▸ hpool)
  devices device hdevice := (h.devices device (hdevices ▸ hdevice)).grows hg
  queues queue hqueue := by
    obtain ⟨hmade, hserves⟩ := h.queues queue (hqueues ▸ hqueue)
    exact ⟨hg.made _ _ hmade, hserves.grows hg⟩
  recorded x hx := by
    obtain ⟨ordinal, he, hs⟩ := h.recorded x (hrecorded ▸ hx)
    exact ⟨ordinal, hg.made _ _ he, hg.made _ _ hs⟩

/-- One recorder changes. -/
theorem Coherent.setRecorder (h : s.Coherent) {r : Nat} {pool' : EventPool}
    (hg : s.Grows (s.setRecorder r pool'))
    (hevents : ∀ event ∈ pool'.events, event.ordinal = pool'.ordinal ∧
      s.made event.handle = some (.device event.ordinal))
    (havailable : ∀ ticket ∈ pool'.available, pool'.Has ticket) :
    (s.setRecorder r pool').Coherent where
  selected := h.selected
  events pool hpool := by
    rcases List.mem_or_eq_of_mem_set hpool with hpool | rfl
    · exact h.events pool hpool
    · exact hevents
  available pool hpool := by
    rcases List.mem_or_eq_of_mem_set hpool with hpool | rfl
    · exact h.available pool hpool
    · exact havailable
  devices device hdevice := (h.devices device hdevice).grows hg
  queues queue hqueue := by
    obtain ⟨hmade, hserves⟩ := h.queues queue hqueue
    exact ⟨hmade, hserves.grows hg⟩
  recorded := h.recorded

/-- A recorder joins, which has no events yet. -/
theorem Coherent.addRecorder (h : s.Coherent) (ordinal : Int) :
    ({ s with recorders := s.recorders ++ [⟨ordinal, [], []⟩] } : Devices Θ).Coherent where
  selected := h.selected
  events pool hpool event hevent := by
    rcases List.mem_append.mp hpool with hpool | hpool
    · exact h.events pool hpool event hevent
    · simp [List.mem_singleton.mp hpool] at hevent
  available pool hpool ticket hticket := by
    rcases List.mem_append.mp hpool with hpool | hpool
    · exact h.available pool hpool ticket hticket
    · simp [List.mem_singleton.mp hpool] at hticket
  devices device hdevice := (h.devices device hdevice).grows (grows_addRecorder ordinal)
  queues queue hqueue := by
    obtain ⟨hmade, hserves⟩ := h.queues queue hqueue
    exact ⟨hmade, hserves.grows (grows_addRecorder ordinal)⟩
  recorded := h.recorded

/-- An event of its device joins a recorder. -/
theorem Coherent.addEvent (h : s.Coherent) {r : Nat} {pool : EventPool} {event : CudaEvent}
    (has : s.recorders[r]? = some pool) (hserves : s.Serves r event.ordinal)
    (hmade : s.made event.handle = some (.device event.ordinal)) :
    (s.setRecorder r { pool with events := pool.events ++ [event] }).Coherent := by
  have hmem := List.mem_of_getElem? has
  obtain ⟨pool', has', hord⟩ := hserves
  rw [has] at has'
  cases has'
  refine h.setRecorder (grows_setRecorder has rfl (List.prefix_append ..)) ?_ ?_
  · intro e he
    rcases List.mem_append.mp he with he | he
    · exact h.events pool hmem e he
    · obtain rfl := List.mem_singleton.mp he
      exact ⟨hord.symm, hmade⟩
  · intro ticket hticket
    obtain ⟨hpos, hle⟩ := h.available pool hmem ticket hticket
    refine ⟨hpos, Nat.le_trans hle ?_⟩
    simp

/-- A ticket of an event goes back to its recorder. -/
theorem Coherent.giveBack (h : s.Coherent) {r : Nat} {pool : EventPool} {ticket : Ticket}
    (has : s.recorders[r]? = some pool) (hticket : s.HasTicket r ticket) :
    (s.setRecorder r { pool with available := ticket :: pool.available }).Coherent := by
  have hmem := List.mem_of_getElem? has
  refine h.setRecorder (grows_setRecorder has rfl List.prefix_rfl) (h.events pool hmem) ?_
  intro other hother
  rcases List.mem_cons.mp hother with rfl | hother
  · obtain ⟨pool', has', hhas⟩ := hticket
    rw [has] at has'
    cases has'
    exact hhas
  · exact h.available pool hmem other hother

theorem Coherent.addQueue (h : s.Coherent) {queue : CudaCommandQueue}
    (hmade : s.made queue.stream = some (.device queue.ordinal))
    (hserves : s.Serves queue.recorder queue.ordinal) :
    ({ s with queues := s.queues ++ [queue] } : Devices Θ).Coherent := by
  refine ⟨h.selected, h.events, h.available, h.devices, ?_, h.recorded⟩
  intro other hother
  rcases List.mem_append.mp hother with hother | hother
  · exact h.queues other hother
  · obtain rfl := List.mem_singleton.mp hother
    exact ⟨hmade, hserves⟩

theorem Coherent.addDevice (h : s.Coherent) {device : DeviceHandle} (houtfits : s.Outfits device) :
    ({ s with devices := s.devices ++ [device] } : Devices Θ).Coherent := by
  refine ⟨h.selected, h.events, h.available, ?_, h.queues, h.recorded⟩
  intro other hother
  rcases List.mem_append.mp hother with hother | hother
  · exact h.devices other hother
  · obtain rfl := List.mem_singleton.mp hother
    exact houtfits

variable [DecidableEq Θ]

theorem Does.grows {c : BackendCall} {a : c.Answer} (h : Does θ s c a t) : s.Grows t := by
  cases h with
  | @made what handle fresh =>
      refine ⟨?_, (Grows.refl s).recorders⟩
      intro g home hg
      have hne : g ≠ handle := by
        rintro rfl
        rw [fresh] at hg
        cases hg
      show Function.update s.made _ _ g = _
      rw [Function.update_of_ne hne]
      exact hg
  | @called c code => cases c <;> exact ⟨fun _ _ h => h, (Grows.refl s).recorders⟩
  | @recorderAdded ordinal => exact grows_addRecorder ordinal
  | taken has => exact grows_setRecorder has rfl List.prefix_rfl
  | @eventAdded r pool event has =>
      have hadded : s.Grows (s.setRecorder r { pool with events := pool.events ++ [event] }) :=
        grows_setRecorder has rfl (List.prefix_append ..)
      exact ⟨hadded.made, hadded.recorders⟩
  | gaveBack has => exact grows_setRecorder has rfl List.prefix_rfl
  | _ => exact ⟨fun _ _ h => h, (Grows.refl s).recorders⟩

/-- What a thread does leaves alone what is the others' own. -/
theorem Does.sameOwn {c : BackendCall} {a : c.Answer} (h : Does θ s c a t) (hne : θ' ≠ θ) :
    s.SameOwn θ' t := by
  cases h with
  | @called c code => cases c <;> exact ⟨rfl, rfl, rfl⟩
  | _ =>
      constructor <;>
        simp [select, fail, gain, owned, setRecorder, Function.update_of_ne hne]

theorem Coherent.owned (h : s.Coherent) (handle : Handle) : (s.owned θ handle).Coherent :=
  ⟨h.selected, h.events, h.available, h.devices, h.queues, h.recorded⟩

theorem select_nonneg (h : ∀ θ, 0 ≤ s.current θ) {ordinal : Int} (hord : 0 ≤ ordinal) :
    ∀ θ', 0 ≤ (s.select θ ordinal).current θ' := by
  intro θ'
  by_cases heq : θ' = θ
  · simp [select, heq, hord]
  · simpa [select, heq] using h θ'

/-- **A call that is made where it may be made keeps every object of its
device.** -/
theorem Does.coherent (hs : s.Coherent) {c : BackendCall} (hdemands : s.Demands c) {a : c.Answer}
    (h : Does θ s c a t) : t.Coherent := by
  have hg := h.grows
  cases h with
  | gotDevice told => exact hs
  | selected exist => exact hs.grow hg (select_nonneg hs.selected exist) rfl rfl rfl rfl
  | @notSelected ordinal left code failed left_ =>
      have hleft : 0 ≤ left := by
        rcases left_ with rfl | ⟨rfl, hpos⟩
        · exact hs.selected θ
        · exact hpos
      exact hs.grow hg (select_nonneg hs.selected hleft) rfl rfl rfl rfl
  | made fresh => exact hs.grow hg hs.selected rfl rfl rfl rfl
  | notMade failed => exact hs
  | @called c code =>
      cases c with
      | eventRecord event stream =>
          refine ⟨hs.selected, hs.events, hs.available, hs.devices, hs.queues, ?_⟩
          intro x hx
          rcases List.mem_cons.mp hx with rfl | hx
          · exact hdemands
          · exact hs.recorded x hx
      | _ => exact hs
  | hostAllocated => exact hs
  | @recorderAdded ordinal => exact hs.addRecorder ordinal
  | taken has =>
      have hmem := List.mem_of_getElem? has
      exact hs.setRecorder hg (fun event hevent => hs.events _ hmem event hevent)
        fun ticket hticket => hs.available _ hmem ticket (List.mem_of_mem_tail hticket)
  | @eventAdded r pool event has => exact (hs.addEvent has hdemands.1 hdemands.2).owned event.handle
  | gotEvent has at_ => exact hs
  | gaveBack has => exact hs.giveBack has hdemands
  | @queueAdded queue => exact (hs.addQueue hdemands.1 hdemands.2).owned queue.stream
  | gotKind => exact hs
  | deviceAdded => exact hs.addDevice hdemands

/-- **The threads of the backend**: what their calls do, and what each may count
on while it makes its own. -/
def system (Θ : Type) [DecidableEq Θ] : System Θ BackendCall BackendCall.Answer (Devices Θ) where
  does := Does
  inv := Coherent
  rely θ s t := s.Grows t ∧ s.SameOwn θ t
  demands _ c s := s.Demands c
  -- the driver does nothing here that nobody asked for
  moves _ _ := False
  refl _ s := ⟨.refl s, rfl, rfl, rfl⟩
  trans h h' := ⟨h.1.trans h'.1, h'.2.current.trans h.2.current, h'.2.failures.trans h.2.failures,
    h'.2.loose.trans h.2.loose⟩
  keeps hs hdemands h := h.coherent hs hdemands
  others hne _ _ h := ⟨h.grows, h.sameOwn hne⟩
  keepsMoved _ h := h.elim
  moved h := h.elim

end Devices

/-! ## What the threads do -/

/-- What a thread may be called for, or do of its own: to select a device. -/
inductive Operation where
  | createDevice (ordinal : Int)
  | createCommandQueue (device : DeviceHandle)
  | destroyQueue (queue : CudaCommandQueue)
  | synchronize (queue : CudaCommandQueue)
  /-- `ordinal` is the `m_ordinal` of the recorder. -/
  | record (queue : CudaCommandQueue) (ordinal : Int)
  | isComplete (recorder : Nat) (ticket : Ticket)
  | wait (recorder : Nat) (ticket : Ticket)
  | release (recorder : Nat) (ticket : Ticket)
  | enqueueWait (queue : CudaCommandQueue) (recorder : Nat) (ticket : Ticket)
  | destroyEvent (event : CudaEvent)
  | allocate (ordinal : Int) (size : Nat)
  | deallocate (data : Handle)
  | allocatePinned (mapped : Bool) (size : Nat)
  | deallocatePinned (data : Handle)
  | select (ordinal : Int)

/-- Only what is to be owned by the caller is returned. -/
def quietly {α : Type} (x : Backend α) : Backend (Option Handle) := do
  let _ ← x
  pure none

namespace Operation

def program : Operation → Backend (Option Handle)
  | createDevice ordinal => quietly (CudaDevice.makeShared ordinal)
  | createCommandQueue device => quietly (CudaDevice.createCommandQueue device)
  | destroyQueue queue => quietly queue.destruct
  | synchronize queue => quietly queue.synchronize
  | record queue ordinal =>
      quietly (PooledEventRecorder.recordOn queue.recorder ordinal queue.stream)
  | isComplete recorder ticket => quietly (PooledEventRecorder.isComplete recorder ticket)
  | wait recorder ticket => quietly (PooledEventRecorder.wait recorder ticket)
  | release recorder ticket => quietly (PooledEventRecorder.releaseTo recorder ticket)
  | enqueueWait queue recorder ticket =>
      quietly (PooledEventRecorder.enqueueWait recorder queue.stream ticket)
  | destroyEvent event => quietly event.destruct
  | allocate ordinal size => do
      let data ← DeviceMemorySource.allocate ordinal size
      pure (some data)
  | deallocate data => quietly (DeviceMemorySource.deallocate data)
  | allocatePinned mapped size => do
      let data ← PinnedMemorySource.allocate mapped size
      pure (some data)
  | deallocatePinned data => quietly (PinnedMemorySource.deallocate data)
  | select ordinal => quietly (request (.setDevice ordinal))

/-- Where the memory is that is returned. -/
def home : Operation → Home
  | allocate ordinal _ => .device ordinal
  | _ => .host

def selects : Operation → Bool
  | select _ => true
  | _ => false

/-- A thread names only objects there are. -/
def Allowed {Θ : Type} (s : Devices Θ) : Operation → Prop
  | createCommandQueue device => device ∈ s.devices
  | record queue ordinal => queue ∈ s.queues ∧ s.Serves queue.recorder ordinal
  | isComplete recorder ticket | wait recorder ticket | release recorder ticket
  | enqueueWait _ recorder ticket => s.HasTicket recorder ticket
  | _ => True

end Operation

/-- An operation, and how the thread was that began it. -/
structure Task where
  operation : Operation
  current : Int
  failures : Nat
  loose : List Handle

namespace Devices

variable {Θ : Type}

/-- What the threads share, and what each is doing. -/
abbrev Machine (Θ : Type) :=
  Threads Θ Task BackendCall BackendCall.Answer Exn (Option Handle) (Devices Θ)

def Begins (θ : Θ) (s : Devices Θ) (task : Task) (x : Backend (Option Handle)) : Prop :=
  x = task.operation.program ∧ task.operation.Allowed s ∧ task.current = s.current θ ∧
    task.failures = s.failures θ ∧ task.loose = s.loose θ

/-- No object has been made, and no thread does anything. -/
def start (current : Θ → Int) (pinnedKind : MemoryResourceKind) : Machine Θ where
  shared := ⟨current, fun _ => 0, fun _ => none, fun _ => [], [], [], [], pinnedKind, []⟩
  running _ := none

/-- One thread begins an operation, makes a call of it, or leaves it. -/
abbrev Step [DecidableEq Θ] : Machine Θ → Machine Θ → Prop := Threads.Step (system Θ) Begins

/-- Threads that go on in any order. -/
abbrev Runs [DecidableEq Θ] : Machine Θ → Machine Θ → Prop := Relation.ReflTransGen Step

theorem Step.begin [DecidableEq Θ] (m : Machine Θ) (θ : Θ) (operation : Operation)
    (idle : m.running θ = none) (allowed : operation.Allowed m.shared) :
    Step m ⟨m.shared, Function.update m.running θ (some (⟨operation, m.shared.current θ,
      m.shared.failures θ, m.shared.loose θ⟩, operation.program))⟩ :=
  .began idle ⟨rfl, allowed, rfl, rfl, rfl⟩

end Devices

end RexlibCuda
