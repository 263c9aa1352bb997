import RexlibCuda.Lib.Draining
import RexlibCuda.TimelineInvariant
import RexlibCuda.TimelineThreads

/-! What the threads share when they run timelines at the same time, what each
call does to it, and what holds between any two calls. The mutex of a timeline
owns its points, and every ticket has one owner. -/

namespace RexlibCuda

open Calls Streams

/-- Who has a ticket. -/
inductive Owner (Θ : Type) where
  | nobody
  | pool
  /-- A thread inside `pooled_event_recorder::record`, or one that was returned
  the ticket and has not passed it on. -/
  | hand (θ : Θ)
  | timeline (t : Timeline)
deriving DecidableEq

/-- What the thread that has the mutex of a timeline is in the middle of. -/
inductive Halfway where
  | nothing
  /-- The front of `m_points` has been given back, and is about to leave. -/
  | leaving
  /-- A point has joined, and its id is about to be told. -/
  | telling
deriving DecidableEq

/-- The streams, the recorder and the timelines, with their mutexes. -/
structure HostState (Θ σ ω : Type) where
  base : Timelines σ ω
  holder : Mutex → Option Θ
  owner : Ticket → Owner Θ
  halfway : Timeline → Halfway
  /-- Which thread was told which id, one call of `record` after another. -/
  told : Timeline → List (Θ × Nat)
  /-- The threads inside `stream_timeline::wait`, with the id each waits for and
  its ticket. -/
  waiters : Timeline → List (Θ × Nat × Ticket)

namespace HostState

variable {Θ σ ω : Type} {θ θ' : Θ} {s u v : HostState Θ σ ω} {t : Timeline} {x : Ticket}

/-- The timeline without the point that is about to leave. -/
def kept (s : HostState Θ σ ω) (t : Timeline) : StreamTimeline :=
  if s.halfway t = .leaving then
    { s.base.timeline t with
      points := (s.base.timeline t).points.tail
      firstId := (s.base.timeline t).firstId + 1 }
  else s.base.timeline t

/-- The ticket has been given back, and is about to leave the front of the
timeline, under its mutex. -/
structure Leaves (s : HostState Θ σ ω) (t : Timeline) (x : Ticket) : Prop where
  halfway : s.halfway t = .leaving
  front : (s.base.timeline t).points.head? = some x
  locked : s.holder (.timeline t) ≠ none

/-- How many points of the timeline nobody has been told the id of. -/
def due (s : HostState Θ σ ω) (t : Timeline) : Nat := if s.halfway t = .telling then 1 else 0

def setHolder (m : Mutex) (o : Option Θ) (s : HostState Θ σ ω) : HostState Θ σ ω :=
  { s with holder := Function.update s.holder m o }

def setOwner (x : Ticket) (o : Owner Θ) (s : HostState Θ σ ω) : HostState Θ σ ω :=
  { s with owner := Function.update s.owner x o }

def setDevice (d : Device σ ω) (s : HostState Θ σ ω) : HostState Θ σ ω :=
  { s with base := { s.base with device := d } }

/-- The back of `m_available` goes to the thread. -/
def take (θ : Θ) (s : HostState Θ σ ω) : HostState Θ σ ω :=
  match s.base.recorder.available with
  | [] => s
  | x :: available =>
      { s with base := { s.base with recorder := { s.base.recorder with available } } }.setOwner x
        (.hand θ)

/-- There is one more event. -/
def addEvent (θ : Θ) (s : HostState Θ σ ω) : HostState Θ σ ω :=
  { s with base := { s.base with
    recorder := { s.base.recorder with events := s.base.recorder.events + 1 } } }.setOwner
      (s.base.recorder.events + 1) (.hand θ)

/-- A ticket joins the pool. -/
def giveBack (x : Ticket) (dropped : Option Timeline) (s : HostState Θ σ ω) : HostState Θ σ ω :=
  { s with
    base := s.base.release x
    halfway := fun t => if dropped = some t then .leaving else s.halfway t }.setOwner x .pool

/-- `m_available` has room for one ticket more than there are events. -/
def reserve (s : HostState Θ σ ω) : HostState Θ σ ω :=
  { s with base := { s.base with recorder := { s.base.recorder with
    reserved := max s.base.recorder.reserved (s.base.recorder.events + 1) } } }

/-- A point joins the timeline, and stands for the next id. -/
def push (t : Timeline) (x : Ticket) (s : HostState Θ σ ω) : HostState Θ σ ω :=
  { s with
    base := { s.base.setTimeline t
        { s.base.timeline t with points := (s.base.timeline t).points ++ [x] } with
      given := Function.update s.base.given t
        (s.base.given t ++ (s.base.recorder.captured x).toList) }
    halfway := Function.update s.halfway t .telling }.setOwner x (.timeline t)

/-- The id of the last point. -/
def lastId (s : HostState Θ σ ω) (t : Timeline) : Nat :=
  (s.base.timeline t).firstId + (s.base.timeline t).points.length - 1

/-- The thread is told that. -/
def tell (θ : Θ) (t : Timeline) (s : HostState Θ σ ω) : HostState Θ σ ω :=
  { s with
    base := { s.base with
      returned := Function.update s.base.returned t (s.base.returned t ++ [s.lastId t]) }
    halfway := Function.update s.halfway t .nothing
    told := Function.update s.told t (s.told t ++ [(θ, s.lastId t)]) }

/-- The front of `m_points` has left. -/
def pop (t : Timeline) (s : HostState Θ σ ω) : HostState Θ σ ω :=
  { s with
    base := s.base.setTimeline t { s.base.timeline t with
      points := (s.base.timeline t).points.tail
      firstId := (s.base.timeline t).firstId + 1 }
    halfway := Function.update s.halfway t .nothing }

def addWaiter (t : Timeline) (w : Θ × Nat × Ticket) (s : HostState Θ σ ω) : HostState Θ σ ω :=
  { s with
    base := s.base.setTimeline t
      { s.base.timeline t with waiterCount := (s.base.timeline t).waiterCount + 1 }
    waiters := Function.update s.waiters t (w :: s.waiters t) }

/-! ## What is only ever added to -/

structure Evolves (s u : HostState Θ σ ω) : Prop where
  reached : ∀ p, s.base.device.Reached p → u.base.device.Reached p
  ops : ∀ stream, (s.base.device.line stream).ops <+: (u.base.device.line stream).ops
  given : ∀ t, s.base.given t <+: u.base.given t
  told : ∀ t, s.told t <+: u.told t

theorem Evolves.refl (s : HostState Θ σ ω) : s.Evolves s :=
  ⟨fun _ h => h, fun _ => List.prefix_rfl, fun _ => List.prefix_rfl, fun _ => List.prefix_rfl⟩

theorem Evolves.trans (h : s.Evolves u) (h' : u.Evolves v) : s.Evolves v where
  reached p hp := h'.reached p (h.reached p hp)
  ops stream := (h.ops stream).trans (h'.ops stream)
  given t := (h.given t).trans (h'.given t)
  told t := (h.told t).trans (h'.told t)

theorem Evolves.same (hdevice : u.base.device = s.base.device)
    (hgiven : u.base.given = s.base.given) (htold : u.told = s.told) : s.Evolves u where
  reached p hp := by rwa [hdevice]
  ops stream := by rw [hdevice]
  given t := by rw [hgiven]
  told t := by rw [htold]

theorem base_take (θ : Θ) (s : HostState Θ σ ω) : (s.take θ).base.device = s.base.device ∧
    (s.take θ).base.given = s.base.given ∧ (s.take θ).told = s.told := by
  unfold take
  split
  · exact ⟨rfl, rfl, rfl⟩
  · exact ⟨rfl, rfl, rfl⟩

theorem base_release (x : Ticket) (s : Timelines σ ω) : (s.release x).given = s.given ∧
    (s.release x).recorder.captured = s.recorder.captured ∧
    (s.release x).recorder.events = s.recorder.events ∧
    (s.release x).recorder.reserved = s.recorder.reserved := by
  unfold Timelines.release
  split
  · exact ⟨rfl, rfl, rfl, rfl⟩
  · exact ⟨rfl, rfl, rfl, rfl⟩

section Streams

variable [DecidableEq σ]

theorem Evolves.issue (stream : σ) (op : Op σ ω)
    (hdevice : u.base.device = s.base.device.issue stream op)
    (hgiven : u.base.given = s.base.given) (htold : u.told = s.told) : s.Evolves u where
  reached p hp := by
    rw [hdevice, Device.reached_issue]
    exact hp
  ops stream' := by
    rw [hdevice, Device.ops_issue]
    split
    · exact List.prefix_append ..
    · exact List.prefix_rfl
  given t := by rw [hgiven]
  told t := by rw [htold]

theorem Evolves.execute {stream : σ} (hdevice : u.base.device = s.base.device.execute stream)
    (hgiven : u.base.given = s.base.given) (htold : u.told = s.told) : s.Evolves u where
  reached p hp := by
    rw [hdevice]
    exact hp.execute
  ops stream' := by rw [hdevice, Device.ops_execute]
  given t := by rw [hgiven]
  told t := by rw [htold]

end Streams

/-! ## What is a thread's own -/

variable [DecidableEq Θ]

/-- What a thread waits for in a timeline. -/
def waits (θ : Θ) (t : Timeline) (s : HostState Θ σ ω) : List (Θ × Nat × Ticket) :=
  (s.waiters t).filter fun w => w.1 = θ

def removeWaiter (t : Timeline) (w : Θ × Nat × Ticket) (s : HostState Θ σ ω) : HostState Θ σ ω :=
  { s with
    base := s.base.setTimeline t
      { s.base.timeline t with waiterCount := (s.base.timeline t).waiterCount - 1 }
    waiters := Function.update s.waiters t ((s.waiters t).erase w) }

/-- What is a thread's own: its mutexes and what they protect, the tickets it
has, and its waits. -/
structure SameOwn (θ : Θ) (s u : HostState Θ σ ω) : Prop where
  holder : ∀ m, s.holder m = some θ → u.holder m = some θ
  hand : ∀ x, u.owner x = .hand θ ↔ s.owner x = .hand θ
  captured : ∀ x, s.owner x = .hand θ → u.base.recorder.captured x = s.base.recorder.captured x
  fields : ∀ t, s.holder (.timeline t) = some θ → u.base.timeline t = s.base.timeline t ∧
    u.halfway t = s.halfway t ∧ u.base.given t = s.base.given t ∧ u.told t = s.told t
  room : s.holder .recorder = some θ → u.base.recorder.events = s.base.recorder.events ∧
    u.base.recorder.reserved = s.base.recorder.reserved
  waits : ∀ t, u.waits θ t = s.waits θ t

theorem SameOwn.refl (θ : Θ) (s : HostState Θ σ ω) : s.SameOwn θ s :=
  ⟨fun _ h => h, fun _ => Iff.rfl, fun _ _ => rfl, fun _ _ => ⟨rfl, rfl, rfl, rfl⟩,
    fun _ => ⟨rfl, rfl⟩, fun _ => rfl⟩

theorem SameOwn.trans (h : s.SameOwn θ u) (h' : u.SameOwn θ v) : s.SameOwn θ v where
  holder m hm := h'.holder m (h.holder m hm)
  hand x := (h'.hand x).trans (h.hand x)
  captured x hx := (h'.captured x ((h.hand x).mpr hx)).trans (h.captured x hx)
  fields t ht := by
    obtain ⟨htimeline, hhalfway, hgiven, htold⟩ := h.fields t ht
    obtain ⟨htimeline', hhalfway', hgiven', htold'⟩ := h'.fields t (h.holder _ ht)
    exact ⟨htimeline'.trans htimeline, hhalfway'.trans hhalfway, hgiven'.trans hgiven,
      htold'.trans htold⟩
  room hm := by
    obtain ⟨hevents, hreserved⟩ := h.room hm
    obtain ⟨hevents', hreserved'⟩ := h'.room (h.holder _ hm)
    exact ⟨hevents'.trans hevents, hreserved'.trans hreserved⟩
  waits t := (h'.waits t).trans (h.waits t)

/-- A mutex that somebody else takes, or had, is not one's own. -/
theorem SameOwn.setHolder {m : Mutex} {o : Option Θ} (h : s.holder m ≠ some θ) :
    s.SameOwn θ (s.setHolder m o) := by
  refine ⟨?_, fun _ => Iff.rfl, fun _ _ => rfl, fun _ _ => ⟨rfl, rfl, rfl, rfl⟩,
    fun _ => ⟨rfl, rfl⟩, fun _ => rfl⟩
  intro m' hm'
  have hne : m' ≠ m := fun heq => h (heq ▸ hm')
  simpa [HostState.setHolder, hne] using hm'

/-- A ticket that is not one's own goes to somebody else. -/
theorem SameOwn.setOwner (h : s.SameOwn θ u) {o : Owner Θ} (hx : u.owner x ≠ .hand θ)
    (ho : o ≠ .hand θ) : s.SameOwn θ (u.setOwner x o) := by
  refine h.trans ⟨fun _ h => h, ?_, fun _ _ => rfl, fun _ _ => ⟨rfl, rfl, rfl, rfl⟩,
    fun _ => ⟨rfl, rfl⟩, fun _ => rfl⟩
  intro y
  by_cases heq : y = x
  · subst heq
    simp [HostState.setOwner, hx, ho]
  · simp [HostState.setOwner, heq]

theorem SameOwn.setBase {b : Timelines σ ω}
    (hcaptured : ∀ x, s.owner x = .hand θ → b.recorder.captured x = s.base.recorder.captured x)
    (htimeline : b.timeline = s.base.timeline) (hgiven : b.given = s.base.given)
    (hroom : s.holder .recorder = some θ → b.recorder.events = s.base.recorder.events ∧
      b.recorder.reserved = s.base.recorder.reserved) : s.SameOwn θ { s with base := b } :=
  ⟨fun _ h => h, fun _ => Iff.rfl, hcaptured,
    fun t _ => ⟨congrFun htimeline t, rfl, congrFun hgiven t, rfl⟩, hroom, fun _ => rfl⟩

/-- What a thread changes under the mutex of a timeline is not another's. -/
theorem SameOwn.setTimeline (hmutex : s.holder (.timeline t) = some θ) (hne : θ' ≠ θ)
    (hholder : u.holder = s.holder) (howner : u.owner = s.owner)
    (hcaptured : u.base.recorder.captured = s.base.recorder.captured)
    (hroom : u.base.recorder.events = s.base.recorder.events ∧
      u.base.recorder.reserved = s.base.recorder.reserved)
    (hfields : ∀ t' ≠ t, u.base.timeline t' = s.base.timeline t' ∧
      u.halfway t' = s.halfway t' ∧ u.base.given t' = s.base.given t' ∧ u.told t' = s.told t')
    (hwaits : ∀ t, u.waits θ' t = s.waits θ' t) : s.SameOwn θ' u where
  holder m hm := by rwa [hholder]
  hand x := by rw [howner]
  captured x _ := by rw [hcaptured]
  fields t' ht' := by
    refine hfields t' fun heq => hne ?_
    rw [heq, hmutex] at ht'
    exact (Option.some.inj ht').symm
  room _ := hroom
  waits := hwaits

/-- Who begins or ends a wait is not another thread. -/
theorem waits_addWaiter (hne : θ' ≠ θ) (w : Nat × Ticket) (t' : Timeline) :
    (s.addWaiter t (θ, w)).waits θ' t' = s.waits θ' t' := by
  by_cases heq : t' = t
  · subst heq
    simp [HostState.waits, HostState.addWaiter, Ne.symm hne]
  · simp [HostState.waits, HostState.addWaiter, heq]

theorem waits_removeWaiter (hne : θ' ≠ θ) (w : Nat × Ticket) (t' : Timeline) :
    (s.removeWaiter t (θ, w)).waits θ' t' = s.waits θ' t' := by
  by_cases heq : t' = t
  · subst heq
    have hother : (θ, w) ∉ s.waits θ' t' := by simp [HostState.waits, Ne.symm hne]
    rw [HostState.waits] at hother
    simp [HostState.waits, HostState.removeWaiter, ← List.erase_filter,
      List.erase_of_not_mem hother]
  · simp [HostState.waits, HostState.removeWaiter, heq]

/-! ## What a call does -/

variable [DecidableEq σ] {streamOf : Timeline → σ}

/-- **What a call does, and how it may be answered.** -/
inductive Does (θ : Θ) :
    HostState Θ σ ω → (c : HostCall σ ω) → c.Answer → HostState Θ σ ω → Prop
  | locked {s : HostState Θ σ ω} {m : Mutex} (free : s.holder m = none) :
      Does θ s (.lock m) () (s.setHolder m (some θ))
  | unlocked {s : HostState Θ σ ω} {m : Mutex} : Does θ s (.unlock m) () (s.setHolder m none)
  | hostAllocated {s : HostState Θ σ ω} {granted : Bool} : Does θ s .hostAllocate granted s
  | taken {s : HostState Θ σ ω} :
      Does θ s .takeAvailable s.base.recorder.available.head? (s.take θ)
  | roomReserved {s : HostState Θ σ ω} : Does θ s .reserveAvailable true s.reserve
  | roomRefused {s : HostState Θ σ ω} : Does θ s .reserveAvailable false s
  | eventMade {s : HostState Θ σ ω} {made : Bool} : Does θ s .makeEvent made s
  | eventAdded {s : HostState Θ σ ω} :
      Does θ s .addEvent (s.base.recorder.events + 1) (s.addEvent θ)
  | gotEvent {s : HostState Θ σ ω} {x : Ticket} : Does θ s (.eventAt x) () s
  | gaveBack {s : HostState Θ σ ω} {x : Ticket} {dropped : Option Timeline} :
      Does θ s (.giveBack x dropped) () (s.giveBack x dropped)
  | recorded {s : HostState Θ σ ω} {x : Ticket} {stream : σ} :
      Does θ s (.eventRecord x stream) true { s with base := s.base.capture stream x }
  | notRecorded {s : HostState Θ σ ω} {x : Ticket} {stream : σ} :
      Does θ s (.eventRecord x stream) false s
  | queried {s : HostState Θ σ ω} {x : Ticket} :
      Does θ s (.eventQuery x) (some (s.base.signaled x)) s
  | notQueried {s : HostState Θ σ ω} {x : Ticket} : Does θ s (.eventQuery x) none s
  | synchronizing {s : HostState Θ σ ω} {x : Ticket} :
      Does θ s (.eventSynchronize x) (s.base.recorder.captured x) s
  /-- It waits for as long as it takes. -/
  | synchronized {s : HostState Θ σ ω} {p : Option (Point σ)}
      (reached : ∀ q, p = some q → s.base.device.Reached q) : Does θ s (.await p) true s
  | notSynchronized {s : HostState Θ σ ω} {p : Option (Point σ)} : Does θ s (.await p) false s
  | scheduled {s : HostState Θ σ ω} {waiter : σ} {x : Ticket} :
      Does θ s (.streamWaitEvent waiter x) true { s with base := s.base.scheduleWait waiter x }
  | notScheduled {s : HostState Θ σ ω} {waiter : σ} {x : Ticket} :
      Does θ s (.streamWaitEvent waiter x) false s
  | issued {s : HostState Θ σ ω} {stream : σ} {w : ω} :
      Does θ s (.issue stream w) () (s.setDevice (s.base.device.issue stream (.work w)))
  | gotFields {s : HostState Θ σ ω} {t : Timeline} : Does θ s (.fields t) (s.base.timeline t) s
  | pushed {s : HostState Θ σ ω} {t : Timeline} {x : Ticket} :
      Does θ s (.pushPoint t x) () (s.push t x)
  | popped {s : HostState Θ σ ω} {t : Timeline} : Does θ s (.popPoint t) () (s.pop t)
  | toldId {s : HostState Θ σ ω} {t : Timeline} :
      Does θ s (.lastId t) (s.lastId t) (s.tell θ t)
  | waiterAdded {s : HostState Θ σ ω} {t : Timeline} {id : Nat} {x : Ticket} :
      Does θ s (.addWaiter t id x) () (s.addWaiter t (θ, id, x))
  | waiterRemoved {s : HostState Θ σ ω} {t : Timeline} {id : Nat} {x : Ticket} :
      Does θ s (.removeWaiter t id x) () (s.removeWaiter t (θ, id, x))
  | useRecorded {s : HostState Θ σ ω} {b : Nat} {granted : Bool} :
      Does θ s (.recordUse b) granted s

/-- A stream executes. -/
def Moves (s u : HostState Θ σ ω) : Prop :=
  ∃ d, Executes s.base.device d ∧ u = s.setDevice d

/-! ## What holds between any two calls -/

/-- **What a thread has to see to** before it makes a call: that it has the mutex
of what it reads or writes, that it uses events there are, and that it gives a
ticket back that is its own, or of a point nobody needs. -/
def Demands (streamOf : Timeline → σ) (θ : Θ) (s : HostState Θ σ ω) : HostCall σ ω → Prop
  | .unlock m => s.holder m = some θ ∧ ∀ t, m = .timeline t → s.halfway t = .nothing
  | .takeAvailable | .reserveAvailable => s.holder .recorder = some θ
  | .addEvent => s.holder .recorder = some θ ∧
      s.base.recorder.events < s.base.recorder.reserved
  | .eventAt x => s.holder .recorder = some θ ∧ 0 < x ∧ x ≤ s.base.recorder.events
  | .giveBack x none => s.holder .recorder = some θ ∧ s.owner x = .hand θ
  | .giveBack x (some t) => s.holder .recorder = some θ ∧ s.holder (.timeline t) = some θ ∧
      s.halfway t = .nothing ∧ s.waiters t = [] ∧ (s.base.timeline t).points.head? = some x ∧
      ∀ p, s.base.recorder.captured x = some p → s.base.device.Reached p
  | .eventRecord x _ => s.owner x = .hand θ
  | .await p => ∀ q, p = some q → q.position ≤ (s.base.device.line q.stream).ops.length
  | .eventQuery x | .eventSynchronize x | .streamWaitEvent _ x =>
      0 < x ∧ x ≤ s.base.recorder.events
  | .fields t => s.holder (.timeline t) = some θ
  | .pushPoint t x => s.holder (.timeline t) = some θ ∧ s.halfway t = .nothing ∧
      s.owner x = .hand θ ∧ ∃ p, s.base.recorder.captured x = some p ∧ p.stream = streamOf t
  | .popPoint t => s.holder (.timeline t) = some θ ∧ s.halfway t = .leaving
  | .lastId t => s.holder (.timeline t) = some θ ∧ s.halfway t = .telling
  | .addWaiter t id x => s.holder (.timeline t) = some θ ∧ s.halfway t = .nothing ∧
      (∀ w ∈ s.waiters t, w.1 ≠ θ) ∧ (s.base.timeline t).firstId ≤ id ∧
      (s.base.timeline t).points[id - (s.base.timeline t).firstId]? = some x
  | .removeWaiter t id x => s.holder (.timeline t) = some θ ∧ s.halfway t = .nothing ∧
      (θ, id, x) ∈ s.waiters t ∧ 0 < (s.base.timeline t).waiterCount
  | .recordUse b => s.holder (.buffer b) = some θ
  | _ => True

/-- What holds of a timeline, but for the point that is about to leave. -/
structure Orderly (streamOf : Timeline → σ) (s : HostState Θ σ ω) (t : Timeline) : Prop where
  /-- Its points stand for the last ids it gave. -/
  numbered : Numbered s.base.device s.base.recorder.captured (streamOf t) (s.kept t)
    (s.base.given t)
  distinct : (s.base.timeline t).points.Nodup
  counted : (s.kept t).waiterCount = (s.waiters t).length
  /-- A thread waits for one command at a time. -/
  apart : ((s.waiters t).map Prod.fst).Nodup
  /-- What somebody waits for is kept. -/
  waiting : ∀ w ∈ s.waiters t, (s.kept t).firstId ≤ w.2.1 ∧
    (s.kept t).points[w.2.1 - (s.kept t).firstId]? = some w.2.2

/-- What the calls of `record` were told: one id after another. -/
structure Tallied (s : HostState Θ σ ω) (t : Timeline) : Prop where
  ids : (s.told t).map Prod.snd = s.base.returned t
  inOrder : s.base.returned t = List.range (s.base.returned t).length
  given : (s.base.given t).length = (s.base.returned t).length + s.due t

/-- Every ticket is where its owner is. -/
structure Placed (s : HostState Θ σ ω) : Prop where
  pool : ∀ x, x ∈ s.base.recorder.available ↔ s.owner x = .pool
  points : ∀ t x, x ∈ (s.kept t).points ↔ s.owner x = .timeline t
  made : ∀ x, 0 < x ∧ x ≤ s.base.recorder.events ↔ s.owner x ≠ .nobody

/-- **What holds whoever has come how far.** -/
structure Coherent (streamOf : Timeline → σ) (s : HostState Θ σ ω) : Prop where
  device : s.base.device.WellIssued
  /-- Only so many streams were issued anything. -/
  within : ∃ streams, s.base.device.Within streams
  captured : ∀ x p, s.base.recorder.captured x = some p →
    s.base.device.Captured p s.base.device.issued
  timelines : ∀ t, s.Orderly streamOf t
  once : s.base.recorder.available.Nodup
  /-- Every ticket there is finds room in the pool. -/
  room : s.base.recorder.events ≤ s.base.recorder.reserved
  placed : s.Placed
  tallied : ∀ t, s.Tallied t
  /-- Nobody is halfway but under the mutex. -/
  locked : ∀ t, s.halfway t ≠ .nothing → s.holder (.timeline t) ≠ none
  /-- The threads inside `wait` are in `waiters`. -/
  waits : s.base.waits = []

/-! ## What any call leaves -/

theorem Does.evolves {c : HostCall σ ω} {a : c.Answer} (h : Does θ s c a u) : s.Evolves u := by
  cases h with
  | taken =>
      obtain ⟨hdevice, hgiven, htold⟩ := base_take θ s
      exact .same hdevice hgiven htold
  | gaveBack => exact .same (by simp [giveBack, setOwner]) (base_release ..).1 rfl
  | @recorded x stream => exact .issue stream .capture rfl rfl rfl
  | @scheduled waiter x =>
      unfold Timelines.scheduleWait
      split
      · rename_i p _
        exact .issue waiter (.wait p) rfl rfl rfl
      · exact .refl s
  | @issued stream w => exact .issue stream (.work w) rfl rfl rfl
  | @pushed t x =>
      refine ⟨fun _ h => h, fun _ => List.prefix_rfl, fun t' => ?_, fun _ => List.prefix_rfl⟩
      show s.base.given t' <+: Function.update s.base.given t _ t'
      by_cases heq : t' = t
      · simp [heq]
      · simp [heq]
  | @toldId t =>
      refine ⟨fun _ h => h, fun _ => List.prefix_rfl, fun _ => List.prefix_rfl, fun t' => ?_⟩
      show s.told t' <+: Function.update s.told t _ t'
      by_cases heq : t' = t
      · simp [heq]
      · simp [heq]
  | _ => exact .same rfl rfl rfl

omit [DecidableEq σ] in
/-- A ticket that goes back was the thread's own, or of a timeline whose mutex it
has. -/
theorem giveBack_sameOwn (hs : s.Coherent streamOf) {dropped : Option Timeline}
    (hdemands : s.Demands streamOf θ (.giveBack x dropped)) (hne : θ' ≠ θ) :
    s.SameOwn θ' (s.giveBack x dropped) := by
  obtain ⟨hgiven, hcaptured, hroom⟩ := base_release x s.base
  cases dropped with
  | none =>
      refine .setOwner ?_ (by simp [hdemands.2, Ne.symm hne]) (by simp)
      refine ⟨fun _ h => h, fun _ => Iff.rfl, fun y _ => congrFun hcaptured y, ?_,
        fun _ => hroom, fun _ => rfl⟩
      exact fun t _ => ⟨by simp, by simp, congrFun hgiven t, rfl⟩
  | some t =>
      obtain ⟨-, hmutex, hstays, -, hfront, -⟩ := hdemands
      have hown : s.owner x = .timeline t := by
        refine (hs.placed.points t x).mp ?_
        rw [kept, if_neg (by simp [hstays])]
        exact List.mem_of_mem_head? hfront
      refine .setOwner ?_ (by simp [hown]) (by simp)
      refine .setTimeline hmutex hne rfl rfl hcaptured hroom ?_ fun _ => rfl
      intro t' ht'
      exact ⟨by simp, by simp [Ne.symm ht'], congrFun hgiven t', rfl⟩

/-- **What a thread does leaves alone what is the others' own.** -/
theorem Does.sameOwn (hs : s.Coherent streamOf) {c : HostCall σ ω}
    (hdemands : s.Demands streamOf θ c) {a : c.Answer} (h : Does θ s c a u) (hne : θ' ≠ θ) :
    s.SameOwn θ' u := by
  have hhand : Owner.hand θ ≠ Owner.hand θ' := fun heq => hne (Owner.hand.inj heq).symm
  cases h with
  | locked free => exact .setHolder (by simp [free])
  | unlocked => exact .setHolder (by simp [hdemands.1, Ne.symm hne])
  | taken =>
      unfold take
      split
      · exact .refl θ' s
      · rename_i x available heq
        have hpool := (hs.placed.pool x).mp (by simp [heq])
        refine .setOwner ?_ (by simp [hpool]) hhand
        exact .setBase (fun _ _ => rfl) rfl rfl fun _ => ⟨rfl, rfl⟩
  | roomReserved =>
      refine .setBase (fun _ _ => rfl) rfl rfl fun hmutex => ?_
      -- the other thread has the mutex of the recorder
      rw [show s.holder .recorder = some θ from hdemands] at hmutex
      exact absurd (Option.some.inj hmutex).symm hne
  | eventAdded =>
      -- nobody can have the ticket of an event there was not
      have hnobody : s.owner (s.base.recorder.events + 1) = .nobody := by
        by_contra hother
        have hle := ((hs.placed.made _).mpr hother).2
        exact absurd hle (Nat.not_succ_le_self _)
      refine .setOwner ?_ (by simp [hnobody]) hhand
      refine .setBase (fun _ _ => rfl) rfl rfl fun hmutex => ?_
      rw [hdemands.1] at hmutex
      exact absurd (Option.some.inj hmutex).symm hne
  | gaveBack => exact giveBack_sameOwn hs hdemands hne
  | @recorded x stream =>
      refine .setBase (fun y hy => ?_) rfl rfl fun _ => ⟨rfl, rfl⟩
      have hown : s.owner x = .hand θ := hdemands
      have hyx : y ≠ x := by
        rintro rfl
        exact hhand (hown.symm.trans hy)
      exact Function.update_of_ne hyx ..
  | scheduled =>
      unfold Timelines.scheduleWait
      split
      · exact .setBase (fun _ _ => rfl) rfl rfl fun _ => ⟨rfl, rfl⟩
      · exact .refl θ' s
  | issued => exact .setBase (fun _ _ => rfl) rfl rfl fun _ => ⟨rfl, rfl⟩
  | @pushed t x =>
      obtain ⟨hmutex, -, hown, -⟩ := hdemands
      refine .setOwner ?_ (by simp [hown, Ne.symm hne]) (by simp)
      refine .setTimeline hmutex hne rfl rfl rfl ⟨rfl, rfl⟩ ?_ fun _ => rfl
      intro t' ht'
      exact ⟨Function.update_of_ne ht' .., Function.update_of_ne ht' .., Function.update_of_ne ht' ..,
        rfl⟩
  | toldId =>
      refine .setTimeline hdemands.1 hne rfl rfl rfl ⟨rfl, rfl⟩ (fun t' ht' => ?_) fun _ => rfl
      exact ⟨rfl, Function.update_of_ne ht' .., rfl, Function.update_of_ne ht' ..⟩
  | popped =>
      refine .setTimeline hdemands.1 hne rfl rfl rfl ⟨rfl, rfl⟩ (fun t' ht' => ?_) fun _ => rfl
      exact ⟨Function.update_of_ne ht' .., Function.update_of_ne ht' .., rfl, rfl⟩
  | @waiterAdded t id x =>
      refine .setTimeline hdemands.1 hne rfl rfl rfl ⟨rfl, rfl⟩ (fun t' ht' => ?_)
        (waits_addWaiter hne _)
      exact ⟨Function.update_of_ne ht' .., rfl, rfl, rfl⟩
  | @waiterRemoved t id x =>
      refine .setTimeline hdemands.1 hne rfl rfl rfl ⟨rfl, rfl⟩ (fun t' ht' => ?_)
        (waits_removeWaiter hne _)
      exact ⟨Function.update_of_ne ht' .., rfl, rfl, rfl⟩
  | _ => exact .refl θ' s

end HostState

end RexlibCuda
