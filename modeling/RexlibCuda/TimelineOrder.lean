import RexlibCuda.TimelineCoherence

/-! The order in which the backend takes its locks: that of an allocator, that
of a timeline, and then that of the recorder or of a buffer. -/

namespace RexlibCuda

open Calls Streams

namespace Host

variable {σ ω α : Type} {x : Host σ ω α} {held : List Mutex} {m : Mutex} {n : Nat} {t : Timeline}
  {ticket : Ticket} {dropped : Option Timeline} {stream waiter : σ} {id : Nat}
  {timeline : StreamTimeline}

/-- Where it holds the locks `held`, the program takes others in order, and is left with those. -/
abbrev InOrder (held : List Mutex) (x : Host σ ω α) : Prop :=
  x.Ordered HostCall.use Mutex.rank held held

/-- The locks may be held where one of rank `n` is taken. -/
def Below (n : Nat) (held : List Mutex) : Prop := ∀ m ∈ held, m.rank < n

theorem Below.cons (hm : m.rank < n) (h : Below m.rank held) : Below n (m :: held) := by
  intro m' hm'
  rcases List.mem_cons.mp hm' with rfl | hm'
  · exact hm
  · exact Nat.lt_trans (h m' hm') hm

theorem request_inOrder {c : HostCall σ ω} (h : c.use = .none) : InOrder held (request c) :=
  Ordered.ask h

theorem underMutex_inOrder (hbelow : Below m.rank held) (h : InOrder (m :: held) x) :
    InOrder held (underMutex m x) :=
  Ordered.locked rfl rfl hbelow h

theorem granted_inOrder {success : Bool} : InOrder held (granted success : Host σ ω Unit) := by
  cases success <;> rfl

theorem hostMemory_inOrder : InOrder held (hostMemory : Host σ ω Unit) :=
  .bind (request_inOrder rfl) fun _ => granted_inOrder

theorem checked_inOrder {success : Bool} : InOrder held (checked success : Host σ ω Unit) := by
  cases success <;> rfl

/-! ## `pooled_event_recorder` -/

theorem create_inOrder : InOrder held (create : Host σ ω Ticket) := by
  refine .bind (request_inOrder rfl) fun _ => .bind granted_inOrder fun _ => ?_
  refine .bind hostMemory_inOrder fun _ => ?_
  exact .bind (request_inOrder rfl) fun made => .bind checked_inOrder fun _ => request_inOrder rfl

section Recorder

variable (hheld : Below 2 held)

include hheld

theorem acquire_inOrder : InOrder held (acquire : Host σ ω Ticket) := by
  refine underMutex_inOrder hheld (.bind (request_inOrder rfl) fun available => ?_)
  cases available with
  | none => exact create_inOrder
  | some ticket => rfl

theorem getEvent_inOrder : InOrder held (getEvent ticket : Host σ ω Unit) :=
  underMutex_inOrder hheld (request_inOrder rfl)

theorem release_inOrder : InOrder held (release ticket dropped : Host σ ω Unit) := by
  unfold release
  split
  · rfl
  · exact underMutex_inOrder hheld (request_inOrder rfl)

theorem recorderRecord_inOrder : InOrder held (recorderRecord stream : Host σ ω Ticket) := by
  refine .bind (acquire_inOrder hheld) fun result => .bind (.tryCatch ?_ fun e => ?_) fun _ => rfl
  · refine .bind (getEvent_inOrder hheld) fun _ => ?_
    exact .bind (request_inOrder rfl) fun recorded => checked_inOrder
  · exact .bind (release_inOrder hheld) fun _ => rfl

theorem recorderIsComplete_inOrder : InOrder held (recorderIsComplete ticket : Host σ ω Bool) := by
  refine .bind (getEvent_inOrder hheld) fun _ => .bind (request_inOrder rfl) fun answer => ?_
  cases answer <;> rfl

theorem recorderWait_inOrder : InOrder held (recorderWait ticket : Host σ ω Unit) := by
  refine .bind (getEvent_inOrder hheld) fun _ => .bind (request_inOrder rfl) fun p => ?_
  exact .bind (request_inOrder rfl) fun returned => checked_inOrder

theorem recorderEnqueueWait_inOrder :
    InOrder held (recorderEnqueueWait waiter ticket : Host σ ω Unit) := by
  refine .bind (getEvent_inOrder hheld) fun _ => ?_
  exact .bind (request_inOrder rfl) fun scheduled => checked_inOrder

end Recorder

/-! ## `stream_timeline` -/

theorem getPoint_inOrder : InOrder held (getPoint timeline id : Host σ ω Ticket) := by
  unfold getPoint
  split <;> rfl

theorem dropLoop_inOrder (hheld : Below 2 held) (points : List Ticket) :
    InOrder held (dropLoop t points : Host σ ω Unit) := by
  induction points with
  | nil => rfl
  | cons point points ih =>
      refine .bind (recorderIsComplete_inOrder hheld) fun complete => ?_
      cases complete with
      | false => rfl
      | true =>
          refine .bind (release_inOrder hheld) fun _ => ?_
          exact .bind (request_inOrder rfl) fun _ => ih

theorem dropReachedPoints_inOrder (hheld : Below 2 held) :
    InOrder held (dropReachedPoints t : Host σ ω Unit) := by
  refine .bind (request_inOrder rfl) fun timeline => ?_
  split
  · exact dropLoop_inOrder hheld timeline.points
  · rfl

section Timeline

variable (hheld : Below 1 held)

include hheld

theorem below_timeline : Below 2 (.timeline t :: held) := .cons (Nat.lt_succ_self 1) hheld

theorem record_inOrder : InOrder held (record t stream : Host σ ω Nat) := by
  have hbelow := below_timeline (t := t) hheld
  refine underMutex_inOrder hheld (.bind (dropReachedPoints_inOrder hbelow) fun _ => ?_)
  refine .bind (recorderRecord_inOrder hbelow) fun point => .bind (.tryCatch ?_ fun e => ?_) ?_
  · exact .bind hostMemory_inOrder fun _ => request_inOrder rfl
  · exact .bind (release_inOrder hbelow) fun _ => rfl
  · exact fun _ => request_inOrder rfl

/-- What `is_complete`, `wait` and `enqueue_wait` have in common. -/
theorem ofId_inOrder {f : Ticket → Host σ ω α} {known : α}
    (hf : ∀ point, InOrder (.timeline t :: held) (f point)) :
    InOrder held (underMutex (.timeline t) do
      let timeline ← request (.fields t)
      if Timelines.isKnownComplete timeline id then pure known
      else do
        let point ← getPoint timeline id
        f point) := by
  refine underMutex_inOrder hheld (.bind (request_inOrder rfl) fun timeline => ?_)
  split
  · rfl
  · exact .bind getPoint_inOrder hf

theorem isComplete_inOrder : InOrder held (isComplete t id : Host σ ω Bool) :=
  ofId_inOrder hheld fun _ => recorderIsComplete_inOrder (below_timeline hheld)

theorem enqueueWait_inOrder : InOrder held (enqueueWait waiter t id : Host σ ω Unit) :=
  ofId_inOrder hheld fun _ => recorderEnqueueWait_inOrder (below_timeline hheld)

theorem endWait_inOrder : InOrder held (endWait t id ticket : Host σ ω Unit) :=
  underMutex_inOrder hheld (request_inOrder rfl)

theorem wait_inOrder : InOrder held (wait t id : Host σ ω Unit) := by
  have hbelow : Below 2 held := fun m hm => Nat.lt_succ_of_lt (hheld m hm)
  refine .bind (ofId_inOrder hheld fun _ => ?_) fun began => ?_
  · exact .bind (request_inOrder rfl) fun _ => rfl
  · cases began with
    | none => rfl
    | some point =>
        refine .bind (.tryCatch (recorderWait_inOrder hbelow) fun e => ?_) ?_
        · exact .bind (endWait_inOrder hheld) fun _ => rfl
        · exact fun _ => endWait_inOrder hheld

/-! ## What the threads do -/

theorem operation_inOrder (streamOf : Timeline → σ) (operation : HostOperation σ ω) :
    InOrder held (operation.program streamOf) := by
  cases operation with
  | record t => exact .bind (record_inOrder hheld) fun _ => rfl
  | isComplete t id => exact .bind (isComplete_inOrder hheld) fun _ => rfl
  | wait t id => exact .bind (wait_inOrder hheld) fun _ => rfl
  | enqueueWait waiter t id => exact .bind (enqueueWait_inOrder hheld) fun _ => rfl
  | issue stream w => exact .bind (request_inOrder rfl) fun _ => rfl
  | recordUse b =>
      refine underMutex_inOrder (fun m hm => Nat.lt_succ_of_lt (hheld m hm)) ?_
      exact .bind (request_inOrder rfl) fun _ => .bind granted_inOrder fun _ => rfl

theorem client_inOrder (streamOf : Timeline → σ) (client : Client σ ω) :
    InOrder held (client.program streamOf) := by
  induction client with
  | done => rfl
  | ask operation next ih =>
      refine .bind (.tryCatch (.bind (operation_inOrder hheld streamOf operation) fun _ => rfl)
        fun _ => rfl) fun outcome => ?_
      exact .bind (ih outcome) fun _ => rfl

end Timeline

/-- **Every thread takes its locks in order.** -/
theorem programUnder_inOrder (streamOf : Timeline → σ) (client : Client σ ω)
    (allocator : Option Nat) : InOrder [] (client.programUnder streamOf allocator) := by
  have hnone : Below 0 [] := fun m hm => by cases hm
  cases allocator with
  | none => exact client_inOrder (fun m hm => by cases hm) streamOf client
  | some a =>
      have hbelow : Below 1 [.allocator a] := .cons Nat.one_pos hnone
      exact underMutex_inOrder hnone (client_inOrder hbelow streamOf client)

end Host

namespace HostState

variable {Θ σ ω : Type} [DecidableEq Θ] [DecidableEq σ]

/-- Locks are taken where they are free, and only calls take them. -/
theorem locking (streamOf : Timeline → σ) :
    (system (ω := ω) Θ streamOf).Locking HostCall.use fun s => s.holder where
  takes hdoes huse := by
    cases hdoes with
    | locked free =>
        cases huse
        exact ⟨free, rfl⟩
    | _ => cases huse
  frees hdoes huse := by
    cases hdoes with
    | unlocked =>
        cases huse
        rfl
    | _ => cases huse
  keeps hdoes huse := by
    cases hdoes with
    | locked free => cases huse
    | unlocked => cases huse
    | taken =>
        unfold take
        split <;> rfl
    | _ => rfl
  moves hmoves := by
    obtain ⟨d, -, rfl⟩ := hmoves
    rfl

end HostState

end RexlibCuda
