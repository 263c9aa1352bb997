import RexlibCuda.CachingMemoryAllocator
import RexlibCuda.CommandQueue

/-! The backend as a whole: threads submit commands to queues, the buffers the
commands use come from an allocator, the allocator asks the timelines of the
queues which commands have finished, and the streams execute what they were
issued. A call of the allocator takes its time: the queues go on between any
two of its questions. -/

namespace RexlibCuda

open Relation (ReflTransGen)

/-- The call has returned or thrown. -/
def SubmitPhase.over : SubmitPhase → Bool
  | .returned _ => true
  | .threw _ _ => true
  | _ => false

/-- The bytes of a heap that a call of `submit` may use through a buffer. -/
structure Touch where
  call : Nat
  buffer : BufferId
  heap : HeapId
  offset : Nat
  size : Nat

/-- `command_token::is_complete` answers, as the world stands. A timeline of
another backend answers by itself. -/
def World.Tells {σ : Type} (backend : Timeline → Bool) (w : World σ) (c : Command)
    (complete : Bool) : Prop :=
  if backend c.timeline then
    ∃ answers, (Timelines.isComplete answers c.timeline c.id w.timelines).1 = .ok complete
  else complete = w.finished c

/-- `command_token::wait` was called in the one world and has returned in the
other. -/
def World.Waited {σ : Type} (backend : Timeline → Bool) (w w' : World σ) (c : Command) : Prop :=
  if backend c.timeline then
    (Timelines.beginWait c.timeline c.id w.timelines).1 = .ok none ∨
      ∃ ticket, ⟨c.timeline, c.id, ticket, .finished true⟩ ∈ w'.timelines.waits
  else w'.finished c = true

structure Plugin (σ : Type) where
  queues : Queues σ
  alloc : MemoryBlockAllocator
  /-- The buffers of the allocator that are alive, latest first. -/
  live : List BufferId
  /-- No buffer was made under this id or a later one. -/
  made : BufferId
  /-- The token each buffer was handed out with. -/
  pending : BufferId → CommandToken
  /-- What each call of `submit` may use. -/
  touches : List Touch
  /-- The queues at each moment of the allocator: when it asked its question, or
  when it was left. -/
  past : Nat → World σ

namespace Plugin

variable {σ : Type}

/-- Nothing has happened. The buffers of other allocators are there. -/
def start (ours : BufferId → Bool) (elsewhere : BufferId → CudaBuffer) (finished : Command → Bool) :
    Plugin σ :=
  let buffers b := if ours b then ⟨0, [], none⟩ else elsewhere b
  { queues := .start buffers finished
    alloc := .empty
    live := []
    made := 0
    pending := fun _ => none
    touches := []
    past := fun _ => ⟨.empty, buffers, finished⟩ }

/-- What a call may use through an operand. The buffers of other allocators lie
in other memory. -/
def touchOf (ours : BufferId → Bool) (m : Plugin σ) (call : Nat) : Operand → Option Touch
  | .own b =>
      if ours b then
        let block := m.alloc.pool.block (m.queues.world.buffers b).block
        some ⟨call, b, block.heap, block.offset, block.size⟩
      else none
  | _ => none

/-- A call of `submit`, which may use its operands. -/
def submit (ours : BufferId → Bool) (queue : Timeline) (cmd : SubmittedCommand) (m : Plugin σ) :
    Plugin σ :=
  { m with
    queues := { m.queues with calls := m.queues.calls ++
      [⟨queue, cmd, (m.queues.world.timelines.given queue).length, none, cmd.begin⟩] }
    touches := cmd.operands.filterMap (m.touchOf ours m.queues.calls.length) ++ m.touches }

/-- The allocator was left, at the last moment of the tape. -/
def leave (a : MemoryBlockAllocator) (tape : Nat → Plugin σ) (m : Plugin σ) : Plugin σ :=
  { tape a.now with
    alloc := a
    past := fun n => if n < m.alloc.now then m.past n else (tape n).queues.world }

/-- A buffer was made, and handed out with its token. -/
def make (b : BufferId) (buffer : CudaBuffer) (pending : CommandToken) (m : Plugin σ) : Plugin σ :=
  { m with
    queues := { m.queues with world := { m.queues.world with
      buffers := Function.update m.queues.world.buffers b buffer } }
    live := b :: m.live
    made := b + 1
    pending := Function.update m.pending b pending }

/-- No timeline answers, and `room` tells whether the host has memory. -/
def silent (room : Nat → Bool) : Environment where
  isComplete _ _ := none
  wait _ _ := false
  sourceAllocate _ _ := .refused
  hostAllocate := room
  fuel := 0

variable [DecidableEq σ] (cfg : Config) (ours : BufferId → Bool) (backend : Timeline → Bool)
  (streamOf : Timeline → σ)

/-- What the queues do. -/
inductive Goes : Plugin σ → Plugin σ → Prop
  /-- `submit` is called, with buffers that are alive. -/
  | submitted {m : Plugin σ} (queue : Timeline) (cmd : SubmittedCommand)
      (stream : backend queue = true)
      (alive : ∀ b, .own b ∈ cmd.operands → ours b = true → b ∈ m.live) :
      Goes m (m.submit ours queue cmd)
  /-- A call goes on, or somebody or some stream does something else. Nobody
  reaches a buffer that is not alive. -/
  | went {m : Plugin σ} {q : Queues σ} (step : Queues.Step backend streamOf m.queues q)
      (calls : q.calls.length = m.queues.calls.length)
      (dead : ∀ b, ours b = true → b ∉ m.live →
        q.world.buffers b = m.queues.world.buffers b) :
      Goes m { m with queues := q }

/-- What goes on while the allocator is asked, from when it is entered to its
moment `last`. The tape has the queues at each moment; they answer for
themselves. -/
structure Meanwhile (m : Plugin σ) (env : Environment) (tape : Nat → Plugin σ) (last : Nat) :
    Prop where
  entered : ReflTransGen (Goes ours backend streamOf) m (tape m.alloc.now)
  goes : ∀ n, m.alloc.now ≤ n → n < last →
    ReflTransGen (Goes ours backend streamOf) (tape n) (tape (n + 1))
  isComplete : ∀ n c complete, env.isComplete n c = some complete →
    m.alloc.now ≤ n ∧ n < last ∧ (tape n).queues.world.Tells backend c complete
  wait : ∀ n c, env.wait n c = true → m.alloc.now ≤ n ∧ n < last ∧
    (tape n).queues.world.Waited backend (tape (n + 1)).queues.world c

/-- What happens next. -/
inductive Step : Plugin σ → Plugin σ → Prop
  | went {m m' : Plugin σ} (goes : Goes ours backend streamOf m m') : Step m m'
  /-- `allocate_for_timeline` returns. -/
  | allocated {m : Plugin σ} {env : Environment} {tape : Nat → Plugin σ} {a : MemoryBlockAllocator}
      {buffer : CudaBuffer} {pending : CommandToken} {size alignment : Nat}
      {timeline : Option Timeline} {b : BufferId} (sized : size < 2 ^ 64)
      (meanwhile : Meanwhile ours backend streamOf m env tape a.now)
      (returned : CachingMemoryAllocator.allocateForTimeline cfg env size alignment timeline m.alloc
        = (.ok (buffer, pending), a))
      (own : ours b = true) (fresh : m.made ≤ b) :
      Step m ((m.leave a tape).make b buffer pending)
  /-- It throws. -/
  | threw {m : Plugin σ} {env : Environment} {tape : Nat → Plugin σ} {a : MemoryBlockAllocator}
      {e : Exn} {size alignment : Nat} {timeline : Option Timeline} (sized : size < 2 ^ 64)
      (meanwhile : Meanwhile ours backend streamOf m env tape a.now)
      (thrown : CachingMemoryAllocator.allocateForTimeline cfg env size alignment timeline m.alloc
        = (.error e, a)) :
      Step m (m.leave a tape)
  /-- `trim` returns or throws. -/
  | trimmed {m : Plugin σ} {env : Environment} {tape : Nat → Plugin σ}
      (meanwhile : Meanwhile ours backend streamOf m env tape
        (MemoryBlockAllocator.trim cfg env m.alloc).2.now) :
      Step m (m.leave (MemoryBlockAllocator.trim cfg env m.alloc).2 tape)
  /-- A buffer dies. A call that has not ended keeps its operands alive. Nothing
  is asked of the timelines. -/
  | destroyed {m : Plugin σ} {before after : List BufferId} {b : BufferId} (room : Nat → Bool)
      (has : m.live = before ++ b :: after)
      (unheld : ∀ call ∈ m.queues.calls, call.phase.over = false →
        .own b ∉ call.command.operands) :
      Step m { m.leave (MemoryBlockAllocator.recycle (silent room) (m.queues.world.buffers b).block
          (m.queues.world.buffers b).uses m.alloc).2 (fun _ => m) with
        live := before ++ after }

end Plugin

end RexlibCuda
