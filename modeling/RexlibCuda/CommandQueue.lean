import RexlibCuda.CudaBuffer
import RexlibCuda.StreamTimeline

/-! `cuda_command_queue::submit`, called by any number of threads on any number
of queues. Each call goes on step by step between those of the others; a queue
is told apart by its timeline. -/

namespace RexlibCuda

open Streams

/-- The program of a command, as far as `submit` looks at it. -/
inductive Program where
  | null
  /-- Not a `stream_program`. -/
  | foreign
  | stream

abbrev BufferId := Nat

/-- What an operand of a command points to. -/
inductive Operand where
  | null
  /-- A buffer that is not a `cuda_buffer`. -/
  | foreign
  | own (buffer : BufferId)

/-- A `command` that is submitted. -/
structure SubmittedCommand where
  program : Program
  dependencies : List CommandToken
  outputs : List Operand
  inputs : List Operand
  scratch : List Operand

/-- `are_own_buffers` -/
def areOwnBuffers : List Operand → Bool
  | [] => true
  | .own _ :: operands => areOwnBuffers operands
  | _ :: _ => false

/-- What `track` asks first. -/
def SubmittedCommand.holdsOwnBuffers (cmd : SubmittedCommand) : Bool :=
  areOwnBuffers cmd.outputs && areOwnBuffers cmd.inputs && areOwnBuffers cmd.scratch

/-- The operands `track` goes through, in that order. -/
def SubmittedCommand.operands (cmd : SubmittedCommand) : List Operand :=
  cmd.outputs ++ cmd.inputs ++ cmd.scratch

/-- How far a call of `submit` has come. -/
inductive SubmitPhase where
  /-- `wait_for` has yet to be called for these. -/
  | waitingFor (dependencies : List CommandToken)
  | launching
  /-- `launch` has returned. -/
  | tracking
  /-- `track` synchronizes with what had been issued when it began to. -/
  | synchronizing (issued : Nat)
  /-- `record_use` has yet to be called for these. -/
  | recordingUse (id : Nat) (operands : List Operand)
  /-- The handler of `submit` is entered. -/
  | failing (e : Exn)
  /-- It synchronizes with what had been issued when it began to. -/
  | finishing (e : Exn) (issued : Nat)
  | returned (token : CommandToken)
  /-- The last synchronization the call made, if any, succeeded or failed. -/
  | threw (e : Exn) (synchronized : Option Bool)

/-- A call of `submit`. -/
structure SubmitCall where
  /-- The timeline of the queue. -/
  queue : Timeline
  command : SubmittedCommand
  /-- How many ids the timeline of the queue had given when the call began. -/
  begun : Nat
  /-- The id the timeline has given to the command. -/
  recorded : Option Nat
  phase : SubmitPhase

/-- How `submit` begins. -/
def SubmittedCommand.begin (cmd : SubmittedCommand) : SubmitPhase :=
  match cmd.program with
  | .null => .threw (.invalidArgument
      "cuda_command_queue::submit: Provided command does not have an associated program.") none
  | .foreign => .threw (.invalidArgument
      "cuda_command_queue::submit: The program of the command was not created by the CUDA backend.")
      none
  | .stream => .waitingFor cmd.dependencies

/-- What the calls share. The work on the streams is that of a call of
`submit`, by its index, or of somebody else. -/
structure World (σ : Type) where
  timelines : Timelines σ (Option Nat)
  buffers : BufferId → CudaBuffer
  /-- The commands of timelines that are not of this backend that have
  finished. -/
  finished : Command → Bool

def World.set {σ : Type} (w : World σ) (timelines : Timelines σ (Option Nat)) : World σ :=
  { w with timelines }

/-- How many operations a stream has been issued. -/
def World.issuedOn {σ : Type} (w : World σ) (s : σ) : Nat := (w.timelines.device.line s).ops.length

/-- How many of them it has executed. -/
def World.executedOn {σ : Type} (w : World σ) (s : σ) : Nat := (w.timelines.device.line s).executed

structure Queues (σ : Type) where
  world : World σ
  /-- The calls of `submit` so far. -/
  calls : List SubmitCall

/-- Nothing has been submitted yet. -/
def Queues.start {σ : Type} (buffers : BufferId → CudaBuffer) (finished : Command → Bool) :
    Queues σ := ⟨⟨.empty, buffers, finished⟩, []⟩

/-- `cuda_command_queue::wait_for` does nothing for the dependency. -/
def skipsWait (queue : Timeline) (dependency : CommandToken) : Bool :=
  match dependency.getTimeline with
  | none => true
  | some timeline => decide (timeline = queue)

variable {σ : Type} [DecidableEq σ]

/-- What a call of `submit` does next. `backend` are the timelines that are
`stream_timeline`s. -/
inductive Advance (backend : Timeline → Bool) (streamOf : Timeline → σ) (c : Nat) :
    World σ → SubmitCall → World σ → SubmitCall → Prop
  /-- The command is issued after what the queue was given before, so there is
  nothing to wait for. -/
  | waitSkipped {w : World σ} {call : SubmitCall} {d : CommandToken} {rest : List CommandToken}
      (here : call.phase = .waitingFor (d :: rest)) (skips : skipsWait call.queue d = true) :
      Advance backend streamOf c w call w { call with phase := .waitingFor rest }
  /-- `other->enqueue_wait` returns. -/
  | waitEnqueued {w : World σ} {call : SubmitCall} {k : Command} {rest : List CommandToken}
      {answers : Answers} {a : Timelines σ (Option Nat)}
      (here : call.phase = .waitingFor (some k :: rest))
      (other : skipsWait call.queue (some k) = false) (stream : backend k.timeline = true)
      (enqueued : Timelines.enqueueWait answers (streamOf call.queue) k.timeline k.id w.timelines
        = (.ok (), a)) :
      Advance backend streamOf c w call (w.set a)
        { call with phase := .waitingFor rest }
  /-- It throws. -/
  | waitRefused {w : World σ} {call : SubmitCall} {k : Command} {rest : List CommandToken}
      {answers : Answers} {e : Exn} {a : Timelines σ (Option Nat)}
      (here : call.phase = .waitingFor (some k :: rest))
      (other : skipsWait call.queue (some k) = false) (stream : backend k.timeline = true)
      (refused : Timelines.enqueueWait answers (streamOf call.queue) k.timeline k.id w.timelines
        = (.error e, a)) :
      Advance backend streamOf c w call (w.set a) { call with phase := .threw e none }
  /-- `dependency.wait` returns, which it only does once the command has
  finished. -/
  | waited {w : World σ} {call : SubmitCall} {k : Command} {rest : List CommandToken}
      (here : call.phase = .waitingFor (some k :: rest))
      (other : skipsWait call.queue (some k) = false) (foreign : backend k.timeline = false)
      (finished : w.finished k = true) :
      Advance backend streamOf c w call w { call with phase := .waitingFor rest }
  /-- It throws. -/
  | waitThrew {w : World σ} {call : SubmitCall} {k : Command} {rest : List CommandToken} (e : Exn)
      (here : call.phase = .waitingFor (some k :: rest))
      (other : skipsWait call.queue (some k) = false) (foreign : backend k.timeline = false) :
      Advance backend streamOf c w call w { call with phase := .threw e none }
  /-- `launch` is called. -/
  | launchCalled {w : World σ} {call : SubmitCall} (here : call.phase = .waitingFor []) :
      Advance backend streamOf c w call w { call with phase := .launching }
  /-- It issues work on the stream it is given. -/
  | workIssued {w : World σ} {call : SubmitCall} (here : call.phase = .launching) :
      Advance backend streamOf c w call
        (w.set { w.timelines with
          device := w.timelines.device.issue (streamOf call.queue) (.work (some c)) }) call
  | launched {w : World σ} {call : SubmitCall} (here : call.phase = .launching) :
      Advance backend streamOf c w call w { call with phase := .tracking }
  | launchThrew {w : World σ} {call : SubmitCall} (e : Exn) (here : call.phase = .launching) :
      Advance backend streamOf c w call w { call with phase := .failing e }
  /-- `track` calls `synchronize`. -/
  | synchronizeCalled {w : World σ} {call : SubmitCall} (here : call.phase = .tracking)
      (others : call.command.holdsOwnBuffers = false) :
      Advance backend streamOf c w call w
        { call with phase := .synchronizing (w.issuedOn (streamOf call.queue)) }
  /-- `cudaStreamSynchronize` returns. The token is empty. -/
  | synchronized {w : World σ} {call : SubmitCall} {issued : Nat}
      (here : call.phase = .synchronizing issued)
      (executed : issued ≤ w.executedOn (streamOf call.queue)) :
      Advance backend streamOf c w call w { call with phase := .returned none }
  | synchronizeFailed {w : World σ} {call : SubmitCall} {issued : Nat}
      (here : call.phase = .synchronizing issued) :
      Advance backend streamOf c w call w { call with phase := .failing .error }
  /-- `track` calls `record`. -/
  | recorded {w : World σ} {call : SubmitCall} {answers : Answers} {id : Nat}
      {a : Timelines σ (Option Nat)} (here : call.phase = .tracking)
      (own : call.command.holdsOwnBuffers = true)
      (returned : Timelines.record answers call.queue (streamOf call.queue) w.timelines
        = (.ok id, a)) :
      Advance backend streamOf c w call
        (w.set (a.give call.queue (w.timelines.device.last (streamOf call.queue)) id))
        { call with recorded := some id, phase := .recordingUse id call.command.operands }
  /-- It throws. -/
  | recordThrew {w : World σ} {call : SubmitCall} {answers : Answers} {e : Exn}
      {a : Timelines σ (Option Nat)} (here : call.phase = .tracking)
      (own : call.command.holdsOwnBuffers = true)
      (thrown : Timelines.record answers call.queue (streamOf call.queue) w.timelines
        = (.error e, a)) :
      Advance backend streamOf c w call (w.set a) { call with phase := .failing e }
  /-- The next operand is told. -/
  | useRecorded {w : World σ} {call : SubmitCall} {id : Nat} {b : BufferId} {rest : List Operand}
      {room : Bool} {buffer : CudaBuffer} (here : call.phase = .recordingUse id (.own b :: rest))
      (used : (w.buffers b).recordUse room (some ⟨call.queue, id⟩) = some buffer) :
      Advance backend streamOf c w call { w with buffers := Function.update w.buffers b buffer }
        { call with phase := .recordingUse id rest }
  /-- Its `record_use` throws. -/
  | useThrew {w : World σ} {call : SubmitCall} {id : Nat} {b : BufferId} {rest : List Operand}
      {room : Bool} (here : call.phase = .recordingUse id (.own b :: rest))
      (thrown : (w.buffers b).recordUse room (some ⟨call.queue, id⟩) = none) :
      Advance backend streamOf c w call w { call with phase := .failing .badAlloc }
  | tracked {w : World σ} {call : SubmitCall} {id : Nat} (here : call.phase = .recordingUse id []) :
      Advance backend streamOf c w call w { call with phase := .returned (some ⟨call.queue, id⟩) }
  /-- The handler synchronizes. -/
  | handlerCalled {w : World σ} {call : SubmitCall} {e : Exn} (here : call.phase = .failing e) :
      Advance backend streamOf c w call w
        { call with phase := .finishing e (w.issuedOn (streamOf call.queue)) }
  /-- It throws again what it caught, whether or not that went well. -/
  | handlerSynchronized {w : World σ} {call : SubmitCall} {e : Exn} {issued : Nat}
      (here : call.phase = .finishing e issued)
      (executed : issued ≤ w.executedOn (streamOf call.queue)) :
      Advance backend streamOf c w call w { call with phase := .threw e (some true) }
  | handlerFailed {w : World σ} {call : SubmitCall} {e : Exn} {issued : Nat}
      (here : call.phase = .finishing e issued) :
      Advance backend streamOf c w call w { call with phase := .threw e (some false) }

/-- The work of a call of `submit` at a place in a stream. -/
def World.WorkAt (w : World σ) (c : Nat) (s : σ) (i : Nat) : Prop :=
  ∃ stamp, w.timelines.device.At s i (.work (some c)) stamp

/-- What happens next anywhere. -/
inductive Queues.Step (backend : Timeline → Bool) (streamOf : Timeline → σ) :
    Queues σ → Queues σ → Prop
  /-- `submit` is called. The timeline of a queue is a `stream_timeline`. -/
  | submitted {q : Queues σ} (queue : Timeline) (cmd : SubmittedCommand)
      (stream : backend queue = true) :
      Step backend streamOf q { q with calls := q.calls ++
        [⟨queue, cmd, (q.world.timelines.given queue).length, none, cmd.begin⟩] }
  /-- A call that has begun goes on. -/
  | advanced {q : Queues σ} {c : Nat} {call call' : SubmitCall} {w : World σ}
      (has : q.calls[c]? = some call)
      (advance : Advance backend streamOf c q.world call w call') :
      Step backend streamOf q ⟨w, q.calls.set c call'⟩
  /-- A stream goes on, or somebody else does something with the timelines
  or issues work. -/
  | other {q : Queues σ} {a : Timelines σ (Option Nat)}
      (step : Timelines.Step streamOf q.world.timelines a)
      (unclaimed : ∀ c s i, (q.world.set a).WorkAt c s i → q.world.WorkAt c s i) :
      Step backend streamOf q { q with world := q.world.set a }
  /-- Somebody else records a use of a buffer. -/
  | used {q : Queues σ} {b : BufferId} {token : CommandToken} {room : Bool} {buffer : CudaBuffer}
      (used : (q.world.buffers b).recordUse room token = some buffer) :
      Step backend streamOf q { q with world := { q.world with
        buffers := Function.update q.world.buffers b buffer } }
  /-- A command of a timeline that is not of this backend finishes. -/
  | finished {q : Queues σ} (k : Command) :
      Step backend streamOf q { q with world := { q.world with
        finished := Function.update q.world.finished k true } }

end RexlibCuda
