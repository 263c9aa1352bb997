import RexlibCuda.QueueInvariant

/-! What submitting commands to queues comes to: commands run in the order of
their dependencies, no stream waits in a cycle, and a call of `submit` leaves
behind no work that nothing keeps track of. -/

namespace RexlibCuda

open Prog Streams Completion

variable {σ : Type}

/-- The command of the call was given the id. -/
def Queues.Names (q : Queues σ) (c : Nat) (k : Command) : Prop :=
  ∃ call, q.calls[c]? = some call ∧ call.queue = k.timeline ∧ call.recorded = some k.id

/-- Executing issues nobody's work. -/
theorem World.WorkAt.of_execute [DecidableEq σ] {w : World σ} {c : Nat} {s s' : σ}
    {i : Nat} (h : (w.set { w.timelines with
      device := w.timelines.device.execute s }).WorkAt c s' i) : w.WorkAt c s' i := by
  obtain ⟨stamp, hat⟩ := h
  exact ⟨stamp, Device.at_execute.mp hat⟩

/-- The id stands for a point behind all the work of the call. -/
def Queues.Marks (q : Queues σ) (c : Nat) (k : Command) : Prop :=
  ∃ p, (q.world.timelines.given k.timeline)[k.id]? = some p
    ∧ ∀ s i, q.world.WorkAt c s i → s = p.stream ∧ i < p.position

namespace Queues

variable [DecidableEq σ] {streamOf : Timeline → σ} {backend : Timeline → Bool} {q : Queues σ}
  {c : Nat} {call : SubmitCall} {buffers : BufferId → CudaBuffer} {finished : Command → Bool}

omit [DecidableEq σ] in
/-- The id a command was given stands for a point behind its work. -/
theorem Sound.marks (h : q.Sound streamOf backend) {k : Command} (hnames : q.Names c k) :
    q.Marks c k := by
  obtain ⟨call, hcall, hqueue, hrecorded⟩ := hnames
  have hsound := h.calls c call hcall
  obtain ⟨p, hp, hstream, hbefore⟩ := hsound.marked k.id hrecorded
  refine ⟨p, hqueue ▸ hp, fun s i hi => ⟨?_, hbefore s i hi⟩⟩
  rw [hsound.placed s i hi, hstream]

omit [DecidableEq σ] in
/-- The work of a command has finished once the point of its id is reached. -/
theorem Sound.named (h : q.Sound streamOf backend) {k : Command} (hnames : q.Names c k) :
    ∃ p, (q.world.timelines.given k.timeline)[k.id]? = some p
      ∧ (q.world.timelines.device.Reached p → q.world.Finished c) := by
  obtain ⟨p, hp, hbefore⟩ := h.marks hnames
  refine ⟨p, hp, fun hreached s i hi => ?_⟩
  obtain ⟨rfl, hlt⟩ := hbefore s i hi
  exact Nat.lt_of_lt_of_le hlt hreached

omit [DecidableEq σ] in
/-- Nor before does `is_complete` say so. -/
theorem Sound.named_complete (h : q.Sound streamOf backend) {k : Command} (hnames : q.Names c k)
    {answers : Answers} {a : Timelines σ (Option Nat)}
    (hasked : Timelines.isComplete answers k.timeline k.id q.world.timelines = (.ok true, a)) :
    q.world.Finished c := by
  obtain ⟨p, hp, hfinished⟩ := h.named hnames
  obtain ⟨-, p', hp', hreached⟩ := wp_returned (h.timelines.isComplete answers _ _) hasked
  rw [hp] at hp'
  cases hp'
  exact hfinished (hreached.mp rfl)

omit [DecidableEq σ] in
/-- A dependency that work comes after has finished when the work starts. -/
theorem Sound.dependency (h : q.Sound streamOf backend) {k : Command} {i : Nat}
    (hordered : Ordered streamOf backend q.world call i k)
    (hstarted : i ≤ q.world.executedOn (streamOf call.queue)) {c' : Nat} (hnames : q.Names c' k)
    (hbegun : k.timeline = call.queue → k.id < call.begun) : q.world.Finished c' := by
  obtain ⟨p, hp, hfinished⟩ := h.named hnames
  obtain ⟨other, hother, hqueue, -⟩ := hnames
  have hbackend : backend k.timeline = true := hqueue ▸ (h.calls c' other hother).stream
  unfold Ordered at hordered
  rw [if_pos (.inr hbackend)] at hordered
  obtain ⟨p', hp', hfollows⟩ := hordered hbegun
  rw [hp] at hp'
  cases hp'
  exact hfinished (hfollows.reached h.timelines.device hstarted)

/-- **The work of a command starts once what it depends on has finished**, and
its token only says that the command is complete once its work has finished. -/
theorem commands_ordered
    (h : Relation.ReflTransGen (Step backend streamOf) (start buffers finished) q)
    (hcall : q.calls[c]? = some call) :
    (∀ s i, q.world.WorkAt c s i → i ≤ q.world.executedOn s →
      ∀ k, some k ∈ call.command.dependencies →
        (backend k.timeline = false → q.world.finished k = true)
        ∧ ∀ c', q.Names c' k → (k.timeline = call.queue → k.id < call.begun) → q.world.Finished c')
    ∧ ∀ token, call.phase = .returned token →
        (∀ k ∈ token, ∃ answers a,
          Timelines.isComplete answers k.timeline k.id q.world.timelines = (.ok true, a)) →
        q.world.Finished c := by
  have hsound := Sound.reachable h
  have hmine := hsound.calls c call hcall
  constructor
  · intro s i hwork hstarted k hk
    obtain rfl := hmine.placed s i hwork
    have hordered := hmine.ordered _ i hwork _ hk k rfl
    refine ⟨fun hforeign => ?_, fun c' hnames hbegun => ?_⟩
    · have hne : k.timeline ≠ call.queue := by
        intro heq
        rw [heq, hmine.stream] at hforeign
        cases hforeign
      unfold Ordered at hordered
      rwa [if_neg (by simp [hne, hforeign])] at hordered
    · exact hsound.dependency hordered hstarted hnames hbegun
  · intro token hphase hcomplete
    have hprogress := hmine.progress
    rw [hphase] at hprogress
    cases token with
    | none => exact hprogress
    | some k =>
        obtain ⟨answers, a, hasked⟩ := hcomplete k rfl
        exact hsound.named_complete ⟨call, hcall, hprogress.1.symm, hprogress.2.1⟩ hasked

/-- A command of one queue that depends on one of another starts. -/
theorem commands_ordered_started : ∃ (q : Queues Nat) (call : SubmitCall),
    q.world.Finished 0 ∧ q.world.WorkAt 0 1 0 ∧ q.calls[1]? = some call
      ∧ some ⟨⟨1, by decide⟩, 0⟩ ∈ call.command.dependencies
      ∧ q.world.WorkAt 1 2 1 ∧ q.world.executedOn 2 = 1 := by
  have called : Relation.ReflTransGen (Step (fun _ => true) fun t => t.val.toNat)
      (start (fun _ => ⟨0, [], none⟩) (fun _ => false) : Queues Nat) _ :=
    .single (.submitted ⟨1, by decide⟩ ⟨.stream, [], [], [], []⟩ rfl)
  have launching := called.tail (.advanced (c := 0) rfl (.launchCalled rfl))
  have issued := launching.tail (.advanced (c := 0) rfl (.workIssued rfl))
  have launched := issued.tail (.advanced (c := 0) rfl (.launched rfl))
  have recorded := launched.tail (.advanced (c := 0) rfl (.recorded rfl rfl
    (show Timelines.record .good _ _ _ = (.ok 0, _) from rfl)))
  have returned := recorded.tail (.advanced (c := 0) rfl (.tracked rfl))
  have dependent := returned.tail
    (.submitted ⟨2, by decide⟩ ⟨.stream, [some ⟨⟨1, by decide⟩, 0⟩], [], [], []⟩ rfl)
  have waiting := dependent.tail (.advanced (c := 1) rfl (.waitEnqueued rfl rfl rfl
    (show Timelines.enqueueWait .good _ _ _ _ = (.ok (), _) from rfl)))
  have launching := waiting.tail (.advanced (c := 1) rfl (.launchCalled rfl))
  have issued := launching.tail (.advanced (c := 1) rfl (.workIssued rfl))
  have executed := issued.tail (.other (.executed
    (show Device.At _ 1 0 (.work (some 0)) 0 from rfl) fun p hp => by cases hp)
    fun _ _ _ h => h.of_execute)
  have waited := executed.tail (.other (.executed
    (show Device.At _ 2 0 (.wait ⟨1, 1⟩) 2 from rfl) fun p hp => by cases hp; decide)
    fun _ _ _ h => h.of_execute)
  have ordered := (commands_ordered waited (c := 1) rfl).1 2 1 ⟨3, rfl⟩ (Nat.le_refl 1) _
    (List.mem_singleton.mpr rfl)
  exact ⟨_, _, ordered.2 0 ⟨_, rfl, rfl, rfl⟩ (fun h => by cases h), ⟨0, rfl⟩, rfl,
    List.mem_singleton.mpr rfl, ⟨3, rfl⟩, rfl⟩

/-- **No streams wait for each other in a cycle**: where there is anything left
to execute, the oldest operation of some stream can be executed. -/
theorem no_cycle (h : Relation.ReflTransGen (Step backend streamOf) (start buffers finished) q)
    {s : σ} (hpending : q.world.executedOn s < q.world.issuedOn s) :
    ∃ s op stamp, q.world.timelines.device.At s (q.world.executedOn s) op stamp
      ∧ q.world.timelines.device.CanExecute op :=
  (Sound.reachable h).timelines.device.progress hpending

/-- A stream waits for another one, which goes on. -/
theorem no_cycle_waiting : ∃ (q : Queues Nat) (p : Point Nat),
    (∃ s op stamp, q.world.timelines.device.At s (q.world.executedOn s) op stamp
      ∧ q.world.timelines.device.CanExecute op)
      ∧ q.world.timelines.device.At 2 (q.world.executedOn 2) (.wait p) 2
      ∧ ¬ q.world.timelines.device.CanExecute (.wait p) := by
  have called : Relation.ReflTransGen (Step (fun _ => true) fun t => t.val.toNat)
      (start (fun _ => ⟨0, [], none⟩) (fun _ => false) : Queues Nat) _ :=
    .single (.submitted ⟨1, by decide⟩ ⟨.stream, [], [], [], []⟩ rfl)
  have launching := called.tail (.advanced (c := 0) rfl (.launchCalled rfl))
  have issued := launching.tail (.advanced (c := 0) rfl (.workIssued rfl))
  have launched := issued.tail (.advanced (c := 0) rfl (.launched rfl))
  have recorded := launched.tail (.advanced (c := 0) rfl (.recorded rfl rfl
    (show Timelines.record .good _ _ _ = (.ok 0, _) from rfl)))
  have dependent := recorded.tail
    (.submitted ⟨2, by decide⟩ ⟨.stream, [some ⟨⟨1, by decide⟩, 0⟩], [], [], []⟩ rfl)
  have waiting := dependent.tail (.advanced (c := 1) rfl (.waitEnqueued rfl rfl rfl
    (show Timelines.enqueueWait .good _ _ _ _ = (.ok (), _) from rfl)))
  exact ⟨_, ⟨1, 1⟩, no_cycle waiting (s := 2) (by decide), rfl, by decide⟩

/-- **Work never outlives what keeps its memory**, however `submit` is left, as
long as the last synchronization it makes succeeds. -/
theorem memory_kept (h : Relation.ReflTransGen (Step backend streamOf) (start buffers finished) q)
    (hcall : q.calls[c]? = some call) :
    (∀ e synchronized, call.phase = .threw e synchronized → synchronized ≠ some false →
      q.world.Idle c ∨ q.world.Finished c)
    ∧ (call.phase = .returned none → q.world.Finished c)
    ∧ ∀ k, call.phase = .returned (some k) → k.timeline = call.queue ∧ q.Marks c k
      ∧ (∀ answers a, Timelines.isComplete answers k.timeline k.id q.world.timelines = (.ok true, a) →
        q.world.Finished c)
      ∧ ∀ operand ∈ call.command.operands, ∃ b, operand = .own b
        ∧ ∃ use ∈ (q.world.buffers b).uses, Covers use k := by
  have hsound := Sound.reachable h
  have hprogress := (hsound.calls c call hcall).progress
  refine ⟨fun e synchronized hphase hsynchronized => ?_, fun hphase => ?_, fun k hphase => ?_⟩
  · rw [hphase] at hprogress
    rcases synchronized with _ | _ | _
    · exact .inl hprogress
    · exact absurd rfl hsynchronized
    · exact .inr hprogress
  · rw [hphase] at hprogress
    exact hprogress
  · rw [hphase] at hprogress
    obtain ⟨hqueue, hrecorded, htold⟩ := hprogress
    have hnames : q.Names c k := ⟨call, hcall, hqueue.symm, hrecorded⟩
    exact ⟨hqueue, hsound.marks hnames, fun answers a hasked => hsound.named_complete hnames hasked,
      htold⟩

/-- A command that writes one buffer, reads another and has a third for
scratch is submitted. -/
theorem memory_kept_returned : ∃ (q : Queues Nat) (call : SubmitCall),
    (∀ operand ∈ call.command.operands, ∃ b, operand = .own b
      ∧ ∃ use ∈ (q.world.buffers b).uses, Covers use ⟨⟨1, by decide⟩, 0⟩)
      ∧ q.calls[0]? = some call ∧ call.command.operands = [.own 0, .own 1, .own 2] := by
  have called : Relation.ReflTransGen (Step (fun _ => true) fun t => t.val.toNat)
      (start (fun _ => ⟨0, [], none⟩) (fun _ => false) : Queues Nat) _ :=
    .single (.submitted ⟨1, by decide⟩ ⟨.stream, [], [.own 0], [.own 1], [.own 2]⟩ rfl)
  have launching := called.tail (.advanced (c := 0) rfl (.launchCalled rfl))
  have issued := launching.tail (.advanced (c := 0) rfl (.workIssued rfl))
  have launched := issued.tail (.advanced (c := 0) rfl (.launched rfl))
  have recorded := launched.tail (.advanced (c := 0) rfl (.recorded rfl rfl
    (show Timelines.record .good _ _ _ = (.ok 0, _) from rfl)))
  have written := recorded.tail (.advanced (c := 0) rfl (.useRecorded rfl
    (show CudaBuffer.recordUse true _ _ = some _ from rfl)))
  have read := written.tail (.advanced (c := 0) rfl (.useRecorded rfl
    (show CudaBuffer.recordUse true _ _ = some _ from rfl)))
  have used := read.tail (.advanced (c := 0) rfl (.useRecorded rfl
    (show CudaBuffer.recordUse true _ _ = some _ from rfl)))
  have returned := used.tail (.advanced (c := 0) rfl (.tracked rfl))
  have kept := memory_kept returned (c := 0) rfl
  exact ⟨_, _, (kept.2.2 _ rfl).2.2.2, rfl, rfl⟩

end Queues

end RexlibCuda
