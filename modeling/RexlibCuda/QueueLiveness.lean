import RexlibCuda.Lib.Draining
import RexlibCuda.PluginCalls
import RexlibCuda.TimelineAnswers

/-! That the queues never get stuck: the streams execute all they were issued,
however they are scheduled, and a call of `submit` can always end by what it
does itself and what the streams execute. -/

namespace RexlibCuda

open Prog Streams Completion

open Relation (ReflTransGen)

variable {σ : Type}

/-! ## The streams -/

namespace Queues

variable {backend : Timeline → Bool} {streamOf : Timeline → σ} {q q' : Queues σ} {c : Nat}
  {call call' : SubmitCall} {buffers : BufferId → CudaBuffer} {finished : Command → Bool}

/-- The call is held up by nothing but what was issued, and the operands it has
yet to tell can be told. -/
def Unheld (streamOf : Timeline → σ) (w : World σ) (call : SubmitCall) : Prop :=
  match call.phase with
  | .synchronizing issued => issued ≤ w.issuedOn (streamOf call.queue)
  | .finishing _ issued => issued ≤ w.issuedOn (streamOf call.queue)
  | .recordingUse _ rest => ∀ operand ∈ rest, ∃ b, operand = .own b
  | _ => True

theorem Unheld.mono {w w' : World σ} (h : Unheld streamOf w call)
    (hissued : ∀ s, w.issuedOn s ≤ w'.issuedOn s) : Unheld streamOf w' call := by
  unfold Unheld at h ⊢
  split
  · rename_i hphase
    rw [hphase] at h
    exact Nat.le_trans h (hissued _)
  · rename_i hphase
    rw [hphase] at h
    exact Nat.le_trans h (hissued _)
  · rename_i hphase
    rw [hphase] at h
    exact h
  · trivial

theorem exists_own {operands : List Operand} (h : areOwnBuffers operands = true) :
    ∀ operand ∈ operands, ∃ b, operand = .own b := by
  induction operands with
  | nil => simp
  | cons operand operands ih =>
      cases operand with
      | own b =>
          intro operand hmem
          rcases List.mem_cons.mp hmem with rfl | hmem
          · exact ⟨b, rfl⟩
          · exact ih h operand hmem
      | _ => cases h

theorem exists_own_operands {cmd : SubmittedCommand} (h : cmd.holdsOwnBuffers = true) :
    ∀ operand ∈ cmd.operands, ∃ b, operand = .own b := by
  simp only [SubmittedCommand.holdsOwnBuffers, Bool.and_eq_true] at h
  intro operand hmem
  simp only [SubmittedCommand.operands, List.mem_append] at hmem
  rcases hmem with (hmem | hmem) | hmem
  · exact exists_own h.1.1 operand hmem
  · exact exists_own h.1.2 operand hmem
  · exact exists_own h.2 operand hmem

/-- What a timeline has given, streams that have drained have reached. -/
theorem Sound.given_reached (h : q.Sound streamOf backend)
    (hdrained : q.world.timelines.device.Drained) {t : Timeline} {p : Point σ}
    (hp : p ∈ q.world.timelines.given t) : q.world.timelines.device.Reached p := by
  obtain ⟨-, earlier, -, hat⟩ := (h.timelines.numbered t).given p hp
  exact hdrained.reached hat (Nat.le_succ _)

variable [DecidableEq σ]

/-- Some stream executes its oldest operation. -/
def Executes (q q' : Queues σ) : Prop :=
  ∃ d, Streams.Executes q.world.timelines.device d ∧
    q' = { q with world := q.world.set { q.world.timelines with device := d } }

theorem Executes.step (h : q.Executes q') : Step backend streamOf q q' := by
  obtain ⟨d, ⟨s, op, stamp, front, ready, rfl⟩, rfl⟩ := h
  exact .other (.executed front ready) fun _ _ _ h => h.of_execute

theorem Unheld.advance {w w' : World σ} (h : Unheld streamOf w call)
    (hadvance : Advance backend streamOf c w call w' call') : Unheld streamOf w' call' := by
  cases hadvance with
  | workIssued here =>
      unfold Unheld
      rw [here]
      trivial
  | synchronizeCalled here others => exact Nat.le_refl _
  | handlerCalled here => exact Nat.le_refl _
  | recorded here own returned => exact exists_own_operands own
  | useRecorded here used =>
      unfold Unheld at h
      rw [here] at h
      exact fun operand hmem => h operand (List.mem_cons_of_mem _ hmem)
  | _ => exact trivial

/-- What holds all along, apart from that only so many streams have work. -/
structure Lively (streamOf : Timeline → σ) (backend : Timeline → Bool) (q : Queues σ) : Prop where
  sound : q.Sound streamOf backend
  within : ∃ streams, q.world.timelines.device.Within streams
  unheld : ∀ (c : Nat) (call : SubmitCall), q.calls[c]? = some call → Unheld streamOf q.world call

theorem Step.device (hs : q.Sound streamOf backend) (hstep : Step backend streamOf q q') :
    Relation.ReflGen Streams.Step q.world.timelines.device q'.world.timelines.device := by
  have htimelines := hstep.timelines
  generalize q'.world.timelines = a at htimelines ⊢
  cases htimelines with
  | refl => exact .refl
  | single htimelines => exact hs.timelines.step_device htimelines

theorem Lively.step (h : q.Lively streamOf backend) (hstep : Step backend streamOf q q') :
    q'.Lively streamOf backend where
  sound := h.sound.step hstep
  within := by
    obtain ⟨streams, hwithin⟩ := h.within
    have hdevice := hstep.device h.sound
    generalize q'.world.timelines.device = d at hdevice ⊢
    cases hdevice with
    | refl => exact ⟨streams, hwithin⟩
    | single hdevice => exact hwithin.step hdevice
  unheld := by
    have hissued : ∀ s, q.world.issuedOn s ≤ q'.world.issuedOn s := fun s =>
      (Device.le_reflGen (hstep.device h.sound)).2
    intro c call' hcall'
    cases hstep with
    | submitted queue cmd stream =>
        rcases Nat.lt_or_ge c q.calls.length with hlt | hge
        · rw [List.getElem?_append_left hlt] at hcall'
          exact h.unheld c call' hcall'
        · rw [List.getElem?_append_right hge, List.getElem?_singleton] at hcall'
          split at hcall'
          · cases hcall'
            unfold Unheld SubmittedCommand.begin
            cases cmd.program <;> exact trivial
          · cases hcall'
    | advanced has advance =>
        rcases set_call has hcall' with ⟨rfl, rfl⟩ | ⟨-, hcall⟩
        · exact (h.unheld c _ has).advance advance
        · exact (h.unheld c call' hcall).mono hissued
    | _ => exact (h.unheld c call' hcall').mono hissued

theorem Lively.reachable (h : ReflTransGen (Step backend streamOf) (start buffers finished) q) :
    q.Lively streamOf backend :=
  Runs.invariant (fun _ _ hq hstep => hq.step hstep) h
    ⟨.start buffers finished, ⟨∅, .empty⟩, fun c call hcall => by cases hcall⟩

theorem Lively.executes (h : q.Lively streamOf backend) (hrun : ReflTransGen Executes q q') :
    q'.Lively streamOf backend :=
  Runs.invariant (fun _ _ hq hstep => hq.step hstep.step) hrun h

/-- Streams that are left alone come to an end. -/
theorem Lively.ends (h : q.Lively streamOf backend) : Acc (fun q' q => Executes q q') q := by
  obtain ⟨streams, hwithin⟩ := h.within
  have hless : ∀ q q' : Queues σ, q.world.timelines.device.Within streams → q.Executes q' →
      q'.world.timelines.device.Within streams ∧
        q'.world.timelines.device.left streams < q.world.timelines.device.left streams := by
    rintro q _ hwithin ⟨d, hexecutes, rfl⟩
    exact ⟨hexecutes.within hwithin, hexecutes.left_lt hwithin⟩
  exact @Runs.ends _ Executes (fun q => q.world.timelines.device.Within streams)
    (fun q => q.world.timelines.device.left streams) hless q hwithin

theorem Lively.drained (h : q.Lively streamOf backend) (hstuck : ∀ q', ¬ q.Executes q') :
    q.world.timelines.device.Drained :=
  h.sound.timelines.device.drained fun _ hexecutes => hstuck _ ⟨_, hexecutes, rfl⟩

/-- **The streams come to an end however they are scheduled**, as long as
nothing is issued. By then every command has finished, every id is complete, and
no thread in `wait` is held up. -/
theorem streams_drain (h : ReflTransGen (Step backend streamOf) (start buffers finished) q) :
    Acc (fun q' q => Executes q q') q ∧
    ∀ q', ReflTransGen Executes q q' → (∀ q'', ¬ q'.Executes q'') →
      (∀ s, q'.world.executedOn s = q'.world.issuedOn s) ∧
      (∀ c, q'.world.Finished c) ∧
      (∀ t, ∀ id < (q'.world.timelines.given t).length, ∀ answers : Answers,
        (∀ x, answers.queries x = true) →
        ∃ a, Timelines.isComplete answers t id q'.world.timelines = (.ok true, a)) ∧
      ∀ wait ∈ q'.world.timelines.waits, ∀ p, wait.phase = .blocked p →
        q'.world.timelines.device.Reached p := by
  have hlively := Lively.reachable h
  refine ⟨hlively.ends, fun q' hrun hstuck => ?_⟩
  have hlively' := hlively.executes hrun
  have hdrained := hlively'.drained hstuck
  have hsound := hlively'.sound
  refine ⟨hdrained, ?_, ?_, ?_⟩
  · intro c s i ⟨stamp, hat⟩
    have hlt := hat.lt
    rw [← hdrained s] at hlt
    exact hlt
  · intro t id hlt answers hqueries
    have hgiven := List.getElem?_eq_getElem hlt
    obtain ⟨complete, a, hasked⟩ :=
      (hsound.timelines.isComplete_returns hgiven fun x _ => hqueries x).exists_ok
    obtain ⟨-, p, hp, hcomplete⟩ := wp_returned (hsound.timelines.isComplete answers t id) hasked
    have hreached := hsound.given_reached hdrained (List.mem_of_getElem? hp)
    rw [hcomplete.mpr hreached] at hasked
    exact ⟨a, hasked⟩
  · intro wait hwait p hphase
    obtain ⟨p', hp', -, hblocked, -⟩ :=
      hsound.timelines.waitingFor (hsound.timelines.waiting wait hwait)
    rw [hblocked p hphase]
    exact hsound.given_reached hdrained (List.mem_of_getElem? hp')

/-- The first command of the first queue was issued. -/
def issuedQueues : Queues Nat :=
  ⟨⟨{ (Timelines.empty : Timelines Nat (Option Nat)) with
      device := Device.empty.issue 1 (.work (some 0)) }, fun _ => ⟨0, [], none⟩, fun _ => false⟩,
    [⟨⟨1, Int.one_ne_zero⟩, ⟨.stream, [], [], [], []⟩, 0, none, .launching⟩]⟩

theorem issuedQueues_reached : ReflTransGen (Step (fun _ => true) fun t => t.val.toNat)
    (start (fun _ => ⟨0, [], none⟩) fun _ => false) issuedQueues := by
  have called : ReflTransGen (Step (fun _ => true) fun t => t.val.toNat)
      (start (fun _ => ⟨0, [], none⟩) (fun _ => false) : Queues Nat) _ :=
    .single (.submitted ⟨1, by decide⟩ ⟨.stream, [], [], [], []⟩ rfl)
  have launching := called.tail (.advanced (c := 0) rfl (.launchCalled rfl))
  exact launching.tail (.advanced (c := 0) rfl (.workIssued rfl))

/-- Its stream executes it, and comes to an end. -/
theorem streams_drain_issued : ∃ q' : Queues Nat, ReflTransGen Executes issuedQueues q' ∧
    q'.world.WorkAt 0 1 0 ∧ q'.world.Finished 0 := by
  have executed : ReflTransGen Executes issuedQueues _ :=
    .single ⟨_, ⟨1, .work (some 0), 0, rfl, fun p hp => (by cases hp), rfl⟩, rfl⟩
  have drained := (streams_drain issuedQueues_reached).2 _ executed
  refine ⟨_, executed, ⟨0, rfl⟩, (drained ?_).2.1 0⟩
  rintro q'' ⟨d, ⟨s, op, stamp, hat, -⟩, -⟩
  by_cases hs : s = 1
  · subst hs
    cases hat
  · simp [Device.At, World.set, issuedQueues, Device.execute, Device.issue, Device.empty, hs] at hat

/-! ## A call of `submit` -/

/-- Nothing happens but what the call does itself, where it issues no more work,
and what would happen if nobody else did anything: streams execute, and commands
of other backends finish. -/
inductive Unaided (backend : Timeline → Bool) (streamOf : Timeline → σ) (c : Nat) :
    Queues σ → Queues σ → Prop
  | executed {q q' : Queues σ} (executes : q.Executes q') : Unaided backend streamOf c q q'
  | finished {q : Queues σ} (k : Command) :
      Unaided backend streamOf c q { q with world := { q.world with
        finished := Function.update q.world.finished k true } }
  | advanced {q : Queues σ} {call call' : SubmitCall} {w : World σ}
      (has : q.calls[c]? = some call)
      (advance : Advance backend streamOf c q.world call w call') (goes : call'.phase ≠ call.phase) :
      Unaided backend streamOf c q ⟨w, q.calls.set c call'⟩

theorem Unaided.step (h : Unaided backend streamOf c q q') : Step backend streamOf q q' := by
  cases h with
  | executed executes => exact executes.step
  | finished k => exact .finished k
  | advanced has advance goes => exact .advanced has advance

/-- The call has been given what it depends on. -/
structure Able (streamOf : Timeline → σ) (backend : Timeline → Bool) (c : Nat) (call : SubmitCall)
    (q : Queues σ) : Prop where
  lively : q.Lively streamOf backend
  has : q.calls[c]? = some call
  known : ∀ k, some k ∈ call.command.dependencies → backend k.timeline = true →
    k.id < (q.world.timelines.given k.timeline).length

section Able

theorem Step.given_le (hs : q.Sound streamOf backend) (hstep : Step backend streamOf q q')
    (t : Timeline) :
    (q.world.timelines.given t).length ≤ (q'.world.timelines.given t).length := by
  have htimelines := hstep.timelines
  generalize q'.world.timelines = a at htimelines ⊢
  cases htimelines with
  | refl => exact Nat.le_refl _
  | single htimelines =>
      obtain ⟨more, hmore⟩ := hs.timelines.step_given htimelines t
      rw [← hmore, List.length_append]
      exact Nat.le_add_right _ _

theorem Able.step (h : Able streamOf backend c call q) (hstep : Step backend streamOf q q')
    (hcall' : q'.calls[c]? = some call') (hcommand : call'.command = call.command) :
    Able streamOf backend c call' q' where
  lively := h.lively.step hstep
  has := hcall'
  known := by
    intro k hk hbackend
    rw [hcommand] at hk
    exact Nat.lt_of_lt_of_le (h.known k hk hbackend) (hstep.given_le h.lively.sound _)

/-- The streams can catch up with the call. -/
theorem Able.drains (h : Able streamOf backend c call q) :
    ∃ q', ReflTransGen (Unaided backend streamOf c) q q' ∧ Able streamOf backend c call q' ∧
      q'.world.timelines.device.Drained := by
  obtain ⟨q', hrun, hstuck⟩ := Runs.exists_end h.lively.ends
  have hcalls : Able streamOf backend c call q' := by
    refine Runs.invariant (I := fun q => Able streamOf backend c call q) ?_ hrun h
    rintro q₁ _ h₁ hexecutes
    refine h₁.step hexecutes.step ?_ rfl
    obtain ⟨d, -, rfl⟩ := hexecutes
    exact h₁.has
  exact ⟨q', hrun.lift id fun _ _ => .executed, hcalls, hcalls.lively.drained hstuck⟩

/-- The call comes to where the property holds of its phase. -/
def Comes (backend : Timeline → Bool) (streamOf : Timeline → σ) (c : Nat) (P : SubmitPhase → Prop)
    (q : Queues σ) : Prop :=
  ∃ q' call', ReflTransGen (Unaided backend streamOf c) q q' ∧ q'.calls[c]? = some call' ∧
    P call'.phase

section Comes

variable {P : SubmitPhase → Prop}

theorem Comes.of_run (hrun : ReflTransGen (Unaided backend streamOf c) q q')
    (h : Comes backend streamOf c P q') : Comes backend streamOf c P q := by
  obtain ⟨q'', call'', hrun', hcall'', hP⟩ := h
  exact ⟨q'', call'', hrun.trans hrun', hcall'', hP⟩

/-- The call goes on. -/
theorem Able.advance (h : Able streamOf backend c call q) {w : World σ}
    (hadvance : Advance backend streamOf c q.world call w call') (hgoes : call'.phase ≠ call.phase)
    (hthen : Able streamOf backend c call' ⟨w, q.calls.set c call'⟩ →
      Comes backend streamOf c P ⟨w, q.calls.set c call'⟩) : Comes backend streamOf c P q := by
  have hset : (q.calls.set c call')[c]? = some call' :=
    List.getElem?_set_self (List.getElem?_eq_some_iff.mp h.has).1
  exact .of_run (.single (.advanced h.has hadvance hgoes))
    (hthen (h.step (.advanced h.has hadvance) hset hadvance.call_eq.2.1))

/-- A call that has come there. -/
theorem Able.comes (h : Able streamOf backend c call q) (hP : P call.phase) :
    Comes backend streamOf c P q := ⟨q, call, .refl, h.has, hP⟩

/-- The phase of a call that has returned. -/
def Returned (phase : SubmitPhase) : Prop := ∃ token, phase = .returned token

theorem Able.recordingUse (h : Able streamOf backend c call q) {id : Nat} {rest : List Operand}
    (hphase : call.phase = .recordingUse id rest) : Comes backend streamOf c Returned q := by
  induction rest generalizing q call with
  | nil =>
      refine h.advance (.tracked hphase) (by simp [hphase]) fun h' => h'.comes ⟨_, rfl⟩
  | cons operand rest ih =>
      have hown := h.lively.unheld c call h.has
      unfold Unheld at hown
      rw [hphase] at hown
      obtain ⟨b, rfl⟩ := hown operand List.mem_cons_self
      -- the host has room for one more use
      obtain ⟨buffer, hused⟩ : ∃ buffer,
          (q.world.buffers b).recordUse true (some ⟨call.queue, id⟩) = some buffer := by
        unfold CudaBuffer.recordUse
        split
        · exact ⟨_, rfl⟩
        · split <;> exact ⟨_, rfl⟩
      exact h.advance (.useRecorded hphase hused) (by simp [hphase]) fun h' => ih h' rfl

theorem Able.synchronizing (h : Able streamOf backend c call q) {issued : Nat}
    (hphase : call.phase = .synchronizing issued) : Comes backend streamOf c Returned q := by
  obtain ⟨q', hrun, h', hdrained⟩ := h.drains
  have hheld := h'.lively.unheld c call h'.has
  unfold Unheld at hheld
  rw [hphase] at hheld
  have hexecuted : issued ≤ q'.world.executedOn (streamOf call.queue) :=
    Nat.le_trans hheld (Nat.le_of_eq (hdrained _).symm)
  exact .of_run hrun (h'.advance (.synchronized hphase hexecuted) (by simp [hphase])
    fun h'' => h''.comes ⟨_, rfl⟩)

theorem Able.tracking (h : Able streamOf backend c call q) (hphase : call.phase = .tracking) :
    Comes backend streamOf c Returned q := by
  cases hown : call.command.holdsOwnBuffers with
  | true =>
      obtain ⟨id, a, hrecorded⟩ := (Timelines.record_returns call.queue (streamOf call.queue)
        q.world.timelines (show Answers.good.reserves = true from rfl) rfl rfl rfl
        fun _ _ => rfl).exists_ok
      exact h.advance (.recorded hphase hown hrecorded) (by simp [hphase])
        fun h' => h'.recordingUse rfl
  | false =>
      exact h.advance (.synchronizeCalled hphase hown) (by simp [hphase])
        fun h' => h'.synchronizing rfl

theorem Able.launching (h : Able streamOf backend c call q) (hphase : call.phase = .launching) :
    Comes backend streamOf c Returned q :=
  h.advance (.launched hphase) (by simp [hphase]) fun h' => h'.tracking rfl

theorem Able.waitingFor (h : Able streamOf backend c call q) {rest : List CommandToken}
    (hphase : call.phase = .waitingFor rest) : Comes backend streamOf c Returned q := by
  induction rest generalizing q call with
  | nil => exact h.advance (.launchCalled hphase) (by simp [hphase]) fun h' => h'.launching rfl
  | cons d rest ih =>
      have hprogress := (h.lively.sound.calls c call h.has).progress
      rw [hphase] at hprogress
      obtain ⟨-, -, past, hpast, -⟩ := hprogress
      cases hskips : skipsWait call.queue d with
      | true => exact h.advance (.waitSkipped hphase hskips) (by simp [hphase]) fun h' => ih h' rfl
      | false =>
          cases d with
          | none => cases hskips
          | some k =>
              have hmem : some k ∈ call.command.dependencies := by
                rw [hpast]
                simp
              cases hbackend : backend k.timeline with
              | true =>
                  obtain ⟨_, a, henqueued⟩ := (h.lively.sound.timelines.enqueueWait_returns
                    (streamOf call.queue) (h.known k hmem hbackend)
                    (show Answers.good.schedules = true from rfl)).exists_ok
                  exact h.advance (.waitEnqueued hphase hskips hbackend henqueued) (by simp [hphase])
                    fun h' => ih h' rfl
              | false =>
                  -- the command of the other backend finishes first
                  refine .of_run (.single (.finished k)) ?_
                  have h' := h.step (.finished k) h.has rfl
                  exact h'.advance (.waited hphase hskips hbackend (Function.update_self ..))
                    (by simp [hphase]) fun h'' => ih h'' rfl

theorem Able.finishing (h : Able streamOf backend c call q) {e : Exn} {issued : Nat}
    (hphase : call.phase = .finishing e issued) :
    Comes backend streamOf c (fun phase => phase = .threw e (some true)) q := by
  obtain ⟨q', hrun, h', hdrained⟩ := h.drains
  have hheld := h'.lively.unheld c call h'.has
  unfold Unheld at hheld
  rw [hphase] at hheld
  have hexecuted : issued ≤ q'.world.executedOn (streamOf call.queue) :=
    Nat.le_trans hheld (Nat.le_of_eq (hdrained _).symm)
  exact .of_run hrun (h'.advance (.handlerSynchronized hphase hexecuted) (by simp [hphase])
    fun h'' => h''.comes rfl)

theorem Able.failing (h : Able streamOf backend c call q) {e : Exn}
    (hphase : call.phase = .failing e) :
    Comes backend streamOf c (fun phase => phase = .threw e (some true)) q :=
  h.advance (.handlerCalled hphase) (by simp [hphase]) fun h' => h'.finishing rfl

end Comes

end Able

/-- What the handler of `submit` was entered with, where it was. -/
def caught : SubmitPhase → Option Exn
  | .failing e => some e
  | .finishing e _ => some e
  | _ => none

/-- **A call of `submit` is never stuck.** Wherever it is, it can return, or
throw what its handler caught, by what it does itself and what the streams
execute. -/
theorem submit_ends (h : ReflTransGen (Step backend streamOf) (start buffers finished) q)
    (hcall : q.calls[c]? = some call) (hover : call.phase.over = false)
    (hknown : ∀ k, some k ∈ call.command.dependencies → backend k.timeline = true →
      k.id < (q.world.timelines.given k.timeline).length) :
    ∃ q' call', ReflTransGen (Unaided backend streamOf c) q q' ∧ q'.calls[c]? = some call' ∧
      match caught call.phase with
      | none => ∃ token, call'.phase = .returned token
      | some e => call'.phase = .threw e (some true) := by
  have hable : Able streamOf backend c call q := ⟨.reachable h, hcall, hknown⟩
  cases hphase : call.phase with
  | waitingFor rest => exact hable.waitingFor hphase
  | launching => exact hable.launching hphase
  | tracking => exact hable.tracking hphase
  | synchronizing issued => exact hable.synchronizing hphase
  | recordingUse id rest => exact hable.recordingUse hphase
  | failing e => exact hable.failing hphase
  | finishing e issued => exact hable.finishing hphase
  | returned token =>
      rw [hphase] at hover
      cases hover
  | threw e synchronized =>
      rw [hphase] at hover
      cases hover

/-- A call that waits for a command which has not been executed. -/
theorem submit_ends_waiting : ∃ (q q' : Queues Nat) (call call' : SubmitCall),
    ReflTransGen (Unaided (fun _ => true) (fun t => t.val.toNat) 1) q q' ∧
      q.calls[1]? = some call ∧ call.phase = .waitingFor [some ⟨⟨1, by decide⟩, 0⟩] ∧
      ¬ q.world.Finished 0 ∧ q'.calls[1]? = some call' ∧ ∃ token, call'.phase = .returned token := by
  have launched := issuedQueues_reached.tail (.advanced (c := 0) rfl (.launched rfl))
  have recorded := launched.tail (.advanced (c := 0) rfl (.recorded rfl rfl
    (show Timelines.record .good _ _ _ = (.ok 0, _) from rfl)))
  have dependent := recorded.tail
    (.submitted ⟨2, by decide⟩ ⟨.stream, [some ⟨⟨1, by decide⟩, 0⟩], [], [], []⟩ rfl)
  obtain ⟨q', call', hrun, hcall', hreturned⟩ := submit_ends dependent (c := 1) rfl rfl
    fun k hk _ => by cases List.mem_singleton.mp hk; decide
  refine ⟨_, q', _, call', hrun, rfl, rfl, fun h => ?_, hcall', hreturned⟩
  exact absurd (h 1 0 ⟨0, rfl⟩) (by decide)

end Queues

end RexlibCuda
