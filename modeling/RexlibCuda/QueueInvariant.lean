import RexlibCuda.CommandQueue
import RexlibCuda.TimelineInvariant

/-! What holds of every call of `submit`, wherever it is and whatever the others
do in between. -/

namespace RexlibCuda

open Prog Streams Completion

variable {σ : Type}

namespace World

/-- The work of the call has finished. -/
def Finished (w : World σ) (c : Nat) : Prop :=
  ∀ s i, w.WorkAt c s i → i < w.executedOn s

/-- No work of the call was issued. -/
def Idle (w : World σ) (c : Nat) : Prop := ∀ s i, ¬ w.WorkAt c s i

/-- The work of the call stands before the index. -/
def Before (w : World σ) (c : Nat) (n : Nat) : Prop := ∀ s i, w.WorkAt c s i → i < n

/-- The operand is a buffer that has a use recorded that covers the command. -/
def Told (w : World σ) (k : Command) (operand : Operand) : Prop :=
  ∃ b, operand = .own b ∧ ∃ use ∈ (w.buffers b).uses, Covers use k

end World

/-- What is put at the index of the stream of the queue comes after the command
of the dependency: after its point, if it is of this backend, or else it has
finished already. A dependency on the queue itself counts if it was there when
the call began. -/
def Ordered (streamOf : Timeline → σ) (backend : Timeline → Bool) (w : World σ) (call : SubmitCall)
    (i : Nat) (k : Command) : Prop :=
  if k.timeline = call.queue ∨ backend k.timeline = true then
    (k.timeline = call.queue → k.id < call.begun) →
      ∃ p, (w.timelines.given k.timeline)[k.id]? = some p
        ∧ w.timelines.device.Follows (streamOf call.queue) i p
  else w.finished k = true

/-- What else is known of a call in each of its phases. -/
def SubmitCall.Progress (streamOf : Timeline → σ) (backend : Timeline → Bool) (w : World σ) (c : Nat)
    (call : SubmitCall) : SubmitPhase → Prop
  | .waitingFor rest => w.Idle c ∧ call.recorded = none
      ∧ ∃ past, call.command.dependencies = past ++ rest ∧ ∀ d ∈ past, ∀ k ∈ d,
        Ordered streamOf backend w call (w.issuedOn (streamOf call.queue)) k
  | .launching => call.recorded = none ∧ ∀ d ∈ call.command.dependencies, ∀ k ∈ d,
      Ordered streamOf backend w call (w.issuedOn (streamOf call.queue)) k
  | .tracking => call.recorded = none
  | .synchronizing issued => w.Before c issued
  | .recordingUse id rest => call.recorded = some id
      ∧ ∃ told, call.command.operands = told ++ rest ∧ ∀ operand ∈ told, w.Told ⟨call.queue, id⟩ operand
  | .failing _ => True
  | .finishing _ issued => w.Before c issued
  | .returned none => w.Finished c
  | .returned (some k) => k.timeline = call.queue ∧ call.recorded = some k.id
      ∧ ∀ operand ∈ call.command.operands, w.Told k operand
  | .threw _ none => w.Idle c
  | .threw _ (some true) => w.Finished c
  | .threw _ (some false) => True

/-- **What holds of a call of `submit`**, the one with index `c`. -/
structure SubmitCall.Sound (streamOf : Timeline → σ) (backend : Timeline → Bool) (w : World σ)
    (c : Nat) (call : SubmitCall) : Prop where
  stream : backend call.queue = true
  /-- Its work is on the stream of the queue. -/
  placed : ∀ s i, w.WorkAt c s i → s = streamOf call.queue
  /-- It comes after what the command depends on. -/
  ordered : ∀ s i, w.WorkAt c s i → ∀ d ∈ call.command.dependencies, ∀ k ∈ d,
    Ordered streamOf backend w call i k
  /-- The ids that were there when the call began are there. -/
  begun : ∀ id < call.begun, ∃ p, (w.timelines.given call.queue)[id]? = some p
  /-- The id of the command stands for a point behind all of its work. -/
  marked : ∀ id, call.recorded = some id → ∃ p, (w.timelines.given call.queue)[id]? = some p
    ∧ p.stream = streamOf call.queue ∧ w.Before c p.position
  progress : call.Progress streamOf backend w c call.phase

/-- **What holds in every reachable state.** -/
structure Queues.Sound (streamOf : Timeline → σ) (backend : Timeline → Bool) (q : Queues σ) :
    Prop where
  timelines : q.world.timelines.Sound streamOf
  calls : ∀ (c : Nat) (call : SubmitCall), q.calls[c]? = some call → call.Sound streamOf backend q.world c
  /-- Work is of calls that have begun. -/
  claimed : ∀ c s i, q.world.WorkAt c s i → c < q.calls.length

/-! ## What is known of a call -/

section Call

variable {streamOf : Timeline → σ} {backend : Timeline → Bool} {c : Nat} {w : World σ}
  {call : SubmitCall}

/-- All the work issued so far stands before the end of its stream. -/
theorem SubmitCall.Sound.before (h : call.Sound streamOf backend w c) :
    w.Before c (w.issuedOn (streamOf call.queue)) := by
  intro s i hi
  obtain rfl := h.placed s i hi
  obtain ⟨stamp, hat⟩ := hi
  exact hat.lt

/-- Work that stands before what a stream has executed has finished. -/
theorem SubmitCall.Sound.finished (h : call.Sound streamOf backend w c) {n : Nat}
    (hbefore : w.Before c n) (hn : n ≤ w.executedOn (streamOf call.queue)) : w.Finished c := by
  intro s i hi
  obtain rfl := h.placed s i hi
  exact Nat.lt_of_lt_of_le (hbefore _ i hi) hn

/-- A call that comes into another phase. -/
theorem SubmitCall.Sound.into (h : call.Sound streamOf backend w c) {phase : SubmitPhase}
    (hprogress : ({ call with phase }).Progress streamOf backend w c phase) :
    ({ call with phase }).Sound streamOf backend w c :=
  ⟨h.stream, h.placed, h.ordered, h.begun, h.marked, hprogress⟩

/-- A dependency on the queue itself needs no wait. -/
theorem SubmitCall.Sound.ordered_own (h : call.Sound streamOf backend w c)
    (hs : w.timelines.Sound streamOf) {k : Command} (hk : k.timeline = call.queue) :
    Ordered streamOf backend w call (w.issuedOn (streamOf call.queue)) k := by
  unfold Ordered
  rw [if_pos (.inl hk)]
  intro hbegun
  -- the point lies on the stream of the queue, before where it ends
  obtain ⟨p, hp⟩ := h.begun k.id (hbegun hk)
  obtain ⟨hstream, earlier, -, hat⟩ :=
    (hs.numbered call.queue).given p (List.mem_of_getElem? hp)
  refine ⟨p, by rw [hk]; exact hp, .inr (.inr ⟨hstream, ?_⟩)⟩
  rw [hstream] at hat
  exact Nat.le_of_lt hat.lt

theorem skipsWait_eq_true {queue : Timeline} {d : CommandToken} :
    skipsWait queue d = true ↔ ∀ k ∈ d, k.timeline = queue := by
  cases d with
  | none => simp [skipsWait]
  | some k => simp [skipsWait]

theorem skipsWait_eq_false {queue : Timeline} {k : Command} :
    skipsWait queue (some k) = false ↔ k.timeline ≠ queue := by
  simp [skipsWait]

/-- The next dependency is dealt with. -/
theorem SubmitCall.Progress.waitedFor {d : CommandToken} {rest : List CommandToken}
    (h : call.Progress streamOf backend w c (.waitingFor (d :: rest)))
    (hd : ∀ k ∈ d, Ordered streamOf backend w call (w.issuedOn (streamOf call.queue)) k) :
    call.Progress streamOf backend w c (.waitingFor rest) := by
  obtain ⟨hidle, hrecorded, past, hpast, hordered⟩ := h
  refine ⟨hidle, hrecorded, past ++ [d], by rw [hpast]; simp, ?_⟩
  intro d' hd'
  rcases List.mem_append.mp hd' with hd' | hd'
  · exact hordered d' hd'
  · rw [List.mem_singleton.mp hd']
    exact hd

end Call

/-! ## Going on -/

variable [DecidableEq σ]

/-- What a call may count on while others go on. -/
structure Grows (c : Nat) (w w' : World σ) : Prop where
  given : ∀ (t : Timeline) (id : Nat) (p : Point σ), (w.timelines.given t)[id]? = some p →
    (w'.timelines.given t)[id]? = some p
  device : Relation.ReflGen Streams.Step w.timelines.device w'.timelines.device
  work : ∀ s i, w'.WorkAt c s i → w.WorkAt c s i
  told : ∀ k operand, w.Told k operand → w'.Told k operand
  finished : ∀ k, w.finished k = true → w'.finished k = true

section Grows

variable {streamOf : Timeline → σ} {backend : Timeline → Bool} {c : Nat} {w w' : World σ}
  {call : SubmitCall} {i j : Nat} {k : Command}

theorem Grows.refl (c : Nat) (w : World σ) : Grows c w w :=
  ⟨fun _ _ _ h => h, .refl, fun _ _ h => h, fun _ _ h => h, fun _ h => h⟩

theorem Grows.executed (h : Grows c w w') (s : σ) : w.executedOn s ≤ w'.executedOn s :=
  (Device.le_reflGen h.device).1

theorem Grows.issued (h : Grows c w w') (s : σ) : w.issuedOn s ≤ w'.issuedOn s :=
  (Device.le_reflGen h.device).2

theorem Grows.follows (h : Grows c w w') {s : σ} {p : Point σ}
    (hp : w.timelines.device.Follows s i p) (hij : i ≤ j) :
    w'.timelines.device.Follows s j p :=
  (hp.reflGen h.device).mono hij

theorem Grows.ordered (h : Grows c w w') (hk : Ordered streamOf backend w call i k) (hij : i ≤ j) :
    Ordered streamOf backend w' call j k := by
  unfold Ordered at hk ⊢
  split
  · rename_i hbackend
    rw [if_pos hbackend] at hk
    intro hown
    obtain ⟨p, hp, hfollows⟩ := hk hown
    exact ⟨p, h.given _ _ p hp, h.follows hfollows hij⟩
  · rename_i hforeign
    rw [if_neg hforeign] at hk
    exact h.finished k hk

theorem World.Finished.grows (hw : w.Finished c) (h : Grows c w w') : w'.Finished c :=
  fun s i hi => Nat.lt_of_lt_of_le (hw s i (h.work s i hi)) (h.executed s)

theorem World.Idle.grows (hw : w.Idle c) (h : Grows c w w') : w'.Idle c :=
  fun s i hi => hw s i (h.work s i hi)

theorem World.Before.grows {n : Nat} (hw : w.Before c n) (h : Grows c w w') : w'.Before c n :=
  fun s i hi => hw s i (h.work s i hi)

theorem SubmitCall.Progress.grows (h : Grows c w w') {phase : SubmitPhase}
    (hp : call.Progress streamOf backend w c phase) : call.Progress streamOf backend w' c phase := by
  cases phase with
  | waitingFor rest =>
      obtain ⟨hidle, hrecorded, past, hpast, hordered⟩ := hp
      exact ⟨hidle.grows h, hrecorded, past, hpast,
        fun d hd k hk => h.ordered (hordered d hd k hk) (h.issued _)⟩
  | launching => exact ⟨hp.1, fun d hd k hk => h.ordered (hp.2 d hd k hk) (h.issued _)⟩
  | tracking => exact hp
  | synchronizing issued => exact World.Before.grows hp h
  | recordingUse id rest =>
      obtain ⟨hrecorded, told, htold, hall⟩ := hp
      exact ⟨hrecorded, told, htold, fun operand hmem => h.told _ _ (hall operand hmem)⟩
  | failing e => trivial
  | finishing e issued => exact World.Before.grows hp h
  | returned token =>
      cases token with
      | none => exact World.Finished.grows hp h
      | some k => exact ⟨hp.1, hp.2.1, fun operand hmem => h.told _ _ (hp.2.2 operand hmem)⟩
  | threw e synchronized =>
      rcases synchronized with _ | _ | _
      · exact World.Idle.grows hp h
      · trivial
      · exact World.Finished.grows hp h

/-- **Others do not disturb a call.** -/
theorem SubmitCall.Sound.grows (hc : call.Sound streamOf backend w c) (h : Grows c w w') :
    call.Sound streamOf backend w' c where
  stream := hc.stream
  placed s i hi := hc.placed s i (h.work s i hi)
  ordered s i hi d hd k hk :=
    h.ordered (hc.ordered s i (h.work s i hi) d hd k hk) (Nat.le_refl _)
  begun := by
    intro id hid
    obtain ⟨p, hp⟩ := hc.begun id hid
    exact ⟨p, h.given _ _ p hp⟩
  marked := by
    intro id hid
    obtain ⟨p, hp, hstream, hbefore⟩ := hc.marked id hid
    exact ⟨p, h.given _ _ p hp, hstream, hbefore.grows h⟩
  progress := hc.progress.grows h

end Grows

/-! ## What the steps change -/

variable {streamOf : Timeline → σ} {backend : Timeline → Bool} {c c' : Nat} {w w' : World σ}
  {call call' : SubmitCall} {a : Timelines σ (Option Nat)}

/-- Nobody's work is issued with another operation. -/
theorem World.WorkAt.of_issue {s s' : σ} {i : Nat} {op : Op σ (Option Nat)}
    (h : (w.set a).WorkAt c s' i) (ha : a.device = w.timelines.device.issue s op)
    (hop : op ≠ .work (some c)) : w.WorkAt c s' i := by
  obtain ⟨stamp, hat⟩ := h
  have hat : a.device.At s' i (.work (some c)) stamp := hat
  rw [ha] at hat
  rcases hat.of_issue with hat | ⟨-, -, heq, -⟩
  · exact ⟨stamp, hat⟩
  · exact absurd heq.symm hop

/-- A step of the timelines that issues nothing for the call. -/
theorem Grows.step (hs : w.timelines.Sound streamOf) (hstep : Timelines.Step streamOf w.timelines a)
    (hwork : ∀ s i, (w.set a).WorkAt c s i → w.WorkAt c s i) : Grows c w (w.set a) where
  given := by
    intro t id p hp
    obtain ⟨more, hmore⟩ := hs.step_given hstep t
    show (a.given t)[id]? = some p
    rw [← hmore, List.getElem?_append_left (List.getElem?_eq_some_iff.mp hp).1]
    exact hp
  device := hs.step_device hstep
  work := hwork
  told _ _ h := h
  finished _ h := h

/-- Recording a use of a buffer makes it forget none. -/
theorem Grows.used {b : BufferId} {room : Bool} {token : CommandToken} {buffer : CudaBuffer}
    (hused : (w.buffers b).recordUse room token = some buffer) :
    Grows c w { w with buffers := Function.update w.buffers b buffer } where
  given _ _ _ h := h
  device := .refl
  work _ _ h := h
  told := by
    intro k operand ⟨b', hown, use, hmem, hcovers⟩
    refine ⟨b', hown, ?_⟩
    show ∃ use ∈ (Function.update w.buffers b buffer b').uses, Covers use k
    by_cases hb : b' = b
    · -- a use that made way did so for a later one of its timeline
      subst hb
      obtain ⟨d, hd, htl, hid⟩ := hcovers
      obtain ⟨use', hmem', d', hd', htl', hid'⟩ :=
        (CudaBuffer.recordUse_covers hused).2 use hmem d hd
      rw [Function.update_self]
      exact ⟨use', hmem', d', hd', htl'.trans htl, Nat.le_trans hid hid'⟩
    · rw [Function.update_of_ne hb]
      exact ⟨use, hmem, hcovers⟩
  finished _ h := h

/-- `enqueue_wait` issues no work. -/
theorem Grows.enqueueWait (hs : w.timelines.Sound streamOf) {answers : Answers} {waiter : σ}
    {t : Timeline} {id : Nat} {result : Except Exn Unit}
    (hrun : Timelines.enqueueWait answers waiter t id w.timelines = (result, a)) :
    Grows c w (w.set a) := by
  apply Grows.step hs (.enqueued hrun)
  intro s i hwork
  rcases hs.enqueueWait_final answers hrun with rfl | ⟨p, -, rfl⟩
  · exact hwork
  · exact hwork.of_issue rfl (by simp)

/-- Nor does `record`, whether it returns or throws. -/
theorem Grows.record (hs : w.timelines.Sound streamOf) {answers : Answers} {t : Timeline} {id : Nat}
    (hrun : Timelines.record answers t (streamOf t) w.timelines = (.ok id, a)) :
    Grows c w (w.set (a.give t (w.timelines.device.last (streamOf t)) id)) := by
  obtain ⟨-, -, -, hdevice⟩ := wp_returned (hs.record _ _) hrun
  apply Grows.step hs (.recorded hrun)
  intro s i hwork
  exact hwork.of_issue hdevice (by simp)

theorem Grows.recordThrew (hs : w.timelines.Sound streamOf) {answers : Answers} {t : Timeline}
    {e : Exn} (hrun : Timelines.record answers t (streamOf t) w.timelines = (.error e, a)) :
    Grows c w (w.set a) := by
  obtain ⟨-, -, hdevice⟩ := wp_thrown (hs.record _ _) hrun
  apply Grows.step hs (.recordThrew hrun)
  intro s i hwork
  rcases hdevice with hdevice | hdevice
  · obtain ⟨stamp, hat⟩ := hwork
    exact ⟨stamp, hdevice ▸ hat⟩
  · exact hwork.of_issue hdevice (by simp)

/-- What a call does with the timelines is what anybody may do. -/
theorem Advance.timelines (h : Advance backend streamOf c w call w' call') :
    Relation.ReflGen (Timelines.Step streamOf) w.timelines w'.timelines := by
  cases h with
  | waitEnqueued here other stream enqueued => exact .single (.enqueued enqueued)
  | waitRefused here other stream refused => exact .single (.enqueued refused)
  | workIssued here => exact .single (.issued _ _)
  | recorded here own returned => exact .single (.recorded returned)
  | recordThrew here own thrown => exact .single (.recordThrew thrown)
  | _ => exact .refl

/-- Only `launch` issues the work of a call. -/
theorem Advance.grows (hs : w.timelines.Sound streamOf)
    (h : Advance backend streamOf c w call w' call') (hother : c' ≠ c ∨ call.phase ≠ .launching) :
    Grows c' w w' := by
  cases h with
  | waitEnqueued here other stream enqueued => exact .enqueueWait hs enqueued
  | waitRefused here other stream refused => exact .enqueueWait hs refused
  | workIssued here =>
      apply Grows.step hs (.issued _ _)
      intro s i hwork
      apply hwork.of_issue rfl
      rcases hother with hne | hphase
      · simpa using Ne.symm hne
      · exact absurd here hphase
  | recorded here own returned => exact .record hs returned
  | recordThrew here own thrown => exact .recordThrew hs thrown
  | useRecorded here used => exact .used used
  | _ => exact .refl _ _

/-! ## What a call keeps -/

/-- A dependency on another queue is waited for by the stream. -/
theorem ordered_enqueued (hs : w.timelines.Sound streamOf) {answers : Answers} {k : Command}
    (hstream : backend k.timeline = true)
    (hrun : Timelines.enqueueWait answers (streamOf call.queue) k.timeline k.id w.timelines
      = (.ok (), a)) :
    Ordered streamOf backend (w.set a) call ((w.set a).issuedOn (streamOf call.queue)) k := by
  unfold Ordered
  rw [if_pos (.inr hstream)]
  intro _
  obtain ⟨p, hp, ⟨hreached, rfl⟩ | rfl⟩ := wp_returned (hs.enqueueWait answers _ _ _) hrun
  · exact ⟨p, hp, .inl hreached⟩
  · -- the wait is the last operation of the stream
    refine ⟨p, hp, .inr (.inl ⟨w.issuedOn (streamOf call.queue), ?_, w.timelines.device.issued, ?_⟩)⟩
    · simp [World.issuedOn, World.set, Device.ops_issue]
    · simp [World.issuedOn, World.set, Device.At, Device.ops_issue]

/-- `launch` puts work at the end of the stream, behind all that the command
depends on. -/
theorem SubmitCall.Sound.issue (h : call.Sound streamOf backend w c)
    (hs : w.timelines.Sound streamOf) (here : call.phase = .launching) :
    call.Sound streamOf backend (w.set { w.timelines with
      device := w.timelines.device.issue (streamOf call.queue) (.work (some c)) }) c := by
  have hadvance : Advance backend streamOf c w call (w.set { w.timelines with
      device := w.timelines.device.issue (streamOf call.queue) (.work (some c)) }) call :=
    .workIssued here
  -- what does not concern the work of this call goes on as for any other
  have hg : Grows (c + 1) _ _ := hadvance.grows hs (.inl (Nat.succ_ne_self c))
  have hprogress := h.progress
  rw [here] at hprogress
  obtain ⟨hrecorded, hordered⟩ := hprogress
  have hwork : ∀ s i, (w.set { w.timelines with
      device := w.timelines.device.issue (streamOf call.queue) (.work (some c)) }).WorkAt c s i →
      w.WorkAt c s i ∨ s = streamOf call.queue ∧ i = w.issuedOn (streamOf call.queue) := by
    intro s i ⟨stamp, hat⟩
    rcases Device.At.of_issue hat with hat | ⟨hs, hi, -, -⟩
    · exact .inl ⟨stamp, hat⟩
    · exact .inr ⟨hs, hi⟩
  exact {
    stream := h.stream
    placed := by
      intro s i hi
      rcases hwork s i hi with hi | ⟨hs, -⟩
      · exact h.placed s i hi
      · exact hs
    ordered := by
      intro s i hi d hd k hk
      rcases hwork s i hi with hi | ⟨-, rfl⟩
      · exact hg.ordered (h.ordered s i hi d hd k hk) (Nat.le_refl _)
      · exact hg.ordered (hordered d hd k hk) (Nat.le_refl _)
    begun := h.begun
    marked := by
      intro id hid
      rw [hrecorded] at hid
      cases hid
    progress := by
      rw [here]
      exact ⟨hrecorded, fun d hd k hk => hg.ordered (hordered d hd k hk) (hg.issued _)⟩ }

/-- The id the timeline gives stands for a point behind the work of the call. -/
theorem SubmitCall.Sound.recorded (h : call.Sound streamOf backend w c)
    (hs : w.timelines.Sound streamOf) {answers : Answers} {id : Nat}
    (hrun : Timelines.record answers call.queue (streamOf call.queue) w.timelines = (.ok id, a)) :
    SubmitCall.Sound streamOf backend
      (w.set (a.give call.queue (w.timelines.device.last (streamOf call.queue)) id)) c
      { call with recorded := some id, phase := .recordingUse id call.command.operands } := by
  obtain ⟨hid, -, hkept, -⟩ := wp_returned (hs.record _ _) hrun
  have hg : Grows c _ _ := .record hs hrun
  have h' := h.grows hg
  exact {
    stream := h'.stream
    placed := h'.placed
    ordered := h'.ordered
    begun := h'.begun
    marked := by
      intro id' hid'
      cases hid'
      refine ⟨w.timelines.device.last (streamOf call.queue), ?_, rfl, h.before.grows hg⟩
      simp [World.set, Timelines.give, hkept.given, hid]
    progress := ⟨rfl, [], rfl, fun operand hmem => by cases hmem⟩ }

/-- The next operand has a use recorded that covers the command. -/
theorem SubmitCall.Progress.useRecorded {id : Nat} {b : BufferId} {rest : List Operand}
    {room : Bool} {buffer : CudaBuffer}
    (h : call.Progress streamOf backend w c (.recordingUse id (.own b :: rest)))
    (hused : (w.buffers b).recordUse room (some ⟨call.queue, id⟩) = some buffer) :
    call.Progress streamOf backend { w with buffers := Function.update w.buffers b buffer } c
      (.recordingUse id rest) := by
  obtain ⟨hrecorded, told, htold, hall⟩ := h.grows (.used hused)
  refine ⟨hrecorded, told ++ [.own b], by rw [htold]; simp, ?_⟩
  intro operand hmem
  rcases List.mem_append.mp hmem with hmem | hmem
  · exact hall operand hmem
  · rw [List.mem_singleton.mp hmem]
    obtain ⟨use, huse, hcovers⟩ := (CudaBuffer.recordUse_covers hused).1 _ rfl
    refine ⟨b, rfl, use, ?_, hcovers⟩
    show use ∈ (Function.update w.buffers b buffer b).uses
    rw [Function.update_self]
    exact huse

/-- **Whatever a call does next, what holds of it goes on to hold.** -/
theorem SubmitCall.Sound.advance (h : call.Sound streamOf backend w c)
    (hs : w.timelines.Sound streamOf) (hadvance : Advance backend streamOf c w call w' call') :
    call'.Sound streamOf backend w' c := by
  have hprogress := h.progress
  cases hadvance with
  | waitSkipped here skips =>
      rw [here] at hprogress
      apply h.into
      apply hprogress.waitedFor
      intro k hk
      exact h.ordered_own hs (skipsWait_eq_true.mp skips k hk)
  | waitEnqueued here other stream enqueued =>
      rw [here] at hprogress
      have hg : Grows c _ _ := .enqueueWait hs enqueued
      apply (h.grows hg).into
      apply (hprogress.grows hg).waitedFor
      intro k hk
      cases hk
      exact ordered_enqueued hs stream enqueued
  | waitRefused here other stream refused =>
      rw [here] at hprogress
      have hg : Grows c _ _ := .enqueueWait hs refused
      apply (h.grows hg).into
      exact hprogress.1.grows hg
  | waited here other foreign finished =>
      -- the command is not of this backend, and has finished
      rw [here] at hprogress
      apply h.into
      apply hprogress.waitedFor
      intro k hk
      cases hk
      unfold Ordered
      rw [if_neg (by simp [skipsWait_eq_false.mp other, foreign])]
      exact finished
  | waitThrew e here other foreign =>
      rw [here] at hprogress
      apply h.into
      exact hprogress.1
  | launchCalled here =>
      rw [here] at hprogress
      obtain ⟨-, hrecorded, past, hpast, hordered⟩ := hprogress
      apply h.into
      rw [List.append_nil] at hpast
      refine ⟨hrecorded, fun d hd k hk => hordered d (hpast ▸ hd) k hk⟩
  | workIssued here => exact h.issue hs here
  | launched here =>
      rw [here] at hprogress
      exact h.into hprogress.1
  | launchThrew e here => exact h.into trivial
  | synchronizeCalled here others => exact h.into h.before
  | synchronized here executed =>
      rw [here] at hprogress
      exact h.into (h.finished hprogress executed)
  | synchronizeFailed here => exact h.into trivial
  | recorded here own returned => exact h.recorded hs returned
  | recordThrew here own thrown =>
      have hg : Grows c _ _ := .recordThrew hs thrown
      exact (h.grows hg).into trivial
  | useRecorded here used =>
      rw [here] at hprogress
      apply (h.grows (.used used)).into
      exact hprogress.useRecorded used
  | useThrew here thrown => exact h.into trivial
  | tracked here =>
      rw [here] at hprogress
      obtain ⟨hrecorded, told, htold, hall⟩ := hprogress
      apply h.into
      rw [List.append_nil] at htold
      exact ⟨rfl, hrecorded, fun operand hmem => hall operand (htold ▸ hmem)⟩
  | handlerCalled here => exact h.into h.before
  | handlerSynchronized here executed =>
      rw [here] at hprogress
      exact h.into (h.finished hprogress executed)
  | handlerFailed here => exact h.into trivial

/-! ## Runs -/

variable {q q' : Queues σ}

omit [DecidableEq σ] in
theorem Queues.Sound.start (buffers : BufferId → CudaBuffer) (finished : Command → Bool) :
    (Queues.start buffers finished : Queues σ).Sound streamOf backend where
  timelines := .empty
  calls c call hc := by simp [Queues.start] at hc
  claimed := by
    intro c s i ⟨stamp, hat⟩
    simp [Queues.start, Timelines.empty, Device.empty, Device.At] at hat

omit [DecidableEq σ] in
/-- A call begins with no work and nothing waited for. -/
theorem SubmitCall.Sound.submitted (hidle : w.Idle c) {queue : Timeline}
    (hstream : backend queue = true) (cmd : SubmittedCommand) :
    SubmitCall.Sound streamOf backend w c
      ⟨queue, cmd, (w.timelines.given queue).length, none, cmd.begin⟩ where
  stream := hstream
  placed s i hi := absurd hi (hidle s i)
  ordered s i hi := absurd hi (hidle s i)
  begun id hid := ⟨_, List.getElem?_eq_getElem hid⟩
  marked id hid := by cases hid
  progress := by
    unfold SubmittedCommand.begin
    cases cmd.program with
    | null => exact hidle
    | foreign => exact hidle
    | stream => exact ⟨hidle, rfl, [], rfl, fun d hd => by cases hd⟩

omit [DecidableEq σ] in
/-- A call of `submit` begins. -/
theorem Queues.Sound.submitted (h : q.Sound streamOf backend) {queue : Timeline}
    (hstream : backend queue = true) (cmd : SubmittedCommand) :
    Queues.Sound streamOf backend { q with calls := q.calls ++
      [⟨queue, cmd, (q.world.timelines.given queue).length, none, cmd.begin⟩] } where
  timelines := h.timelines
  calls := by
    intro c call hc
    have hidle : q.world.Idle q.calls.length :=
      fun s i hi => Nat.lt_irrefl _ (h.claimed _ s i hi)
    rcases Nat.lt_or_ge c q.calls.length with hlt | hge
    · rw [List.getElem?_append_left hlt] at hc
      exact h.calls c call hc
    · rw [List.getElem?_append_right hge, List.getElem?_singleton] at hc
      split at hc
      · cases hc
        obtain rfl : c = q.calls.length := by omega
        exact .submitted hidle hstream cmd
      · cases hc
  claimed := by
    intro c s i hi
    rw [List.length_append]
    exact Nat.lt_of_lt_of_le (h.claimed c s i hi) (Nat.le_add_right ..)

/-- One call goes on, and the others are where they were. -/
theorem Queues.Sound.advanced (h : q.Sound streamOf backend) (has : q.calls[c]? = some call)
    (hadvance : Advance backend streamOf c q.world call w call') :
    Queues.Sound streamOf backend ⟨w, q.calls.set c call'⟩ where
  timelines := h.timelines.reflGen hadvance.timelines
  calls := by
    intro c' other hc'
    by_cases hc : c' = c
    · rw [hc, List.getElem?_set_self (List.getElem?_eq_some_iff.mp has).1] at hc'
      cases hc'
      rw [hc]
      exact (h.calls c call has).advance h.timelines hadvance
    · rw [List.getElem?_set_ne (Ne.symm hc)] at hc'
      exact (h.calls c' other hc').grows (hadvance.grows h.timelines (.inl hc))
  claimed := by
    intro c' s i hi
    rw [List.length_set]
    by_cases hc : c' = c
    · rw [hc]
      exact (List.getElem?_eq_some_iff.mp has).1
    · exact h.claimed c' s i ((hadvance.grows h.timelines (.inl hc)).work s i hi)

/-- Commands of other timelines stay finished. -/
theorem Grows.finish (k : Command) :
    Grows c w { w with finished := Function.update w.finished k true } where
  given _ _ _ h := h
  device := .refl
  work _ _ h := h
  told _ _ h := h
  finished := by
    intro k' hk'
    by_cases hk : k' = k
    · rw [hk]
      exact Function.update_self ..
    · exact (Function.update_of_ne hk ..).trans hk'

/-- **Every step of every thread, and of the streams**, keeps what holds. -/
theorem Queues.Sound.step (h : q.Sound streamOf backend)
    (hstep : Queues.Step backend streamOf q q') : q'.Sound streamOf backend := by
  cases hstep with
  | submitted queue cmd stream => exact h.submitted stream cmd
  | advanced has advance => exact h.advanced has advance
  | other step unclaimed =>
      exact {
        timelines := h.timelines.step step
        calls := fun c call hc => (h.calls c call hc).grows (.step h.timelines step (unclaimed c))
        claimed := fun c s i hi => h.claimed c s i (unclaimed c s i hi) }
  | used used =>
      exact {
        timelines := h.timelines
        calls := fun c call hc => (h.calls c call hc).grows (.used used)
        claimed := h.claimed }
  | finished k =>
      exact {
        timelines := h.timelines
        calls := fun c call hc => (h.calls c call hc).grows (.finish k)
        claimed := h.claimed }

theorem Queues.Sound.reachable {buffers : BufferId → CudaBuffer} {finished : Command → Bool}
    (h : Relation.ReflTransGen (Queues.Step backend streamOf) (Queues.start buffers finished) q) :
    q.Sound streamOf backend :=
  Runs.invariant (fun _ _ hq hstep => hq.step hstep) h (.start buffers finished)

end RexlibCuda
