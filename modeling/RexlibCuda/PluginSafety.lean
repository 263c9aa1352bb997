import RexlibCuda.PluginInvariant

/-! What the queues and the allocator come to together: memory that is handed
out again is used by one command after another, and none goes back to the
driver while a command may still use it. -/

namespace RexlibCuda

open Completion Prog Streams

open Relation (ReflTransGen)

namespace Plugin

variable {σ : Type} [DecidableEq σ] {cfg : Config} {ours : BufferId → Bool}
  {backend : Timeline → Bool} {streamOf : Timeline → σ} {m : Plugin σ}
  {elsewhere : BufferId → CudaBuffer} {finished : Command → Bool}

section Settled

variable {q : Queues σ} {c : Nat} {call call' : SubmitCall} {P : Command → Prop}

omit [DecidableEq σ] in
/-- What is settled has finished, or its token says when it will have. -/
theorem finished_or_named (h : q.Sound streamOf backend) (hsettled : q.Settled c P)
    (hcall : q.calls[c]? = some call) (hkept : call.phase.abandoned = false) :
    q.world.Finished c ∨ ∃ k, q.Names c k ∧ P k := by
  obtain ⟨call₀, hcall₀, -, hend⟩ := hsettled
  rw [hcall] at hcall₀
  cases hcall₀
  rcases hend with habandoned | hfinished | ⟨k, hphase, hk⟩
  · rw [hkept] at habandoned
    cases habandoned
  · exact .inl hfinished
  · have hprogress := (h.calls c call hcall).progress
    rw [hphase] at hprogress
    exact .inr ⟨k, ⟨call, hcall, hprogress.1.symm, hprogress.2.1⟩, hk⟩

omit [DecidableEq σ] in
/-- The command of a call has finished once what a queue was given before it
began has. -/
theorem finished_behind (h : q.Lasting streamOf backend) {k : Command} (hnames : q.Names c k)
    {c' : Nat} (hcall' : q.calls[c']? = some call') (hqueue : k.timeline = call'.queue)
    (hbegun : k.id < call'.begun) {s : σ} {i : Nat} (hwork : q.world.WorkAt c' s i)
    (hstarted : i ≤ q.world.executedOn s) : q.world.Finished c := by
  obtain ⟨p, hp, hfinished⟩ := h.sound.named hnames
  rw [hqueue] at hp
  have hle := h.behind c' call' hcall' s i hwork k.id hbegun p hp
  have hstream := ((h.sound.timelines.numbered call'.queue).given p (List.mem_of_getElem? hp)).1
  rw [(h.sound.calls c' call' hcall').placed s i hwork] at hstarted
  apply hfinished
  unfold Device.Reached
  rw [hstream]
  exact Nat.le_trans hle hstarted

omit [DecidableEq σ] in
/-- It has finished once a later one of its timeline that is depended on has. -/
theorem finished_depended (h : q.Lasting streamOf backend) {k d : Command} (hnames : q.Names c k)
    {c' : Nat} (hcall' : q.calls[c']? = some call')
    (hdepends : some d ∈ call'.command.dependencies) (htl : d.timeline = k.timeline)
    (hid : k.id ≤ d.id) (hother : d.timeline ≠ call'.queue) {s : σ} {i : Nat}
    (hwork : q.world.WorkAt c' s i) (hstarted : i ≤ q.world.executedOn s) : q.world.Finished c := by
  obtain ⟨p, hp, hfinished⟩ := h.sound.named hnames
  have hsound := h.sound.calls c' call' hcall'
  have hordered := hsound.ordered s i hwork _ hdepends d rfl
  rw [hsound.placed s i hwork] at hstarted
  have hbackend : backend d.timeline = true := by
    obtain ⟨call, hcall, hqueue, -⟩ := hnames
    rw [htl, ← hqueue]
    exact (h.sound.calls c call hcall).stream
  unfold Ordered at hordered
  rw [if_pos (.inr hbackend)] at hordered
  obtain ⟨p', hp', hfollows⟩ := hordered fun heq => absurd heq hother
  have hreached := hfollows.reached h.sound.timelines.device hstarted
  rw [htl] at hp'
  exact hfinished (h.ascending.reached h.sound.timelines hp hp' hid hreached)

end Settled

/-- **Memory that is handed out again is used by one command after another.** A
command that uses a later buffer starts once what used the same byte through an
earlier one has finished, if it depends on the token the buffer was handed out
with, or runs on the queue of that token. -/
theorem memory_exclusive
    (h : ReflTransGen (Step cfg ours backend streamOf) (start ours elsewhere finished) m)
    {t t' : Touch} (ht : t ∈ m.touches) (ht' : t' ∈ m.touches) (hlater : t.buffer < t'.buffer)
    {heap : HeapId} {x : Nat} (hx : t.Has heap x) (hx' : t'.Has heap x) {call call' : SubmitCall}
    (hcall : m.queues.calls[t.call]? = some call) (hkept : call.phase.abandoned = false)
    (hcall' : m.queues.calls[t'.call]? = some call')
    (hawaits : ∀ k ∈ m.pending t'.buffer, k.timeline = call'.queue ∨
      some k ∈ call'.command.dependencies)
    {s : σ} {i : Nat} (hwork : m.queues.world.WorkAt t'.call s i)
    (hstarted : i ≤ m.queues.world.executedOn s) : m.queues.world.Finished t.call := by
  have hsound := Sound.reachable h
  have hsettled := hsound.placed.ordered t ht t' ht' hlater heap x hx hx' call' hcall'
  rcases finished_or_named hsound.queues.sound hsettled hcall hkept with
    hfinished | ⟨k, hnames, ⟨d, hd, htl, hid⟩, hbegun⟩
  · exact hfinished
  · by_cases hqueue : k.timeline = call'.queue
    · exact finished_behind hsound.queues hnames hcall' hqueue (hbegun hqueue) hwork hstarted
    · have hother : d.timeline ≠ call'.queue := htl ▸ hqueue
      have hdepends := (hawaits d hd).resolve_left hother
      exact finished_depended hsound.queues hnames hcall' hdepends htl hid hother hwork hstarted

/-- The first command of the first queue. -/
def firstCommand : Command := ⟨⟨1, Int.one_ne_zero⟩, 0⟩

/-- An outside that tells once that the first command has not finished. -/
def running (last : Nat) : Environment :=
  { Environment.generous with
    isComplete := fun n c => if n = last ∧ c = firstCommand then some false else none
    wait := fun _ _ => false }

/-- An outside that does what it is asked for, but tells nothing. -/
def mute : Environment :=
  { Environment.generous with isComplete := fun _ _ => none, wait := fun _ _ => false }

def fresh : Plugin Nat := start (fun _ => true) (fun _ => ⟨0, [], none⟩) fun _ => false

/-- A buffer was handed out. -/
def handed : Plugin Nat :=
  (fresh.leave (CachingMemoryAllocator.allocateForTimeline .default mute 1000 256 none .empty).2
    fun _ => fresh).make 0 ⟨1, [], none⟩ none

/-- A command that writes it was submitted. -/
def written : Plugin Nat :=
  let m := handed.submit (fun _ => true) firstCommand.timeline ⟨.stream, [], [.own 0], [], []⟩
  let timelines := { m.queues.world.timelines with
    device := m.queues.world.timelines.device.issue 1 (.work (some 0)) }
  { m with queues := ⟨⟨(Timelines.record .good firstCommand.timeline 1 timelines).2.give
        firstCommand.timeline (timelines.device.last 1) 0,
      Function.update m.queues.world.buffers 0 ⟨1, [some firstCommand], none⟩, fun _ => false⟩,
    [⟨firstCommand.timeline, ⟨.stream, [], [.own 0], [], []⟩, 0, some 0,
      .returned (some firstCommand)⟩]⟩ }

abbrev Going : Plugin Nat → Plugin Nat → Prop :=
  Goes (fun _ => true) (fun _ => true) fun t => t.val.toNat

abbrev Reaches (m : Plugin Nat) : Prop :=
  ReflTransGen (Step .default (fun _ => true) (fun _ => true) fun t => t.val.toNat) fresh m

theorem handed_reached : Reaches handed :=
  .single (.allocated (b := 0) (by decide : 1000 < 2 ^ 64)
    (meanwhile_unanswered fresh (show ∀ n c, mute.isComplete n c = none from fun _ _ => rfl)
      (fun _ _ => rfl) _)
    (show CachingMemoryAllocator.allocateForTimeline .default mute 1000 256 none .empty
      = (.ok (⟨1, [], none⟩, none), _) from rfl) rfl (Nat.le_refl _))

theorem written_reached : Reaches written := by
  have submitted := handed_reached.tail (.went (.submitted firstCommand.timeline
    ⟨.stream, [], [.own 0], [], []⟩ rfl
    fun b hb _ => by cases List.mem_singleton.mp hb; exact List.mem_singleton.mpr rfl))
  have launching := submitted.tail (.went (.went (.advanced (c := 0) rfl (.launchCalled rfl)) rfl
    fun _ _ _ => rfl))
  have issued := launching.tail (.went (.went (.advanced (c := 0) rfl (.workIssued rfl)) rfl
    fun _ _ _ => rfl))
  have launched := issued.tail (.went (.went (.advanced (c := 0) rfl (.launched rfl)) rfl
    fun _ _ _ => rfl))
  have recorded := launched.tail (.went (.went (.advanced (c := 0) rfl (.recorded rfl rfl
    (show Timelines.record .good _ _ _ = (.ok 0, _) from rfl))) rfl
    fun _ _ _ => rfl))
  have used := recorded.tail (.went (.went (.advanced (c := 0) rfl (.useRecorded rfl
    (show CudaBuffer.recordUse true _ _ = some _ from rfl))) rfl
    fun b _ hb => Function.update_of_ne (fun h => hb (List.mem_singleton.mpr h)) ..))
  exact used.tail (.went (.went (.advanced (c := 0) rfl (.tracked rfl)) rfl fun _ _ _ => rfl))

/-- The buffer has died. -/
def dropped : Plugin Nat :=
  { written.leave (MemoryBlockAllocator.recycle (silent fun _ => true) 1 [some firstCommand]
      written.alloc).2 (fun _ => written) with live := [] }

theorem dropped_reached : Reaches dropped :=
  written_reached.tail (@Step.destroyed _ _ _ _ _ _ written [] [] 0 (fun _ => true) rfl
    fun call hcall hover => by cases List.mem_singleton.mp hcall; cases hover)

/-- Its memory was handed out again. -/
def reused : Plugin Nat :=
  (dropped.leave (CachingMemoryAllocator.allocateForTimeline .default (running (dropped.alloc.now + 1))
      1000 256 (some firstCommand.timeline) dropped.alloc).2 fun _ => dropped).make 1
    ⟨1, [some firstCommand], none⟩ (some firstCommand)

theorem reused_reached : Reaches reused := by
  have hmean : Meanwhile (fun _ => true) (fun _ => true) (fun t => t.val.toNat) dropped
      (running (dropped.alloc.now + 1)) (fun _ => dropped) (dropped.alloc.now + 4) := {
    entered := .refl
    goes := fun _ _ _ => .refl
    isComplete := by
      intro n c complete h
      simp only [running] at h
      split at h
      · rename_i hn
        obtain ⟨rfl, rfl⟩ := hn
        cases h
        refine ⟨by omega, by omega, ?_⟩
        exact ⟨.good, rfl⟩
      · cases h
    wait := by
      intro n c h
      cases h }
  exact dropped_reached.tail (.allocated (b := 1) (by decide : 1000 < 2 ^ 64) hmean
    (show CachingMemoryAllocator.allocateForTimeline .default (running (dropped.alloc.now + 1)) 1000 256
      (some firstCommand.timeline) dropped.alloc
      = (.ok (⟨1, [some firstCommand], none⟩, some firstCommand), _) from rfl) rfl (Nat.le_refl _))

/-- The stream of the first command has executed all it was issued. -/
def executed (m : Plugin Nat) : Plugin Nat :=
  let w := m.queues.world
  let device := (w.timelines.device.execute 1).execute 1
  { m with queues := { m.queues with world := w.set { w.timelines with device } } }

theorem executed_reached {m : Plugin Nat} (h : Reaches m) {device : Device Nat (Option Nat)}
    (hdevice : m.queues.world.timelines.device = device)
    (hwork : device.At 1 (device.line 1).executed (.work (some 0)) 0)
    (hcapture : (device.execute 1).At 1 ((device.execute 1).line 1).executed .capture 1) :
    Reaches (executed m) := by
  subst hdevice
  have worked := h.tail (.went (.went (.other (.executed hwork fun p hp => by cases hp)
    fun _ _ _ h => h.of_execute) rfl fun _ _ _ => rfl))
  exact worked.tail (.went (.went (.other (.executed hcapture fun p hp => by cases hp)
    fun _ _ _ h => h.of_execute) rfl fun _ _ _ => rfl))

theorem reused_executed : Reaches (executed reused) :=
  executed_reached reused_reached rfl rfl rfl

/-- The memory of a buffer is written again, on another queue. -/
theorem memory_exclusive_reused : ∃ m : Plugin Nat, m.queues.world.Finished 0
    ∧ m.queues.world.WorkAt 0 1 0 ∧ m.queues.world.WorkAt 1 2 1 ∧ m.queues.world.executedOn 2 = 1
    ∧ ⟨1, 1, 0, 0, 1024⟩ ∈ m.touches ∧ ⟨0, 0, 0, 0, 1024⟩ ∈ m.touches := by
  have submitted := reused_executed.tail (.went (.submitted ⟨2, by decide⟩
    ⟨.stream, [some firstCommand], [.own 1], [], []⟩ rfl
    fun b hb _ => by cases List.mem_singleton.mp hb; exact List.mem_singleton.mpr rfl))
  have waiting := submitted.tail (.went (.went (.advanced (c := 1) rfl (.waitEnqueued rfl rfl rfl
    (show Timelines.enqueueWait .good _ _ _ _ = (.ok (), _) from rfl))) rfl fun _ _ _ => rfl))
  have launching := waiting.tail (.went (.went (.advanced (c := 1) rfl (.launchCalled rfl)) rfl
    fun _ _ _ => rfl))
  have issued := launching.tail (.went (.went (.advanced (c := 1) rfl (.workIssued rfl)) rfl
    fun _ _ _ => rfl))
  have waited := issued.tail (.went (.went (.other (.executed
    (show Device.At _ 2 0 (.wait ⟨1, 1⟩) 2 from rfl) fun p hp => by cases hp; decide)
    fun _ _ _ h => h.of_execute) rfl fun _ _ _ => rfl))
  have finished := memory_exclusive waited (t := ⟨0, 0, 0, 0, 1024⟩)
    (List.mem_cons_of_mem _ (List.mem_singleton.mpr rfl))
    (show (⟨1, 1, 0, 0, 1024⟩ : Touch) ∈ _ from List.mem_cons_self) (by decide)
    (x := 0) ⟨rfl, Nat.le_refl _, by decide⟩ ⟨rfl, Nat.le_refl _, by decide⟩ rfl rfl rfl
    (fun k hk => .inr (by cases hk; exact List.mem_singleton.mpr rfl)) (s := 2) (i := 1) ⟨3, rfl⟩
    (Nat.le_refl 1)
  exact ⟨_, finished, ⟨0, rfl⟩, ⟨3, rfl⟩, rfl, List.mem_cons_self,
    List.mem_cons_of_mem _ (List.mem_singleton.mpr rfl)⟩

/-- **The host may write a buffer** once the token it was handed out with is
complete: whatever used its bytes before has finished. -/
theorem host_may_write
    (h : ReflTransGen (Step cfg ours backend streamOf) (start ours elsewhere finished) m)
    {b : BufferId} (hb : b ∈ m.live)
    (hcomplete : ∀ k ∈ m.pending b, m.queues.world.Tells backend k true)
    {t : Touch} (ht : t ∈ m.touches) (hother : t.buffer ≠ b) {heap : HeapId} {x : Nat}
    (hspans : m.Spans b heap x) (hx : t.Has heap x) {call : SubmitCall}
    (hcall : m.queues.calls[t.call]? = some call) (hkept : call.phase.abandoned = false) :
    m.queues.world.Finished t.call := by
  have hsound := Sound.reachable h
  rcases Nat.lt_or_gt_of_ne hother with hlt | hgt
  · have hsettled := hsound.placed.earlier b hb t ht hlt heap x hspans hx
    rcases finished_or_named hsound.queues.sound hsettled hcall hkept with
      hfinished | ⟨k, hnames, d, hd, htl, hid⟩
    · exact hfinished
    · have hdone := (hcomplete d hd).done hsound.queues.sound.timelines
      exact finished_of_done hsound.queues hnames hdone htl hid
  · exact absurd hx (hsound.placed.later b hb t ht hgt heap x hspans)

/-- The token of a buffer is complete. -/
theorem host_may_write_reused : (executed reused).queues.world.Finished 0
    ∧ (executed reused).queues.world.WorkAt 0 1 0 ∧ (executed reused).pending 1 = some firstCommand := by
  have hcomplete : ∀ k ∈ (executed reused).pending 1,
      (executed reused).queues.world.Tells (fun _ => true) k true := by
    intro k hk
    cases hk
    exact ⟨.good, rfl⟩
  exact ⟨host_may_write reused_executed (b := 1) (List.mem_singleton.mpr rfl) hcomplete
    (t := ⟨0, 0, 0, 0, 1024⟩) (List.mem_singleton.mpr rfl) (by decide) (x := 0)
    ⟨rfl, by decide, by decide⟩ ⟨rfl, Nat.le_refl _, by decide⟩ rfl rfl, ⟨0, rfl⟩, rfl⟩

/-- **No heap goes back to the driver while a command may use it.** -/
theorem heap_outlives_work
    (h : ReflTransGen (Step cfg ours backend streamOf) (start ours elsewhere finished) m)
    {t : Touch} (ht : t ∈ m.touches) {x : Nat} (hx : t.Has t.heap x)
    (hgone : t.heap ∉ m.alloc.pool.heaps) {call : SubmitCall}
    (hcall : m.queues.calls[t.call]? = some call) (hkept : call.phase.abandoned = false) :
    call.phase.over = true ∧ m.queues.world.Finished t.call := by
  have hsound := Sound.reachable h
  obtain ⟨k, hagrees, hk⟩ := hsound.rising.clock
  obtain ⟨uses, S, hm, hrecorded⟩ := hsound.models k hagrees
  obtain ⟨hours, -, call₀, hcall₀, hmem⟩ := hsound.placed.touched t ht
  rw [hcall] at hcall₀
  cases hcall₀
  have hdead : t.buffer ∉ m.live := by
    intro hlive
    apply hgone
    rw [(hsound.placed.covering t ht hlive).1]
    exact hm.heap_mem (List.mem_map_of_mem hlive)
  have hover : call.phase.over = true := by
    cases hphase : call.phase.over with
    | true => rfl
    | false =>
        exact absurd (hsound.placed.held call (List.mem_of_getElem? hcall) hphase _ hmem hours) hdead
  refine ⟨hover, ?_⟩
  rcases ended hsound.queues.sound hcall hover with habandoned | hfinished | ⟨c, hphase, hnames⟩
  · rw [hkept] at habandoned
    cases habandoned
  · exact hfinished
  · have htold : call.HasTold (.own t.buffer) c := by
      unfold SubmitCall.HasTold
      rw [hphase]
      exact ⟨rfl, hmem⟩
    have huse := hrecorded t ht call hcall c htold
    have hcomplete := hm.dead huse (show Use.Touches ⟨t.heap, t.offset, t.size, c⟩ t.heap x from
      ⟨rfl, hx.2.1, hx.2.2⟩) hgone
    obtain ⟨d, hd, htl, hid⟩ := hk m.alloc.now c (Nat.le_refl _) hcomplete
    exact finished_of_done hsound.queues hnames hd htl hid

/-- The first command is waited for. -/
def awaited (m : Plugin Nat) : Plugin Nat :=
  let w := m.queues.world
  let timelines := (Timelines.beginWait firstCommand.timeline 0 w.timelines).2
  { m with queues := { m.queues with world := w.set { timelines with
    waits := [⟨firstCommand.timeline, 0, 1, .finished true⟩] } } }

/-- An outside that waits for the first command, once. -/
def waiting (last : Nat) : Environment :=
  { mute with wait := fun n c => decide (n = last ∧ c = firstCommand) }

theorem awaited_reached : ReflTransGen Going (executed dropped) (awaited (executed dropped)) := by
  have began : ReflTransGen Going (executed dropped) _ := .single (.went (.other (.waitBegan
    (show Timelines.beginWait firstCommand.timeline 0 (executed dropped).queues.world.timelines
      = (.ok (some 1), _) from rfl)) fun _ _ _ h => h) rfl fun _ _ _ => rfl)
  have called : ReflTransGen Going (executed dropped) _ := began.tail (.went (.other
    (@Timelines.Step.waitCalled _ _ _ _ _ [] _ _ _ _ _ rfl rfl) fun _ _ _ h => h) rfl fun _ _ _ => rfl)
  exact called.tail (.went (.other (@Timelines.Step.waitReturned _ _ _ _ _ [] _ _ _ _ _ rfl (by decide)) fun _ _ _ h => h)
    rfl fun _ _ _ => rfl)

theorem dropped_executed : Reaches (executed dropped) :=
  executed_reached dropped_reached rfl rfl rfl

/-- A heap goes back once the command that wrote it was waited for. -/
theorem heap_outlives_work_trimmed : ∃ m : Plugin Nat, m.queues.world.Finished 0
    ∧ m.queues.world.WorkAt 0 1 0 ∧ ⟨0, 0, 0, 0, 1024⟩ ∈ m.touches ∧ m.alloc.pool.heaps = [] := by
  let last := (executed dropped).alloc.now + 1
  have hmean : Meanwhile (fun _ => true) (fun _ => true) (fun t => t.val.toNat) (executed dropped)
      (waiting last) (fun n => if n ≤ last then executed dropped else awaited (executed dropped))
      (MemoryBlockAllocator.trim .default (waiting last) (executed dropped).alloc).2.now := {
    entered := .refl
    goes := by
      intro n _ _
      rcases Nat.lt_trichotomy n last with hlt | rfl | hgt
      · rw [if_pos (Nat.le_of_lt hlt), if_pos (Nat.succ_le_of_lt hlt)]
      · rw [if_pos (Nat.le_refl _), if_neg (by omega)]
        exact awaited_reached
      · rw [if_neg (by omega), if_neg (by omega)]
    isComplete := by
      intro n c complete h
      cases h
    wait := by
      intro n c h
      obtain ⟨rfl, rfl⟩ := of_decide_eq_true h
      refine ⟨Nat.le_succ _, by decide, ?_⟩
      rw [if_neg (Nat.not_succ_le_self last)]
      exact .inr ⟨1, List.mem_singleton.mpr rfl⟩ }
  have trimmed := dropped_executed.tail (.trimmed hmean)
  have finished := heap_outlives_work trimmed (t := ⟨0, 0, 0, 0, 1024⟩) (x := 0)
    (List.mem_singleton.mpr rfl) ⟨rfl, Nat.le_refl _, by decide⟩ (by decide) rfl rfl
  exact ⟨_, finished.2, ⟨0, rfl⟩, List.mem_singleton.mpr rfl, rfl⟩

end Plugin

end RexlibCuda
