import RexlibCuda.BufferBytes
import RexlibCuda.PluginCalls

/-! Where the memory of buffers and calls lies. Buffers that are alive lie
apart. A buffer that is made where earlier ones lay comes with a token that
speaks for what the earlier ones were used for. -/

namespace RexlibCuda

open Completion Prog Streams

open Relation (ReflTransGen)

/-- A byte of a heap is among those the call may use. -/
def Touch.Has (t : Touch) (h : HeapId) (x : Nat) : Prop :=
  t.heap = h ∧ t.offset ≤ x ∧ x < t.offset + t.size

namespace Plugin

variable {σ : Type}

/-- The block behind a buffer. -/
def blockOf (m : Plugin σ) (b : BufferId) : BlockId := (m.queues.world.buffers b).block

/-- A byte of a heap is among those of the buffer. -/
def Spans (m : Plugin σ) (b : BufferId) (h : HeapId) (x : Nat) : Prop :=
  (m.alloc.pool.block (m.blockOf b)).heap = h ∧ (m.alloc.pool.extent (m.blockOf b)).Has x

/-- The touch is of the bytes the buffer has. -/
def Covering (m : Plugin σ) (t : Touch) : Prop :=
  t.heap = (m.alloc.pool.block (m.blockOf t.buffer)).heap ∧
    t.offset = (m.alloc.pool.block (m.blockOf t.buffer)).offset ∧
    t.size = (m.alloc.pool.block (m.blockOf t.buffer)).size

/-- What is enough to wait for before the memory of a buffer is used by a call:
the token the buffer came with. What its own queue was given before needs no
waiting. -/
def Awaits (m : Plugin σ) (call : SubmitCall) (b : BufferId) (k : Command) : Prop :=
  Covers (m.pending b) k ∧ (k.timeline = call.queue → k.id < call.begun)

structure Placed (ours : BufferId → Bool) (m : Plugin σ) : Prop where
  nodup : m.live.Nodup
  alive : ∀ b ∈ m.live, ours b = true ∧ b < m.made
  unmade : ∀ b, ours b = true → m.made ≤ b → (m.queues.world.buffers b).uses = []
  /-- A call that has not ended keeps its operands. -/
  held : ∀ call ∈ m.queues.calls, call.phase.over = false → ∀ b,
    .own b ∈ call.command.operands → ours b = true → b ∈ m.live
  touched : ∀ t ∈ m.touches, ours t.buffer = true ∧ t.buffer < m.made ∧
    ∃ call, m.queues.calls[t.call]? = some call ∧ .own t.buffer ∈ call.command.operands
  covering : ∀ t ∈ m.touches, t.buffer ∈ m.live → m.Covering t
  /-- Buffers that were made later lie elsewhere. -/
  later : ∀ b ∈ m.live, ∀ t ∈ m.touches, b < t.buffer → ∀ h x, m.Spans b h x → ¬ t.Has h x
  /-- What was used through an earlier one is settled. -/
  earlier : ∀ b ∈ m.live, ∀ t ∈ m.touches, t.buffer < b → ∀ h x, m.Spans b h x → t.Has h x →
    m.queues.Settled t.call (Covers (m.pending b))
  /-- So it was when the later one was used. -/
  ordered : ∀ t ∈ m.touches, ∀ t' ∈ m.touches, t.buffer < t'.buffer → ∀ h x, t.Has h x →
    t'.Has h x → ∀ call', m.queues.calls[t'.call]? = some call' →
    m.queues.Settled t.call (m.Awaits call' t'.buffer)

/-- Buffers that are alive lie apart. -/
def Apart (m : Plugin σ) : Prop :=
  ∀ b ∈ m.live, ∀ b' ∈ m.live, b ≠ b' → ∀ h x, m.Spans b h x → ¬ m.Spans b' h x

section Placed

variable {ours : BufferId → Bool} {backend : Timeline → Bool} {streamOf : Timeline → σ}
  {m m' : Plugin σ} {t : Touch} {b : BufferId} {h : HeapId} {x : Nat}

theorem Covering.has_iff (hc : m.Covering t) : t.Has h x ↔ m.Spans t.buffer h x := by
  obtain ⟨hheap, hoffset, hsize⟩ := hc
  unfold Touch.Has Spans MemoryBlockPool.extent Tiling.Extent.Has
  rw [hheap, hoffset, hsize]

/-- The bytes of a buffer are those of its block. -/
theorem spans_congr (hblock : m'.blockOf b = m.blockOf b)
    (hbytes : m.alloc.pool.SameBytes m'.alloc.pool (m.blockOf b)) :
    m'.Spans b h x ↔ m.Spans b h x := by
  unfold Spans MemoryBlockPool.extent Tiling.Extent.Has
  rw [hblock, hbytes.heap, hbytes.offset, hbytes.size]

theorem Covering.congr (hc : m.Covering t) (hblock : m'.blockOf t.buffer = m.blockOf t.buffer)
    (hbytes : m.alloc.pool.SameBytes m'.alloc.pool (m.blockOf t.buffer)) : m'.Covering t := by
  unfold Covering
  rw [hblock, hbytes.heap, hbytes.offset, hbytes.size]
  exact hc

theorem mem_touchOf {call : Nat} {operands : List Operand} :
    t ∈ operands.filterMap (m.touchOf ours call) ↔ ∃ b, .own b ∈ operands ∧ ours b = true ∧
      t = ⟨call, b, (m.alloc.pool.block (m.blockOf b)).heap,
        (m.alloc.pool.block (m.blockOf b)).offset, (m.alloc.pool.block (m.blockOf b)).size⟩ := by
  rw [List.mem_filterMap]
  constructor
  · rintro ⟨operand, hmem, htouch⟩
    cases operand with
    | null => cases htouch
    | foreign => cases htouch
    | own b =>
        simp only [touchOf] at htouch
        split at htouch
        · rename_i hours
          exact ⟨b, hmem, hours, (Option.some.inj htouch).symm⟩
        · cases htouch
  · rintro ⟨b, hmem, hours, rfl⟩
    exact ⟨.own b, hmem, by simp [touchOf, hours, blockOf]⟩

theorem Placed.start {elsewhere : BufferId → CudaBuffer} {finished : Command → Bool} :
    (start ours elsewhere finished : Plugin σ).Placed ours where
  nodup := List.nodup_nil
  alive b hb := by cases hb
  unmade b hb _ := by simp [Plugin.start, Queues.start, hb]
  held call hcall := by cases hcall
  touched t ht := by cases ht
  covering t ht := by cases ht
  later b hb := by cases hb
  earlier b hb := by cases hb
  ordered t ht := by cases ht

/-! ## The queues go on -/

/-- A token that was returned names an id that was given. -/
theorem given_of_settled (hs : m.queues.Sound streamOf backend) {c : Nat} {P : Command → Prop}
    (hsettled : m.queues.Settled c P) : m.queues.Settled c fun k => P k ∧
      k.id < (m.queues.world.timelines.given k.timeline).length := by
  obtain ⟨call, hcall, hover, hend⟩ := hsettled
  refine ⟨call, hcall, hover, hend.imp_right (Or.imp_right ?_)⟩
  rintro ⟨k, hphase, hk⟩
  have hsound := hs.calls c call hcall
  have hprogress := hsound.progress
  rw [hphase] at hprogress
  obtain ⟨hqueue, hrecorded, -⟩ := hprogress
  obtain ⟨p, hp, -⟩ := hsound.marked k.id hrecorded
  exact ⟨k, hphase, hk, hqueue ▸ (List.getElem?_eq_some_iff.mp hp).1⟩

variable [DecidableEq σ]

/-- What a call uses lies apart from the other buffers. -/
theorem Placed.submitted (hp : m.Placed ours) (hs : m.queues.Sound streamOf backend)
    (hapart : m.Apart) {queue : Timeline} {cmd : SubmittedCommand}
    (hstep : Queues.Step backend streamOf m.queues (m.submit ours queue cmd).queues)
    (halive : ∀ b, .own b ∈ cmd.operands → ours b = true → b ∈ m.live) :
    (m.submit ours queue cmd).Placed ours := by
  have hfollows := hstep.follows hs
  have hnew : ∀ t ∈ cmd.operands.filterMap (m.touchOf ours m.queues.calls.length),
      t.call = m.queues.calls.length ∧ .own t.buffer ∈ cmd.operands ∧ ours t.buffer = true ∧
        t.buffer ∈ m.live ∧ m.Covering t := by
    intro t ht
    obtain ⟨b, hmem, hours, rfl⟩ := mem_touchOf.mp ht
    exact ⟨rfl, hmem, hours, halive b hmem hours, rfl, rfl, rfl⟩
  have hlast : (m.submit ours queue cmd).queues.calls[m.queues.calls.length]? = some
      ⟨queue, cmd, (m.queues.world.timelines.given queue).length, none, cmd.begin⟩ := by
    simp [submit]
  have hold : ∀ t ∈ m.touches, ∀ call', (m.submit ours queue cmd).queues.calls[t.call]? = some call' →
      m.queues.calls[t.call]? = some call' := by
    intro t ht call' hcall'
    obtain ⟨-, -, call, hcall, -⟩ := hp.touched t ht
    have hlt := (List.getElem?_eq_some_iff.mp hcall).1
    simpa [submit, List.getElem?_append_left hlt] using hcall'
  exact {
    nodup := hp.nodup
    alive := hp.alive
    unmade := hp.unmade
    held := by
      intro call hcall hover b hb hours
      rcases List.mem_append.mp hcall with hcall | hcall
      · exact hp.held call hcall hover b hb hours
      · rw [List.mem_singleton.mp hcall] at hb
        exact halive b hb hours
    touched := by
      intro t ht
      rcases List.mem_append.mp ht with ht | ht
      · obtain ⟨hcall, hmem, hours, hlive, -⟩ := hnew t ht
        exact ⟨hours, (hp.alive _ hlive).2, _, hcall ▸ hlast, hmem⟩
      · obtain ⟨hours, hmade, call, hcall, hmem⟩ := hp.touched t ht
        obtain ⟨call', hcall', -, hcommand, -⟩ := hfollows.call _ call hcall
        exact ⟨hours, hmade, call', hcall', hcommand ▸ hmem⟩
    covering := by
      intro t ht hlive
      rcases List.mem_append.mp ht with ht | ht
      · exact (hnew t ht).2.2.2.2
      · exact hp.covering t ht hlive
    later := by
      intro b hb t ht hlt h x hspans hhas
      rcases List.mem_append.mp ht with ht | ht
      · obtain ⟨-, -, -, hlive, hcover⟩ := hnew t ht
        exact hapart b hb _ hlive (Nat.ne_of_lt hlt) h x hspans (hcover.has_iff.mp hhas)
      · exact hp.later b hb t ht hlt h x hspans hhas
    earlier := by
      intro b hb t ht hlt h x hspans hhas
      rcases List.mem_append.mp ht with ht | ht
      · obtain ⟨-, -, -, hlive, hcover⟩ := hnew t ht
        exact absurd hspans (hapart _ hlive b hb (Nat.ne_of_lt hlt) h x (hcover.has_iff.mp hhas))
      · exact (hp.earlier b hb t ht hlt h x hspans hhas).follows hfollows
    ordered := by
      intro t ht t' ht' hlt h x hhas hhas' call' hcall'
      rcases List.mem_append.mp ht with ht | ht
      · obtain ⟨-, -, -, hlive, hcover⟩ := hnew t ht
        have hspans := hcover.has_iff.mp hhas
        rcases List.mem_append.mp ht' with ht' | ht'
        · obtain ⟨-, -, -, hlive', hcover'⟩ := hnew t' ht'
          exact absurd (hcover'.has_iff.mp hhas')
            (hapart _ hlive _ hlive' (Nat.ne_of_lt hlt) h x hspans)
        · exact absurd hhas' (hp.later _ hlive t' ht' hlt h x hspans)
      · rcases List.mem_append.mp ht' with ht' | ht'
        · -- what the earlier one was used for is settled by now
          obtain ⟨hcall, -, -, hlive', hcover'⟩ := hnew t' ht'
          rw [hcall, hlast] at hcall'
          cases hcall'
          have hsettled := hp.earlier _ hlive' t ht hlt h x (hcover'.has_iff.mp hhas') hhas
          refine ((given_of_settled hs hsettled).mono ?_).follows hfollows
          intro k hk
          refine ⟨hk.1, fun hqueue => ?_⟩
          have hlt := hk.2
          rw [hqueue] at hlt
          exact hlt
        · exact (hp.ordered t ht t' ht' hlt h x hhas hhas' call' (hold t' ht' call' hcall')).follows
            hfollows }

/-- Recording a use does not move a buffer. -/
theorem block_of_step (hs : m.queues.Sound streamOf backend) {q : Queues σ}
    (hstep : Queues.Step backend streamOf m.queues q) (b : BufferId) :
    (q.world.buffers b).block = m.blockOf b := by
  rcases hstep.buffers hs with ⟨hbuffers, -⟩ | ⟨b', room, token, buffer, hused, hbuffers, -⟩
  · rw [hbuffers]
    rfl
  · rw [hbuffers]
    by_cases hb : b = b'
    · subst hb
      rw [Function.update_self]
      exact CudaBuffer.recordUse_block hused
    · rw [Function.update_of_ne hb]
      rfl

/-- The queues go on, and no call begins. -/
theorem Placed.went (hp : m.Placed ours) (hs : m.queues.Sound streamOf backend) {q : Queues σ}
    (hstep : Queues.Step backend streamOf m.queues q)
    (hcalls : q.calls.length = m.queues.calls.length)
    (hdead : ∀ b, ours b = true → b ∉ m.live → q.world.buffers b = m.queues.world.buffers b) :
    ({ m with queues := q }).Placed ours := by
  have hfollows := hstep.follows hs
  have hspans : ∀ b h x, ({ m with queues := q }).Spans b h x ↔ m.Spans b h x := fun b h x =>
    spans_congr (block_of_step hs hstep b) (.of_eq rfl)
  -- the calls are the ones there were
  have hold : ∀ (c : Nat) (call' : SubmitCall), q.calls[c]? = some call' → ∃ call : SubmitCall,
      m.queues.calls[c]? = some call ∧ call'.queue = call.queue ∧ call'.command = call.command ∧
        call'.begun = call.begun ∧ (call.phase.over = true → call' = call) := by
    intro c call' hcall'
    have hlt : c < m.queues.calls.length := hcalls ▸ (List.getElem?_eq_some_iff.mp hcall').1
    have hcall := List.getElem?_eq_getElem hlt
    obtain ⟨call'', hcall'', hsame⟩ := hfollows.call c _ hcall
    rw [hcall'] at hcall''
    cases hcall''
    exact ⟨_, hcall, hsame⟩
  exact {
    nodup := hp.nodup
    alive := hp.alive
    unmade := by
      intro b hours hmade
      have hlive : b ∉ m.live := fun hb => Nat.not_lt.mpr hmade (hp.alive b hb).2
      rw [hdead b hours hlive]
      exact hp.unmade b hours hmade
    held := by
      intro call' hcall' hover b hb hours
      obtain ⟨c, hc⟩ := List.getElem?_of_mem hcall'
      obtain ⟨call, hcall, -, hcommand, -, hsame⟩ := hold c call' hc
      refine hp.held call (List.mem_of_getElem? hcall) ?_ b (hcommand ▸ hb) hours
      cases hphase : call.phase.over with
      | false => rfl
      | true =>
          rw [hsame hphase, hphase] at hover
          cases hover
    touched := by
      intro t ht
      obtain ⟨hours, hmade, call, hcall, hmem⟩ := hp.touched t ht
      obtain ⟨call', hcall', -, hcommand, -⟩ := hfollows.call _ call hcall
      exact ⟨hours, hmade, call', hcall', hcommand ▸ hmem⟩
    covering := by
      intro t ht hlive
      exact (hp.covering t ht hlive).congr (block_of_step hs hstep _) (.of_eq rfl)
    later := by
      intro b hb t ht hlt h x hspan
      exact hp.later b hb t ht hlt h x ((hspans b h x).mp hspan)
    earlier := by
      intro b hb t ht hlt h x hspan hhas
      exact (hp.earlier b hb t ht hlt h x ((hspans b h x).mp hspan) hhas).follows hfollows
    ordered := by
      intro t ht t' ht' hlt h x hhas hhas' call' hcall'
      obtain ⟨call, hcall, hqueue, -, hbegun, -⟩ := hold _ call' hcall'
      refine ((hp.ordered t ht t' ht' hlt h x hhas hhas' call hcall).follows hfollows).mono ?_
      intro k hk
      exact ⟨hk.1, fun h => hbegun ▸ hk.2 (hqueue ▸ h)⟩ }

theorem Placed.goes (hp : m.Placed ours) (hs : m.queues.Sound streamOf backend) (hapart : m.Apart)
    (hgoes : Goes ours backend streamOf m m') : m'.Placed ours := by
  cases hgoes with
  | submitted queue cmd stream alive =>
      exact hp.submitted hs hapart (.submitted queue cmd stream) alive
  | went step calls dead => exact hp.went hs step calls dead

/-! ## The allocator goes on -/

omit [DecidableEq σ] in
/-- The allocator moves no block whose buffer stays alive. -/
theorem Placed.turn (hp : m.Placed ours) {a : MemoryBlockAllocator} {live : List BufferId}
    (past : Nat → World σ) (hlive : live.Sublist m.live)
    (hheld : ∀ call ∈ m.queues.calls, call.phase.over = false → ∀ b,
      .own b ∈ call.command.operands → ours b = true → b ∈ live)
    (hbytes : ∀ b ∈ live, m.alloc.pool.SameBytes a.pool (m.blockOf b)) :
    ({ m with alloc := a, live, past }).Placed ours := by
  have hspans : ∀ b ∈ live, ∀ h x, ({ m with alloc := a, live, past }).Spans b h x ↔
      m.Spans b h x := fun b hb h x => spans_congr rfl (hbytes b hb)
  exact {
    nodup := hp.nodup.sublist hlive
    alive := fun b hb => hp.alive b (hlive.subset hb)
    unmade := hp.unmade
    held := hheld
    touched := hp.touched
    covering := fun t ht hb => (hp.covering t ht (hlive.subset hb)).congr rfl (hbytes _ hb)
    later := by
      intro b hb t ht hlt h x hspan
      exact hp.later b (hlive.subset hb) t ht hlt h x ((hspans b hb h x).mp hspan)
    earlier := by
      intro b hb t ht hlt h x hspan
      exact hp.earlier b (hlive.subset hb) t ht hlt h x ((hspans b hb h x).mp hspan)
    ordered := hp.ordered }

omit [DecidableEq σ] in
theorem blockOf_make {buffer : CudaBuffer} {pending : CommandToken} {b' : BufferId} (hne : b' ≠ b) :
    (m.make b buffer pending).blockOf b' = m.blockOf b' := by
  simp [blockOf, make, hne]

omit [DecidableEq σ] in
/-- A buffer is made where what was used before is settled. -/
theorem Placed.make (hp : m.Placed ours) {buffer : CudaBuffer} {pending : CommandToken}
    (hours : ours b = true) (hfresh : m.made ≤ b)
    (hnew : ∀ t ∈ m.touches, ∀ h x, (m.make b buffer pending).Spans b h x → t.Has h x →
      m.queues.Settled t.call (Covers pending)) : (m.make b buffer pending).Placed ours := by
  have hother : ∀ b' < m.made, b' ≠ b := fun b' hb' =>
    Nat.ne_of_lt (Nat.lt_of_lt_of_le hb' hfresh)
  have hspans : ∀ b', b' < m.made → ∀ h x,
      (m.make b buffer pending).Spans b' h x ↔ m.Spans b' h x := fun b' hb' h x =>
    spans_congr (blockOf_make (hother b' hb')) (.of_eq rfl)
  have hpending : ∀ b', b' < m.made → (m.make b buffer pending).pending b' = m.pending b' :=
    fun b' hb' => Function.update_of_ne (hother b' hb') ..
  have hfollows : m.queues.Follows (m.make b buffer pending).queues :=
    ⟨fun _ call h => ⟨call, h, rfl, rfl, rfl, fun _ => rfl⟩, fun _ _ _ _ h => h⟩
  exact {
    nodup := by
      refine List.nodup_cons.mpr ⟨fun hb => ?_, hp.nodup⟩
      exact Nat.not_lt.mpr hfresh (hp.alive b hb).2
    alive := by
      intro b' hb'
      rcases List.mem_cons.mp hb' with rfl | hb'
      · exact ⟨hours, Nat.lt_succ_self b'⟩
      · obtain ⟨hours', hlt⟩ := hp.alive b' hb'
        exact ⟨hours', Nat.lt_succ_of_le (Nat.le_trans (Nat.le_of_lt hlt) hfresh)⟩
    unmade := by
      intro b' hours' hmade
      have hmade : b < b' := hmade
      have hne : b' ≠ b := Nat.ne_of_gt hmade
      show (Function.update m.queues.world.buffers b buffer b').uses = []
      rw [Function.update_of_ne hne]
      exact hp.unmade b' hours' (Nat.le_trans hfresh (Nat.le_of_lt hmade))
    held := fun call hcall hover b' hb' hours' =>
      List.mem_cons_of_mem b (hp.held call hcall hover b' hb' hours')
    touched := by
      intro t ht
      obtain ⟨hours', hlt, hcall⟩ := hp.touched t ht
      exact ⟨hours', Nat.lt_succ_of_le (Nat.le_trans (Nat.le_of_lt hlt) hfresh), hcall⟩
    covering := by
      intro t ht hlive
      have hlt := (hp.touched t ht).2.1
      have hlive : t.buffer ∈ m.live := (List.mem_cons.mp hlive).resolve_left (hother _ hlt)
      exact (hp.covering t ht hlive).congr (blockOf_make (hother _ hlt)) (.of_eq rfl)
    later := by
      intro b' hb' t ht hlt h x hspan
      rcases List.mem_cons.mp hb' with rfl | hb'
      · -- no buffer was made later
        have hmade := Nat.lt_of_lt_of_le (hp.touched t ht).2.1 hfresh
        exact absurd hlt (Nat.lt_asymm hmade)
      · exact hp.later b' hb' t ht hlt h x ((hspans b' (hp.alive b' hb').2 h x).mp hspan)
    earlier := by
      intro b' hb' t ht hlt h x hspan hhas
      rcases List.mem_cons.mp hb' with rfl | hb'
      · have hself : (m.make b' buffer pending).pending b' = pending := Function.update_self ..
        rw [hself]
        exact (hnew t ht h x hspan hhas).follows hfollows
      · have hmade := (hp.alive b' hb').2
        rw [hpending b' hmade]
        exact (hp.earlier b' hb' t ht hlt h x ((hspans b' hmade h x).mp hspan) hhas).follows hfollows
    ordered := by
      intro t ht t' ht' hlt h x hhas hhas' call' hcall'
      refine ((hp.ordered t ht t' ht' hlt h x hhas hhas' call' hcall').follows hfollows).mono ?_
      intro k hk
      unfold Awaits
      rw [hpending _ (hp.touched t' ht').2.1]
      exact hk }

end Placed

end Plugin

end RexlibCuda
