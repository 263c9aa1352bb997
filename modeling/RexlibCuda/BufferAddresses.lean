import RexlibCuda.AddressSpace
import RexlibCuda.BufferBytes

/-! Where the buffers are in memory. What the allocator, with its pool, its
heaps and its tokens, does with addresses is what an arena does, whatever is
called and whatever throws. -/

namespace RexlibCuda

open Completion Prog

open Relation (ReflTransGen)

namespace Session

variable {cfg : Config} {env : Environment} {C : Contract} {k : Clock Timeline}
  {s t : Session} {b : BlockId}

/-- What the source is owed, and where the blocks are that are handed out. -/
def arena (s : Session) : Arena BlockId := s.alloc.arena (s.out.map Prod.fst)

theorem out_rest : ∀ b ∈ s.out.map Prod.fst, b ∈ s.rest :=
  fun _ hb => List.mem_append_left _ hb

section Step

variable (hs : Sound cfg k False s) (henv : Truthful k env)
  (hbased : MemoryBlockAllocator.Based cfg s.alloc.pool)

include hs

/-- A block that is given back leaves the others where they are. -/
theorem Sound.arena_givenBack {before after : List (BlockId × List Command)}
    {commands : List Command} (hhas : s.out = before ++ (b, commands) :: after)
    {a : MemoryBlockAllocator}
    (hspan : ∀ c ≠ b, MemoryBlockAllocator.span a.pool c
      = MemoryBlockAllocator.span s.alloc.pool c)
    (houtstanding : outstanding a.trace = outstanding s.alloc.trace) :
    Arena.Step cfg.maxAlignment s.arena { s with alloc := a, out := before ++ after }.arena := by
  have hothers : ∀ c ∈ (before ++ after).map Prod.fst, MemoryBlockAllocator.span a.pool c
      = MemoryBlockAllocator.span s.alloc.pool c := by
    intro c hc
    obtain ⟨e, he, rfl⟩ := List.mem_map.mp hc
    exact hspan e.1 (hs.others hhas e he).2
  have hout : s.arena.out = (s.alloc.arena (before.map Prod.fst)).out
      ++ (b, MemoryBlockAllocator.span s.alloc.pool b)
        :: (s.alloc.arena (after.map Prod.fst)).out := by
    simp [arena, MemoryBlockAllocator.arena, hhas]
  have hstep := Arena.Step.givenBack (A := cfg.maxAlignment) hout
  show Arena.Step _ _ (a.arena ((before ++ after).map Prod.fst))
  rw [MemoryBlockAllocator.arena_eq hothers, houtstanding]
  simpa [arena, MemoryBlockAllocator.arena] using hstep

include henv hbased

/-- **One call is a run of the arena.** -/
theorem Sound.arena_step (h : Step cfg env C s t)
    (hlawful : Lawful cfg.baseAlignment t.alloc.trace) :
    ReflTransGen (Arena.Step cfg.maxAlignment) s.arena t.arena := by
  cases h with
  | @allocated a b size alignment timeline promised returned =>
      obtain ⟨u, hrun, hfree, -, rfl⟩ := hs.allocate_returned henv False.elim returned
      have hu := (hs.alloc.run henv False.elim hrun).1
      have hubased := hs.alloc.run_invariant henv False.elim (fun _ _ hs h => hs.based h) hrun
        hbased
      have hbefore : Lawful cfg.baseAlignment u.trace := hlawful.tail
      have hinside := hs.alloc.arena_run hbased out_rest henv False.elim hrun hbefore
      have hwf := hu.coherent.wellFormed
      have hb := hwf.freeSub b hfree
      obtain ⟨haligned, hwithin⟩ := hu.span_within hubased hbefore hb
      have hregion := hu.outstanding.mem_iff.mpr (List.mem_map_of_mem (hwf.inside hb).1)
      -- a block that is free is none of those that are handed out
      have hne : ∀ c ∈ s.out.map Prod.fst, c ≠ b := by
        rintro c hc rfl
        exact hu.coherent.accounted.not_free hwf (List.mem_append_right _ (out_rest c hc)) hfree
      refine hinside.tail (.handedOut ?_ hregion hwithin haligned ?_)
      · intro hmem
        simp only [MemoryBlockAllocator.arena, List.map_map, List.mem_map,
          Function.comp_apply] at hmem
        obtain ⟨e, he, rfl⟩ := hmem
        exact hne e.1 (List.mem_map_of_mem he) rfl
      · intro e he
        obtain ⟨c, hc, rfl⟩ := List.mem_map.mp he
        exact hu.spans_apart hubased hbefore hb (hu.out_blocks out_rest c hc) (hne c hc).symm
  | @threw a e size alignment timeline promised thrown =>
      have hrun := hs.allocate_threw henv False.elim thrown
      exact hs.alloc.arena_run hbased out_rest henv False.elim hrun hlawful
  | @recycled before after b commands tokens has promised =>
      refine .single ?_
      rcases MemoryBlockAllocator.recycle_spec env b tokens s.alloc with
        ⟨-, hfinal⟩ | ⟨hosts, hquiet, hfinal | hfinal⟩
      · rw [hfinal]
        have hframe := s.alloc.pool.release_frame b (tokens.headD none)
        refine hs.arena_givenBack has ?_ rfl
        intro c hc
        have hblock := hframe.block c (by simpa using hc)
        simp only [MemoryBlockAllocator.release, MemoryBlockAllocator.span,
          MemoryBlockPool.getData, hblock, hframe.heap]
      · rw [hfinal]
        obtain ⟨-, houtstanding, -⟩ := MemoryBlockAllocator.quiet_spec hquiet s.alloc.trace
        exact hs.arena_givenBack has (fun _ _ => rfl) houtstanding
      · rw [hfinal]
        obtain ⟨-, houtstanding, -⟩ := MemoryBlockAllocator.quiet_spec hquiet s.alloc.trace
        exact hs.arena_givenBack has (fun _ _ => rfl) houtstanding
  | trimmed =>
      exact hs.alloc.arena_run hbased out_rest henv False.elim (hs.trim_run henv) hlawful
  | @used before after b commands c has =>
      have hfst : (before ++ (b, c :: commands) :: after).map Prod.fst = s.out.map Prod.fst := by
        simp [has]
      show ReflTransGen _ _ (s.alloc.arena ((before ++ (b, c :: commands) :: after).map Prod.fst))
      rw [hfst]
      exact .refl
  | @emptied b has =>
      show ReflTransGen _ _ (MemoryBlockAllocator.arena { s.alloc with
        pool := s.alloc.pool.setPending b none } (s.out.map Prod.fst))
      rw [MemoryBlockAllocator.arena_eq (s := s.alloc)]
      · exact .refl
      · intro c _
        simp only [MemoryBlockAllocator.span, MemoryBlockPool.getData,
          MemoryBlockPool.setPending_heap, MemoryBlockPool.setPending_offset,
          MemoryBlockPool.setPending_size]
        rfl
  | @asked e answered =>
      have hasked : MemoryBlockAllocator.Internal cfg env True 1 s.alloc (s.alloc.log e) :=
        .asked answered fun _ => trivial
      exact hs.alloc.arena_internal hbased out_rest hasked hlawful

omit hbased in
/-- No call moves a heap. -/
theorem Sound.step_evolves (h : Step cfg env C s t) :
    s.alloc.pool.Evolves [] t.alloc.pool := by
  have hnil : ∀ b ∈ ([] : List BlockId), b ∈ s.rest := nofun
  have hrun : ∀ {r : Nat} {a : MemoryBlockAllocator},
      ReflTransGen (MemoryBlockAllocator.Internal cfg env True r) s.alloc a →
      s.alloc.pool.Evolves [] a.pool :=
    fun h => (hs.alloc.run henv False.elim h).2.evolves.subset hnil
  cases h with
  | allocated promised returned =>
      obtain ⟨u, hinside, -, -, rfl⟩ := hs.allocate_returned henv False.elim returned
      exact (hrun hinside).trans MemoryBlockPool.acquire_evolves
  | threw promised thrown => exact hrun (hs.allocate_threw henv False.elim thrown)
  | @recycled before after b commands tokens has promised =>
      exact (MemoryBlockAllocator.recycle_frame env b tokens s.alloc).evolves nofun
  | trimmed => exact hrun (hs.trim_run henv)
  | used c has => exact .refl
  | @emptied b has =>
      exact (MemoryBlockPool.Frame.setPending (B := [b]) List.mem_cons_self).evolves nofun
  | asked answered => exact .refl

end Step

/-- **So is any run.** -/
theorem arena_run (hrun : ReflTransGen (Step cfg env C) Session.empty s)
    (hrun' : ReflTransGen (Step cfg env C) s t)
    (hlawful : Lawful cfg.baseAlignment t.alloc.trace) :
    ReflTransGen (Arena.Step cfg.maxAlignment) s.arena t.arena := by
  induction hrun' with
  | refl => exact .refl
  | tail hrun' hstep ih =>
      have hu := Sound.reached (hrun.trans hrun')
      have hbased := Kept.reached MemoryBlockAllocator.kept_based nofun (hrun.trans hrun')
      have hbefore := hlawful.suffix (hu.step_trace (.always env) False.elim hstep)
      exact (ih hbefore).trans (hu.arena_step (.always env) hbased hstep hlawful)

theorem run_evolves (hrun : ReflTransGen (Step cfg env C) Session.empty s)
    (hrun' : ReflTransGen (Step cfg env C) s t) : s.alloc.pool.Evolves [] t.alloc.pool := by
  induction hrun' with
  | refl => exact .refl
  | tail hrun' hstep ih =>
      exact ih.trans ((Sound.reached (hrun.trans hrun')).step_evolves (.always env) hstep)

end Session

/-! ## Where the buffers are -/

namespace CudaBuffer

/-- `get_device_ptr`, where `p` is the pool of its allocator. -/
def getDevicePtr (buffer : CudaBuffer) (p : MemoryBlockPool) : Nat := p.getData buffer.block

def getSize (buffer : CudaBuffer) (p : MemoryBlockPool) : Nat := (p.block buffer.block).size

def getHostPtr (buffer : CudaBuffer) : Option Nat := buffer.hostData

/-- The addresses of a buffer. -/
def bytes (buffer : CudaBuffer) (p : MemoryBlockPool) : Nat × Nat :=
  (buffer.getDevicePtr p, buffer.getSize p)

end CudaBuffer

namespace Buffers

variable {cfg : Config} {env : Environment} {k : Clock Timeline} {B B' : Buffers} {S : Session}

/-- What the source is owed, and where the buffers are that are alive. -/
def arena (B : Buffers) : Arena BlockId :=
  ⟨outstanding B.alloc.trace,
    B.live.map fun buffer => (buffer.block, buffer.bytes B.alloc.pool)⟩

theorem Models.arena (hm : Models cfg k B S) : S.arena = B.arena := by
  simp only [Session.arena, MemoryBlockAllocator.arena, Buffers.arena, hm.blocks, hm.alloc,
    List.map_map]
  rfl

/-- **The allocator is an arena.** As long as its source keeps what it
documents, what it does with addresses on its way from one state to a later
one, whatever is called and whatever throws, is a run of an arena. -/
theorem refines_arena (hrun : ReflTransGen (Step cfg env) Buffers.empty B)
    (hrun' : ReflTransGen (Step cfg env) B B')
    (hlawful : Lawful cfg.baseAlignment B'.alloc.trace) :
    ReflTransGen (Arena.Step cfg.maxAlignment) B.arena B'.arena := by
  have henv := Truthful.always env
  obtain ⟨S, hS, hm⟩ := (simulates henv).run hrun Models.empty
  obtain ⟨S', hS', hm'⟩ := (simulates henv).run hrun' hm
  rw [← hm.arena, ← hm'.arena]
  exact Session.arena_run hS hS' (hm'.alloc ▸ hlawful)

/-- `twoBuffers`, when the first of them has died. -/
def firstDied : Buffers :=
  { twoBuffers with
    alloc := (MemoryBlockAllocator.recycle .generous 1 [] twoBuffers.alloc).2
    live := [⟨2, [], none⟩] }

/-- The second buffer lies behind the first, which then dies. -/
theorem refines_arena_destroyed :
    twoBuffers.arena = ⟨[(2 ^ 41, 2 ^ 21)], [(2, (2 ^ 41 + 1024, 2048)), (1, (2 ^ 41, 1024))]⟩ ∧
    firstDied.arena = ⟨[(2 ^ 41, 2 ^ 21)], [(2, (2 ^ 41 + 1024, 2048))]⟩ ∧
    ReflTransGen (Arena.Step 256) Buffers.empty.arena twoBuffers.arena ∧
    ReflTransGen (Arena.Step 256) twoBuffers.arena firstDied.arena := by
  have htwo : ReflTransGen (Step .default .generous) Buffers.empty twoBuffers :=
    two_allocated .default
  have hdied : Step .default .generous twoBuffers firstDied :=
    @Step.destroyed .default .generous twoBuffers [⟨2, [], none⟩] [] ⟨1, [], none⟩ rfl
  refine ⟨rfl, rfl, ?_, ?_⟩
  · exact refines_arena .refl htwo ⟨⟨by decide, by decide, nofun⟩, trivial⟩
  · exact refines_arena htwo (.single hdied) ⟨⟨by decide, by decide, nofun⟩, trivial⟩

/-! ## What a buffer tells of itself -/

/-- The host pointer is the one of the device where the host can use it, and
the null pointer where it cannot. -/
def HostSees (cfg : Config) (B : Buffers) : Prop :=
  ∀ buffer ∈ B.live, buffer.getHostPtr =
    if cfg.hostAccessible then some (buffer.getDevicePtr B.alloc.pool) else none

/-- A buffer is made with the pointer of the block it is made of. -/
theorem adopt_hostData (henv : Truthful k env) (b : BlockId) (s : MemoryBlockAllocator) :
    wp (CachingMemoryAllocator.adopt cfg env b)
      (fun x a => x.1.getHostPtr =
        if cfg.hostAccessible then some (x.1.getDevicePtr a.pool) else none)
      (fun _ _ => True) s := by
  simp only [CachingMemoryAllocator.adopt, wp_bind, wp_get]
  refine wp_mono (MemoryBlockAllocator.isComplete_asked henv _ s) ?_ fun _ _ _ => trivial
  intro complete t _
  have hdropped : wp (CachingMemoryAllocator.dropPending b complete) (fun _ _ => True)
      (fun _ _ => True) t := by
    rw [CachingMemoryAllocator.dropPending, wp_ite]
    split <;> trivial
  refine wp_mono hdropped ?_ fun _ _ _ => trivial
  intro _ u _
  refine wp_mono (MemoryBlockAllocator.hostAllocate_asked u) ?_ fun _ _ _ => trivial
  intro _ v _
  simp only [CachingMemoryAllocator.makeBuffer, wp_bind, wp_get, wp_pure, wp_ite]
  cases hpending : (v.pool.block b).pending with
  | none => exact rfl
  | some c =>
      show wp _ _ _ _
      refine wp_mono (MemoryBlockAllocator.hostAllocate_asked v) ?_ fun _ _ _ => trivial
      intro _ w hvw
      -- asking for memory leaves the pool alone
      show _ = if _ then some (w.pool.getData b) else none
      rw [MemoryBlockAllocator.Asked.pool_run hvw]
      rfl

theorem allocate_hostData (henv : Truthful k env) (size alignment : Nat)
    (timeline : Option Timeline) (s : MemoryBlockAllocator) :
    wp (CachingMemoryAllocator.allocateForTimeline cfg env size alignment timeline)
      (fun x a => x.1.getHostPtr =
        if cfg.hostAccessible then some (x.1.getDevicePtr a.pool) else none)
      (fun _ _ => True) s := by
  simp only [CachingMemoryAllocator.allocateForTimeline, wp_bind]
  refine wp_mono (wp_run (MemoryBlockAllocator.allocate cfg env size alignment timeline) s) ?_
    fun _ _ _ => trivial
  intro b a _
  rw [wp_tryCatch]
  refine wp_mono (adopt_hostData henv b a) (fun _ _ h => h) ?_
  intro e u _
  -- what the handler does ends in a throw
  simp only [wp_bind, wp_get]
  exact wp_mono (wp_run _ u) (fun _ _ _ => trivial) fun _ _ _ => trivial

theorem recordUse_hostPtr {buffer buffer' : CudaBuffer} {room : Bool} {token : CommandToken}
    (h : buffer.recordUse room token = some buffer') : buffer'.getHostPtr = buffer.getHostPtr := by
  unfold CudaBuffer.recordUse at h
  split at h
  · rw [← Option.some.inj h]
  · split at h
    · rw [← Option.some.inj h]
      rfl
    · split at h
      · rw [← Option.some.inj h]
        rfl
      · cases h

/-- A buffer whose block and heap stay is where it was. -/
theorem Models.devicePtr_stays (hm : Models cfg k B S) {a : MemoryBlockAllocator}
    (hev : B.alloc.pool.Evolves [] a.pool) {buffer : CudaBuffer} (hb : buffer ∈ B.live)
    (hbytes : B.alloc.pool.SameBytes a.pool buffer.block) :
    buffer.getDevicePtr a.pool = buffer.getDevicePtr B.alloc.pool := by
  have hwf := hm.sound.alloc.coherent.wellFormed
  rw [hm.alloc] at hwf
  have hheap := hev.heap _ (hwf.heapsFresh _ (hm.heap_mem hb))
  simp only [CudaBuffer.getDevicePtr, MemoryBlockPool.getData, hbytes.heap, hbytes.offset, hheap]

/-- Buffers that stay where they are go on telling where that is. -/
theorem HostSees.stay (h : HostSees cfg B) (hm : Models cfg k B S) {a : MemoryBlockAllocator}
    (hev : B.alloc.pool.Evolves [] a.pool) {live : List CudaBuffer}
    (hlive : ∀ buffer ∈ live, buffer ∈ B.live)
    (hstay : ∀ buffer ∈ live, B.alloc.pool.SameBytes a.pool buffer.block) :
    HostSees cfg { B with alloc := a, live } := by
  intro buffer hb
  rw [h buffer (hlive buffer hb)]
  show _ = if _ then some (buffer.getDevicePtr a.pool) else none
  rw [hm.devicePtr_stays hev (hlive buffer hb) (hstay buffer hb)]

theorem HostSees.step (h : HostSees cfg B) (hm : Models cfg (Clock.always Timeline) B S)
    (hev : B.alloc.pool.Evolves [] B'.alloc.pool) (hstep : Step cfg env B B') :
    HostSees cfg B' := by
  have henv := Truthful.always env
  cases hstep with
  | @allocated a buffer pending size alignment timeline sized returned =>
      have hstay := wp_returned (hm.allocate_stay henv) returned
      have hold := h.stay hm hev (fun _ hb => hb) hstay
      intro buffer hb
      rcases List.mem_cons.mp hb with rfl | hb
      · exact wp_returned (allocate_hostData henv size alignment timeline B.alloc) returned
      · exact hold buffer hb
  | @threw a e size alignment timeline sized thrown =>
      exact h.stay hm hev (fun _ hb => hb) (wp_thrown (hm.allocate_stay henv) thrown)
  | @destroyed before after buffer has =>
      refine h.stay hm hev ?_ (hm.recycle_stay env has)
      intro other hother
      rw [has]
      simp only [List.mem_append, List.mem_cons] at hother ⊢
      exact hother.imp_right .inr
  | @recorded before after buffer buffer' room token has recorded =>
      intro other hother
      rcases List.mem_append.mp hother with hother | hother
      · exact h other (by simp [has, hother])
      rcases List.mem_cons.mp hother with rfl | hother
      · -- the buffer that was used is of the block it was of
        have hptr := h buffer (by simp [has])
        rw [recordUse_hostPtr recorded, hptr]
        simp only [CudaBuffer.getDevicePtr, CudaBuffer.recordUse_block recorded]
      · exact h other (by simp [has, hother])
  | trimmed => exact h.stay hm hev (fun _ hb => hb) (hm.trim_stay henv)
  | asked answered => exact h

theorem HostSees.reached (hrun : ReflTransGen (Step cfg env) Buffers.empty B) :
    HostSees cfg B := by
  have henv := Truthful.always env
  induction hrun with
  | refl => exact nofun
  | tail hrun hstep ih =>
      obtain ⟨S, hS, hm⟩ := (simulates henv).run hrun Models.empty
      obtain ⟨S', hS', hm'⟩ := (simulates henv).run (.single hstep) hm
      have hev := Session.run_evolves hS hS'
      rw [hm.alloc, hm'.alloc] at hev
      exact ih.step hm hev hstep

/-- **Where the buffers are**, as long as the source keeps what it documents:
no two that are alive have an address in common, each begins at a multiple of
the alignment and lies in a region the source is owed, and the host is given
the address of the device, if it can use it. -/
theorem buffers_apart (hrun : ReflTransGen (Step cfg env) Buffers.empty B)
    (hlawful : Lawful cfg.baseAlignment B.alloc.trace) :
    (B.live.Pairwise fun x y => Arena.Apart (x.bytes B.alloc.pool) (y.bytes B.alloc.pool)) ∧
      ∀ buffer ∈ B.live, cfg.maxAlignment ∣ buffer.getDevicePtr B.alloc.pool ∧
        (0 < buffer.getSize B.alloc.pool →
          ∃ r ∈ outstanding B.alloc.trace, Arena.Within (buffer.bytes B.alloc.pool) r) ∧
        buffer.getHostPtr =
          if cfg.hostAccessible then some (buffer.getDevicePtr B.alloc.pool) else none := by
  have hsound : Arena.Sound cfg.maxAlignment B.arena :=
    Arena.Sound.empty.run (refines_arena .refl hrun hlawful)
  constructor
  · have hapart := hsound.outApart
    rw [Buffers.arena, List.pairwise_map] at hapart
    exact hapart
  · intro buffer hb
    have hout : (buffer.block, buffer.bytes B.alloc.pool) ∈ B.arena.out := List.mem_map_of_mem hb
    exact ⟨hsound.aligned _ hout, hsound.inside _ hout, HostSees.reached hrun buffer hb⟩

/-- `Config.default`, but for memory the host can use. -/
def hostVisible : Config := { Config.default with hostAccessible := true }

/-- Two buffers in such memory. -/
def visibleBuffers : Buffers :=
  (Buffers.empty.allocate hostVisible .generous 1000 256 none).allocate hostVisible .generous
    2000 256 none

/-- The host has the addresses of both of them, and none of `twoBuffers`. -/
theorem buffers_apart_two :
    visibleBuffers.live = [⟨2, [], some (2 ^ 41 + 1024)⟩, ⟨1, [], some (2 ^ 41)⟩] ∧
    (visibleBuffers.live.Pairwise fun x y =>
      Arena.Apart (x.bytes visibleBuffers.alloc.pool) (y.bytes visibleBuffers.alloc.pool)) ∧
    (∀ buffer ∈ visibleBuffers.live,
      buffer.getHostPtr = some (buffer.getDevicePtr visibleBuffers.alloc.pool)) ∧
    (twoBuffers.live.Pairwise fun x y =>
      Arena.Apart (x.bytes twoBuffers.alloc.pool) (y.bytes twoBuffers.alloc.pool)) ∧
    ∀ buffer ∈ twoBuffers.live, buffer.getHostPtr = none := by
  obtain ⟨hvisible, hseen⟩ := buffers_apart (two_allocated hostVisible)
    ⟨⟨by decide, by decide, nofun⟩, trivial⟩
  obtain ⟨hapart, hunseen⟩ := buffers_apart (two_allocated .default)
    ⟨⟨by decide, by decide, nofun⟩, trivial⟩
  exact ⟨rfl, hvisible, fun buffer hb => (hseen buffer hb).2.2, hapart,
    fun buffer hb => (hunseen buffer hb).2.2⟩

end Buffers

end RexlibCuda
