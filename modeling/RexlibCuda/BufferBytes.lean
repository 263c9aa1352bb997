import RexlibCuda.BufferSafety

/-! What the allocator does to the bytes behind the buffers that are alive:
nothing. -/

namespace RexlibCuda

open Completion Prog

open Relation (ReflTransGen)

/-- The bytes of a block are where they were. -/
structure MemoryBlockPool.SameBytes (p q : MemoryBlockPool) (b : BlockId) : Prop where
  heap : (q.block b).heap = (p.block b).heap
  offset : (q.block b).offset = (p.block b).offset
  size : (q.block b).size = (p.block b).size

theorem MemoryBlockPool.SameBytes.of_eq {p q : MemoryBlockPool} {b : BlockId}
    (h : q.block b = p.block b) : p.SameBytes q b := by
  constructor <;> rw [h]

theorem MemoryBlockPool.SameBytes.trans {p q o : MemoryBlockPool} {b : BlockId}
    (h : p.SameBytes q b) (h' : q.SameBytes o b) : p.SameBytes o b :=
  ⟨h'.heap.trans h.heap, h'.offset.trans h.offset, h'.size.trans h.size⟩

namespace Buffers

variable {cfg : Config} {env : Environment} {k : Clock Timeline} {B : Buffers} {S : Session}
  {a s t : MemoryBlockAllocator} {b : BlockId}

/-- The blocks of the buffers have the bytes they had. -/
def Stay (B : Buffers) (a : MemoryBlockAllocator) : Prop :=
  ∀ buffer ∈ B.live, B.alloc.pool.SameBytes a.pool buffer.block

/-- Whatever is done to the block, the bytes of any block stay. -/
theorem adopt_bytes (henv : Truthful k env) (b : BlockId) (s : MemoryBlockAllocator) :
    wp (CachingMemoryAllocator.adopt cfg env b) (fun _ t => ∀ c, s.pool.SameBytes t.pool c)
      (fun _ t => ∀ c, s.pool.SameBytes t.pool c) s := by
  have hasked : ∀ {t u : MemoryBlockAllocator}, (∀ c, s.pool.SameBytes t.pool c) →
      ReflTransGen (MemoryBlockAllocator.Asked env) t u → ∀ c, s.pool.SameBytes u.pool c := by
    intro t u ht htu c
    rw [MemoryBlockAllocator.Asked.pool_run htu]
    exact ht c
  have hself : ∀ c, s.pool.SameBytes s.pool c := fun _ => .of_eq rfl
  simp only [CachingMemoryAllocator.adopt, wp_bind, wp_get]
  refine wp_mono (MemoryBlockAllocator.isComplete_asked henv _ s) ?_ fun _ _ h => hasked hself h
  intro complete t h
  have ht := hasked hself h.1
  -- emptying a token moves no block
  have hdropped : wp (CachingMemoryAllocator.dropPending b complete)
      (fun _ u => ∀ c, s.pool.SameBytes u.pool c) (fun _ u => ∀ c, s.pool.SameBytes u.pool c) t := by
    rw [CachingMemoryAllocator.dropPending, wp_ite]
    split
    · intro c
      refine (ht c).trans ⟨MemoryBlockPool.setPending_heap .., ?_, ?_⟩
      · exact congrArg Tiling.Extent.offset (MemoryBlockPool.extent_setPending ..)
      · exact congrArg Tiling.Extent.size (MemoryBlockPool.extent_setPending ..)
    · exact ht
  refine wp_mono hdropped ?_ fun _ _ h => h
  intro _ u hu
  refine wp_mono (MemoryBlockAllocator.hostAllocate_asked u) ?_ fun _ _ h => hasked hu h
  intro _ v huv
  have hv := hasked hu huv
  simp only [CachingMemoryAllocator.makeBuffer, wp_bind, wp_get, wp_pure, wp_ite]
  cases hpending : (v.pool.block b).pending with
  | none => exact hv
  | some c =>
      show wp _ _ _ _
      exact wp_mono (MemoryBlockAllocator.hostAllocate_asked v) (fun _ _ h => hasked hv h)
        fun _ _ h => hasked hv h

theorem Models.mem_rest (hm : Models cfg k B S) {buffer : CudaBuffer} (hb : buffer ∈ B.live) :
    buffer.block ∈ S.rest := by
  have hmem : buffer.block ∈ S.out.map Prod.fst := by
    rw [hm.blocks]
    exact List.mem_map_of_mem hb
  exact List.mem_append_left _ hmem

/-- What leaves the blocks of a session alone leaves those of its buffers. -/
theorem Models.stay (hm : Models cfg k B S) (h : ∀ b ∈ S.rest, a.pool.block b = B.alloc.pool.block b) :
    B.Stay a :=
  fun _ hb => .of_eq (h _ (hm.mem_rest hb))

/-- **An allocation leaves the buffers there are where they are**, whether it
returns or throws. -/
theorem Models.allocate_stay (hm : Models cfg k B S) (henv : Truthful k env)
    {size alignment : Nat} {timeline : Option Timeline} :
    wp (CachingMemoryAllocator.allocateForTimeline cfg env size alignment timeline)
      (fun _ a => B.Stay a) (fun _ a => B.Stay a) B.alloc := by
  simp only [CachingMemoryAllocator.allocateForTimeline, wp_bind]
  refine wp_mono (wp_run (MemoryBlockAllocator.allocate cfg env size alignment timeline) B.alloc)
    ?_ ?_
  · intro b a hreturned
    rw [← hm.alloc] at hreturned
    obtain ⟨u, hrun, hfree, -, rfl⟩ := hm.sound.allocate_returned henv False.elim hreturned
    obtain ⟨hu, hpasses⟩ := hm.sound.alloc.run henv False.elim hrun
    have hold : B.Stay (u.acquire b) := by
      apply hm.stay
      rw [← hm.alloc]
      exact hpasses.evolves.block
    -- the block that was taken is no buffer's
    have hother : ∀ buffer ∈ B.live, buffer.block ∉ [b] := by
      intro buffer hb heq
      rw [List.mem_singleton] at heq
      have hrest := hm.mem_rest hb
      rw [heq] at hrest
      exact hu.coherent.accounted.not_free hu.coherent.wellFormed (List.mem_append_right _ hrest)
        hfree
    rw [wp_tryCatch]
    refine wp_mono (adopt_bytes henv b (u.acquire b)) ?_ ?_
    · intro _ v hv buffer hb
      exact (hold buffer hb).trans (hv _)
    · intro e v hv
      show wp _ _ _ _
      rw [wp_bind, wp_get, wp_bind]
      have hfinal : B.Stay (MemoryBlockAllocator.recycle env b [(v.pool.block b).pending] v).2 := by
        intro buffer hb
        have hframe := MemoryBlockAllocator.recycle_frame env b [(v.pool.block b).pending] v
        exact ((hold buffer hb).trans (hv _)).trans (.of_eq (hframe.block _ (hother buffer hb)))
      unfold wp
      split
      · rename_i hrecycled
        rw [hrecycled] at hfinal
        exact hfinal
      · rename_i hrecycled
        rw [hrecycled] at hfinal
        exact hfinal
  · intro e a hthrown
    rw [← hm.alloc] at hthrown
    have hrun := hm.sound.allocate_threw henv False.elim hthrown
    apply hm.stay
    rw [← hm.alloc]
    exact (hm.sound.alloc.run henv False.elim hrun).2.evolves.block

/-- So does `trim`. -/
theorem Models.trim_stay (hm : Models cfg k B S) (henv : Truthful k env) :
    B.Stay (MemoryBlockAllocator.trim cfg env B.alloc).2 := by
  have hrun := hm.sound.trim_run henv
  apply hm.stay
  rw [← hm.alloc]
  exact (hm.sound.alloc.run henv False.elim hrun).2.evolves.block

/-- The buffers that are alive have different blocks. -/
theorem Models.nodup (hm : Models cfg k B S) : (B.live.map CudaBuffer.block).Nodup := by
  have hperm := hm.accounted
  have hwf := hm.sound.alloc.coherent.wellFormed
  rw [hm.alloc] at hwf
  have hnd := hperm.nodup_iff.mp hwf.nodup
  exact (List.nodup_append.mp (List.nodup_append.mp (List.nodup_append.mp hnd).1).1).2.1

/-- A buffer that dies leaves the others where they are. -/
theorem Models.recycle_stay (hm : Models cfg k B S) (env : Environment) {before after : List CudaBuffer}
    {buffer : CudaBuffer} (has : B.live = before ++ buffer :: after) :
    Stay { B with live := before ++ after }
      (MemoryBlockAllocator.recycle env buffer.block buffer.uses B.alloc).2 := by
  intro other hother
  have hframe := MemoryBlockAllocator.recycle_frame env buffer.block buffer.uses B.alloc
  refine .of_eq (hframe.block _ ?_)
  have hnd := hm.nodup
  rw [has, List.map_append, List.map_cons] at hnd
  have hnot := (List.nodup_cons.mp (List.nodup_middle.mp hnd)).1
  rw [← List.map_append] at hnot
  intro heq
  rw [List.mem_singleton] at heq
  exact hnot (heq ▸ List.mem_map_of_mem hother)

theorem Models.mem_blocks (hm : Models cfg k B S) {buffer : CudaBuffer} (hb : buffer ∈ B.live) :
    buffer.block ∈ B.alloc.pool.blocks := by
  have hmem := hm.sound.alloc.coherent.accounted.mem (List.mem_append_right _ (hm.mem_rest hb))
  rw [hm.alloc] at hmem
  exact hmem

/-- The heap of a buffer that is alive is there. -/
theorem Models.heap_mem (hm : Models cfg k B S) {buffer : CudaBuffer} (hb : buffer ∈ B.live) :
    (B.alloc.pool.block buffer.block).heap ∈ B.alloc.pool.heaps := by
  have hwf := hm.sound.alloc.coherent.wellFormed
  rw [hm.alloc] at hwf
  exact (hwf.inside (hm.mem_blocks hb)).1

/-- **Buffers that are alive have no byte in common.** -/
theorem Models.apart (hm : Models cfg k B S) {buffer buffer' : CudaBuffer} (hb : buffer ∈ B.live)
    (hb' : buffer' ∈ B.live) (hne : buffer.block ≠ buffer'.block) {x : Nat}
    (hheap : (B.alloc.pool.block buffer.block).heap = (B.alloc.pool.block buffer'.block).heap)
    (hx : (B.alloc.pool.extent buffer.block).Has x) :
    ¬ (B.alloc.pool.extent buffer'.block).Has x := by
  have hwf := hm.sound.alloc.coherent.wellFormed
  rw [hm.alloc] at hwf
  exact hwf.apart (hm.mem_blocks hb) (hm.mem_blocks hb') hne hheap hx

end Buffers

end RexlibCuda
