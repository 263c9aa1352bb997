import RexlibCuda.AllocatorHandout
import RexlibCuda.OutOfMemory
import RexlibCuda.PoolCoalescing

/-! Coalescing is always complete: whatever an allocator does, no two free
neighbours of a heap are left that could be merged. -/

namespace RexlibCuda

open Coalesce Completion Tiling

open Relation (ReflTransGen)

namespace MemoryBlockAllocator

variable {cfg : Config} {env : Environment} {k : Clock Timeline}
  {touched : HeapId → Nat → Command → Prop} {strict patient : Prop} {rest : List BlockId}
  {s t : MemoryBlockAllocator} {b : BlockId}

/-- A step that cuts no block leaves nothing to merge. -/
theorem Sound.coalesced (hs : Sound cfg k touched strict rest s)
    (h : Internal cfg env patient uncut s t) (hc : s.pool.Coalesced) : t.pool.Coalesced := by
  have hwf := hs.coherent.wellFormed
  cases h with
  | asked answered waits => exact hc
  | grew hosts quiet sized aligned => exact hc.registerHeap hwf _
  | declined hosts quiet => exact hc
  | dropped at_ kept => exact hc
  | released at_ kept => exact hc.release hwf (hs.deferred_accounted at_) _
  | partitioned free sized left aligned => exact (hs.not_cut free sized).elim
  | reset settled => exact (MemoryBlockPool.resetPending_merged hwf).coalesced
  | destroyed free empty whole => exact hc.eraseHeap hwf free whole

/-- **Everything an allocator does leaves nothing to merge.** -/
theorem kept_coalesced : Kept cfg env fun s => s.pool.Coalesced where
  internal hs hstep hc := hs.coalesced hstep hc
  handedOut hs _ hout hc := by
    rw [hout.pool]
    exact hc.handOut hs.coherent.wellFormed hout.free hout.fits
  release hs hb hc token := hc.release hs.coherent.wellFormed (hs.rest_accounted hb) token
  defer _ hc := hc
  lost _ hc := hc
  emptied hs hb hc := by
    have hwf := hs.coherent.wellFormed
    exact hc.setPending (hs.coherent.accounted.not_free hwf (List.mem_append_right _ hb)) none

end MemoryBlockAllocator

namespace MemoryBlockPool

variable {A : Nat} {p : MemoryBlockPool}

/-- **Every free block is as big as it can be**: free memory of its heap right
behind it is of another timeline. -/
def Maximal (p : MemoryBlockPool) : Prop :=
  ∀ b ∈ p.freeBlocks, ∀ c ∈ p.freeBlocks, (p.block c).heap = (p.block b).heap →
    (p.block c).offset = (p.block b).offset + (p.block b).size →
    (p.block c).pending.getTimeline ≠ (p.block b).pending.getTimeline

/-- Blocks that all have a byte are next to each other where their bytes are. -/
theorem Coalesced.maximal (h : p.Coalesced) (hp : p.WellFormed A True) : p.Maximal := by
  intro b hb c hc hheap hoffset ht
  have hcb := hp.freeSub c hc
  have hcpos := hp.positive trivial c hcb
  obtain ⟨l, r, hl, -⟩ := Sequence.split_at (hp.freeSub b hb)
  have htiles := hp.tiles
  rw [hl, List.map_append, List.map_cons] at htiles
  have hcin := (hp.inside hcb).2.1
  rw [hheap] at hcin
  -- the block behind it is the one that begins where it ends
  obtain ⟨e, r', hr, hspace, hstart⟩ := htiles.next (by simp only [extent]; omega)
  cases r with
  | nil => cases hr
  | cons n r =>
      obtain ⟨rfl, -⟩ := List.cons.inj hr
      have hn : n ∈ p.blocks := by simp [hl]
      have hnheap : (p.block n).heap = (p.block b).heap := hspace
      have hnoffset : (p.block n).offset = (p.block c).offset := hstart.trans hoffset.symm
      have hnpos := hp.positive trivial n hn
      obtain rfl : c = n := by
        by_contra hne
        apply hp.apart hcb hn hne (hheap.trans hnheap.symm) (x := (p.block c).offset)
        · exact ⟨Nat.le_refl _, Nat.lt_add_of_pos_right hcpos⟩
        · exact ⟨Nat.le_of_eq hnoffset, by simp only [extent]; omega⟩
      exact (h.sides hl).2.2.1 c rfl hb hc hheap ht

end MemoryBlockPool

namespace Session

variable {cfg : Config} {env : Environment} {s : Session}

/-- The pool of a session that is reached is tidy. -/
theorem Sound.tidy (hrun : ReflTransGen (Step cfg env .any) Session.empty s) :
    s.alloc.pool.Tidy cfg.maxAlignment (s.alloc.deferred.map Prod.fst ++ s.rest) :=
  ⟨(Sound.reached hrun).alloc.coherent.forget,
    Kept.reached MemoryBlockAllocator.kept_coalesced .empty hrun⟩

/-- **Coalescing is always complete**, whatever is allocated, recycled and
trimmed in whatever order, with whatever tokens, and whatever throws. As long as
no request has wrapped when it was rounded up, free blocks are as big as they
can be. -/
theorem coalescing_complete :
    (∀ s, ReflTransGen (Step cfg env .any) Session.empty s → s.alloc.pool.Coalesced) ∧
    ∀ s, ReflTransGen (Step cfg env (.sized cfg)) Session.empty s →
      s.alloc.pool.Coalesced ∧ s.alloc.pool.Maximal := by
  constructor
  · intro s hrun
    exact (Sound.tidy hrun).coalesced
  · intro s hrun
    have hpos : True → ∀ size, (Contract.sized cfg).size size →
        0 < alignCeil (max size 1) cfg.maxAlignment := fun _ _ => Contract.sized_pos
    have hs := (Sound.empty cfg (Clock.always Timeline) True).run (.always env) hpos (.always _) hrun
    have hcoalesced := Kept.reached MemoryBlockAllocator.kept_coalesced .empty hrun
    exact ⟨hcoalesced, hcoalesced.maximal hs.alloc.coherent.wellFormed⟩

/-- The kilobytes of two timelines that are free next to each other stay apart,
and so does what is left of the heap. -/
theorem coalescing_complete_scattered :
    scattered.alloc.pool.cells.map Cell.token
      = [some seventh, some foreign, none, some ninth, some foreign, none] ∧
    scattered.alloc.pool.Coalesced ∧ scattered.alloc.pool.Maximal := by
  refine ⟨by decide, ?_⟩
  exact coalescing_complete.2 scattered
    (scattered_reached (by decide : 1000 ≤ 2 ^ 64 - Config.default.maxAlignment) fun _ _ _ => trivial)

/-- Two free megabytes without a token lie next to each other: a block without a
byte is between them. -/
theorem coalescing_complete_split :
    ReflTransGen (Step .default singleHeap .any) Session.empty split ∧
    ¬ split.alloc.pool.Maximal := by
  refine ⟨split_reached, fun h => ?_⟩
  exact h 1 (by decide) 0 (by decide) rfl rfl rfl

end Session

end RexlibCuda
