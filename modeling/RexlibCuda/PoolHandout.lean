import RexlibCuda.PoolOperations

/-! Handing out a free block of the pool. The block is cut to what is asked for
and the front of it acquired at once, so that the pool is not left with two
halves that are both free. -/

namespace RexlibCuda

open Sequence

namespace MemoryBlockPool

variable {A : Nat} {strict : Prop} {p : MemoryBlockPool} {r : Nat} {b c d : BlockId}

/-- `acquire_block` from the free block it settles on: the block is cut to `r`
bytes, unless it has no more, and the front of it is acquired. -/
def handOut (p : MemoryBlockPool) (r : Nat) (c : BlockId) : BlockId × MemoryBlockPool :=
  if (p.block c).size = r then (c, p.acquire c)
  else (p.nextBlock, (p.partitionBlock c r ((p.block c).size - r)).2.acquire p.nextBlock)

theorem handOut_whole (h : (p.block c).size = r) : p.handOut r c = (c, p.acquire c) := if_pos h

theorem handOut_cut (h : (p.block c).size ≠ r) : p.handOut r c
    = (p.nextBlock, (p.partitionBlock c r ((p.block c).size - r)).2.acquire p.nextBlock) :=
  if_neg h

section Cut

variable {s₁ s₂ : Nat} (hp : p.WellFormed A strict) (hb : b ∈ p.freeBlocks)

include hp hb

/-- The free blocks once the front half of a cut block has been handed out. -/
theorem mem_cutOff :
    c ∈ ((p.partitionBlock b s₁ s₂).2.acquire p.nextBlock).freeBlocks ↔ c ∈ p.freeBlocks := by
  have hnew : p.nextBlock ∉ p.blocks := fun h => hp.nextBlock_ne h rfl
  have hnew' : p.nextBlock ∉ p.freeBlocks := fun h => hnew (hp.freeSub _ h)
  have hperm : (p.partitionBlock b s₁ s₂).2.freeBlocks.Perm
      (p.nextBlock :: p.freeBlocks) := by
    refine (insertUpper_perm _ _ _).trans (((insertUpper_perm _ _ _).cons b).trans ?_)
    refine (List.Perm.swap _ _ _).trans (List.Perm.cons _ ?_)
    exact (List.perm_cons_erase hb).symm
  have herase := hperm.erase p.nextBlock
  rw [List.erase_cons_head] at herase
  exact herase.mem_iff

end Cut

/-- What is handed out is the front of the block, with its token. -/
theorem handOut_record (p : MemoryBlockPool) (r : Nat) (c : BlockId) :
    (p.handOut r c).2.block (p.handOut r c).1
    = ⟨(p.block c).pending, r, (p.block c).heap, (p.block c).offset⟩ := by
  by_cases h : (p.block c).size = r
  · rw [handOut_whole h, ← h]
    rfl
  · rw [handOut_cut h]
    exact (partitionBlock_first p c r _).2

@[simp] theorem handOut_nextHeap (p : MemoryBlockPool) (r : Nat) (c : BlockId) :
    (p.handOut r c).2.nextHeap = p.nextHeap := by
  unfold handOut
  split <;> rfl

@[simp] theorem handOut_heap (p : MemoryBlockPool) (r : Nat) (c : BlockId) :
    (p.handOut r c).2.heap = p.heap := by
  unfold handOut
  split <;> rfl

section HandOut

variable (hp : p.WellFormed A strict) (hc : c ∈ p.freeBlocks)

include hp hc

/-- It is no longer free, and nothing else becomes free. -/
theorem handOut_free : d ∈ (p.handOut r c).2.freeBlocks ↔
    d ∈ p.freeBlocks ∧ d ≠ (p.handOut r c).1 := by
  by_cases h : (p.block c).size = r
  · rw [handOut_whole h]
    exact hp.freeNodup.mem_erase_iff.trans And.comm
  · rw [handOut_cut h]
    refine (mem_cutOff hp hc).trans ⟨fun hd => ⟨hd, ?_⟩, And.left⟩
    exact hp.nextBlock_ne (hp.freeSub d hd)

/-- The other blocks are left alone. -/
theorem handOut_of_ne (hd : d ∈ p.blocks) (hne : d ≠ c) :
    d ∈ (p.handOut r c).2.blocks ∧ (p.handOut r c).2.block d = p.block d := by
  by_cases h : (p.block c).size = r
  · rw [handOut_whole h]
    exact ⟨hd, rfl⟩
  · rw [handOut_cut h]
    have hperm : (p.cutBlock c r ((p.block c).size - r)).blocks.Perm _ :=
      cutBlock_perm (hp.freeSub c hc)
    exact ⟨hperm.mem_iff.mpr (List.mem_cons_of_mem _ hd), partitionBlock_of_ne hp hne hd⟩

/-- What is left of a block that is cut comes right after its front, still
free and with the same token. -/
theorem handOut_rest (hr : r ≤ (p.block c).size) (h : (p.block c).size ≠ r) :
    ∃ front behind, p.blocks = front ++ c :: behind ∧
      (p.handOut r c).2.blocks = front ++ (p.handOut r c).1 :: c :: behind ∧
      (p.handOut r c).2.block c = ⟨(p.block c).pending, (p.block c).size - r, (p.block c).heap,
        (p.block c).offset + r⟩ := by
  obtain ⟨front, behind, hl, hnot⟩ := split_at (hp.freeSub c hc)
  refine ⟨front, behind, hl, ?_, ?_⟩
  · rw [handOut_cut h]
    show insertBefore c p.nextBlock p.blocks = _
    rw [hl, insertBefore_append hnot]
  · rw [handOut_cut h]
    exact cutBlock_second hp hc (by omega)

end HandOut

end MemoryBlockPool

end RexlibCuda
