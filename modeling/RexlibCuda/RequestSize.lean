import RexlibCuda.AllocatorSession

/-! How big the blocks are that `memory_block_allocator::allocate` hands out.
The one thing that can go wrong is the round-up at the very end of the range of
`std::size_t`. -/

namespace RexlibCuda

open Completion

open Relation (ReflTransGen)

section AlignCeil

variable (cfg : Config)

/-- A request is rounded up to at least its size unless that wraps. -/
theorem le_alignCeil_iff {size : Nat} (hsize : size < 2 ^ 64) :
    max size 1 ≤ alignCeil (max size 1) cfg.maxAlignment
      ↔ size ≤ 2 ^ 64 - cfg.maxAlignment := by
  have hmax := cfg.maxAlignment_le
  have hpos := cfg.maxAlignment_pos
  constructor
  · intro hle
    by_contra hbig
    -- the sum wraps by less than an alignment, which is then rounded down
    have hwraps := cfg.alignCeil_wraps (x := max size 1) (by omega) (by omega)
    omega
  · intro hle
    exact (cfg.le_alignCeil (by omega)).1

end AlignCeil

namespace Session

variable {cfg : Config} {env : Environment} {s : Session} {size alignment : Nat}
  {timeline : Option Timeline} {b : BlockId} {a : MemoryBlockAllocator}

/-- A block that is handed out has exactly the size the request is rounded to. -/
theorem allocate_size (hrun : ReflTransGen (Step cfg env .any) Session.empty s)
    (h : MemoryBlockAllocator.allocate cfg env size alignment timeline s.alloc = (.ok b, a)) :
    (a.pool.block b).size = alignCeil (max size 1) cfg.maxAlignment := by
  have hs := (Sound.empty cfg (Clock.always Timeline) False).run (.always env) False.elim
    (.always _) hrun
  obtain ⟨t, -, -, hsize, rfl⟩ := hs.allocate_returned (.always env) False.elim h
  exact hsize

/-- **A request is honoured exactly up to the last size that can be rounded
up** to a multiple of the alignment. -/
theorem allocate_honours_iff (hrun : ReflTransGen (Step cfg env .any) Session.empty s)
    (hsize : size < 2 ^ 64)
    (h : MemoryBlockAllocator.allocate cfg env size alignment timeline s.alloc = (.ok b, a)) :
    max size 1 ≤ (a.pool.block b).size ↔ size ≤ 2 ^ 64 - cfg.maxAlignment := by
  rw [allocate_size hrun h]
  exact le_alignCeil_iff cfg hsize

theorem allocate_honours_kilobyte :
    max 1000 1 ≤ ((MemoryBlockAllocator.allocate .default .generous 1000 256 none .empty).2.pool.block
      1).size ↔ 1000 ≤ 2 ^ 64 - 256 := by
  have h : MemoryBlockAllocator.allocate .default .generous 1000 256 none Session.empty.alloc
      = (.ok 1, _) := rfl
  exact allocate_honours_iff .refl (by decide) h

/-- **The last byte of the range asks for an empty block**, and gets one. -/
theorem allocate_wraps :
    (MemoryBlockAllocator.allocate .default .generous (2 ^ 64 - 1) 256 none .empty).1 = .ok 1 ∧
    ((MemoryBlockAllocator.allocate .default .generous (2 ^ 64 - 1) 256 none .empty).2.pool.block
      1).size < max (2 ^ 64 - 1) 1 := by
  constructor
  · rfl
  · decide

end Session

end RexlibCuda
