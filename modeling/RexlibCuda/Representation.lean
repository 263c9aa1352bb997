import Mathlib.Algebra.BigOperators.Group.List.Basic
import Mathlib.Algebra.Order.BigOperators.Group.List
import RexlibCuda.AllocatorSession

/-! The representation invariant of `memory_block_pool`, over runs of the
allocator that owns it. -/

namespace RexlibCuda

open Completion Tiling

open Relation (ReflTransGen)

/-- What the regions taken from the source add up to. -/
def outstandingBytes (trace : List Event) : Nat := ((outstanding trace).map Prod.snd).sum

section Sizes

variable (cfg : Config)

/-- A size that is a multiple of the alignment leaves room for the padding. -/
theorem le_regionBytes {size : Nat} (hsize : size < 2 ^ 64) (hal : cfg.maxAlignment ∣ size) :
    size ≤ MemoryBlockAllocator.regionBytes cfg size := by
  obtain ⟨j, hj, hA⟩ := cfg.maxAlignment_pow
  have hpos := cfg.maxAlignment_pos
  have hmax := cfg.maxAlignment_le
  have hfits : size + cfg.maxAlignment ≤ 2 ^ 64 := by
    have hdvd : cfg.maxAlignment ∣ 2 ^ 64 := by
      rw [hA]
      exact Nat.pow_dvd_pow 2 (by omega)
    have hle := Nat.le_of_dvd (by omega) (Nat.dvd_sub hdvd hal)
    omega
  have hpadding : MemoryBlockAllocator.padding cfg cfg.maxAlignment < cfg.maxAlignment := by
    unfold MemoryBlockAllocator.padding
    split
    · obtain ⟨i, -, hB⟩ := cfg.baseAlignment_pow
      have hbase : 0 < cfg.baseAlignment := by
        rw [hB]
        exact Nat.two_pow_pos i
      rw [sizeSub_of_le (by omega) (by omega)]
      omega
    · exact hpos
  rw [MemoryBlockAllocator.regionBytes, sizeAdd_of_lt (by omega)]
  omega

end Sizes

/-- **The representation invariant** of the pool of a session. -/
structure Represented (cfg : Config) (s : Session) : Prop where
  /-- The blocks of each heap are consecutive in `m_blocks`, from its start to
  its end. -/
  tiles : Tiles (fun h => (s.alloc.pool.heap h).size) s.alloc.pool.heaps
    (s.alloc.pool.blocks.map s.alloc.pool.extent)
  blocksNodup : s.alloc.pool.blocks.Nodup
  heapsNodup : s.alloc.pool.heaps.Nodup
  /-- Offsets and sizes are multiples of the alignment, and no block is empty. -/
  multiples : ∀ b ∈ s.alloc.pool.blocks, cfg.maxAlignment ∣ (s.alloc.pool.block b).offset ∧
    cfg.maxAlignment ∣ (s.alloc.pool.block b).size ∧ 0 < (s.alloc.pool.block b).size
  /-- The free blocks are those that nobody has, nothing holds back and no
  failure lost. -/
  free : ∀ b, b ∈ s.alloc.pool.freeBlocks ↔ b ∈ s.alloc.pool.blocks ∧
    b ∉ s.out.map Prod.fst ∧ b ∉ s.alloc.deferred.map Prod.fst ∧ b ∉ lostBlocks s.alloc.trace
  freeNodup : s.alloc.pool.freeBlocks.Nodup
  /-- They are sorted by the timeline of their token and by their size. -/
  sorted : s.alloc.pool.freeBlocks.Pairwise fun b c =>
    s.alloc.pool.sortKey b ≤ s.alloc.pool.sortKey c
  /-- `m_size` is what the heaps add up to. -/
  size : s.alloc.pool.getSize
    = (s.alloc.pool.heaps.map fun h => (s.alloc.pool.heap h).size).sum
  acquired : s.alloc.pool.getAcquiredBlockCount
    = s.out.length + s.alloc.deferred.length + (lostBlocks s.alloc.trace).length

namespace Session

variable {cfg : Config} {env : Environment} {k : Clock Timeline} {strict : Prop} {s : Session}

/-- The heaps fit into what has been taken from the source. -/
theorem Sound.sum_le (hs : Sound cfg k strict s) :
    (s.alloc.pool.heaps.map fun h => (s.alloc.pool.heap h).size).sum
      ≤ outstandingBytes s.alloc.trace := by
  have hwf := hs.alloc.coherent.wellFormed
  rw [outstandingBytes, (hs.alloc.outstanding.map Prod.snd).sum_nat, List.map_map]
  apply List.sum_le_sum
  intro h hh
  exact le_regionBytes cfg (hwf.heapSize h hh).2 (hwf.heapAligned h hh)

/-- The blocks are free, held back, handed out or lost. -/
theorem Sound.length (hs : Sound cfg k strict s) :
    s.alloc.pool.blocks.length = s.alloc.pool.freeBlocks.length
      + (s.out.length + s.alloc.deferred.length + (lostBlocks s.alloc.trace).length) := by
  have h := hs.alloc.coherent.accounted.length_eq
  simp only [rest, List.length_append, List.length_map] at h
  omega

theorem Sound.represented (hs : Sound cfg k True s)
    (hsource : outstandingBytes s.alloc.trace < 2 ^ 64) : Represented cfg s := by
  have hwf := hs.alloc.coherent.wellFormed
  have hacc := hs.alloc.coherent.accounted
  have hsum := hs.sum_le
  -- no block is empty, so there are no more blocks than bytes
  have hlength : s.alloc.pool.blocks.length
      ≤ (s.alloc.pool.heaps.map fun h => (s.alloc.pool.heap h).size).sum := by
    have h := List.length_le_sum_of_one_le
      ((s.alloc.pool.blocks.map s.alloc.pool.extent).map Extent.size)
    rw [hwf.tiles.sum, List.length_map, List.length_map] at h
    apply h
    intro n hn
    rw [List.map_map] at hn
    obtain ⟨b, hb, rfl⟩ := List.mem_map.mp hn
    exact hwf.positive trivial b hb
  exact {
    tiles := hwf.tiles
    blocksNodup := hwf.nodup
    heapsNodup := hwf.heapsNodup
    multiples := fun b hb =>
      ⟨(hwf.aligned b hb).1, (hwf.aligned b hb).2, hwf.positive trivial b hb⟩
    free := by
      intro b
      have hrest : b ∈ s.alloc.deferred.map Prod.fst ++ s.rest ↔ ¬ (b ∉ s.out.map Prod.fst ∧
          b ∉ s.alloc.deferred.map Prod.fst ∧ b ∉ lostBlocks s.alloc.trace) := by
        simp only [rest, List.mem_append]
        tauto
      constructor
      · intro hb
        refine ⟨hwf.freeSub b hb, ?_⟩
        by_contra h
        exact hacc.not_free hwf (hrest.mpr h) hb
      · rintro ⟨hb, h⟩
        rcases List.mem_append.mp (hacc.mem_iff.mp hb) with hb | hb
        · exact hb
        · exact absurd h (hrest.mp hb)
    freeNodup := hwf.freeNodup
    sorted := hs.alloc.coherent.sorted.pairwise
    size := by
      show s.alloc.pool.size = _
      rw [hwf.total, Nat.mod_eq_of_lt (by omega)]
    acquired := by
      have hlen := hs.length
      show sizeSub s.alloc.pool.blocks.length s.alloc.pool.freeBlocks.length = _
      rw [sizeSub_of_le (by omega) (by omega)]
      omega }

/-- **The pool stays as it has to be**, whatever is allocated, recycled and
trimmed in whatever order, and whatever throws. -/
theorem representation_invariant
    (hrun : ReflTransGen (Step cfg env (.sized cfg)) Session.empty s)
    (hsource : outstandingBytes s.alloc.trace < 2 ^ 64) : Represented cfg s := by
  have hs := (Sound.empty cfg (Clock.always Timeline) True).run (.always env)
    (fun _ _ => Contract.sized_pos) (.always _) hrun
  exact hs.represented hsource

/-- A kilobyte out of the first heap. -/
theorem representation_invariant_allocate :
    Represented .default (Session.empty.allocate .default .generous 1000 256 none) := by
  refine @representation_invariant .default .generous _ ?_ ?_
  · exact .single (allocate_step 256 none _ (by decide : 1000 ≤ 2 ^ 64 - 256))
  · decide

end Session

end RexlibCuda
