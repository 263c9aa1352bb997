import RexlibCuda.CachingMemoryAllocator

/-! Who owns the blocks behind buffers, and what has to be waited for before
memory that was used before is overwritten. -/

namespace RexlibCuda

open Completion Prog

open Relation (ReflTransGen)

/-! ## Single ownership -/

/-- **Each block has one owner**: it is free, or behind a buffer, or held
back, or lost. -/
structure SingleOwner (s : Buffers) : Prop where
  nodup : (s.alloc.pool.freeBlocks ++ s.live.map CudaBuffer.block ++
    s.alloc.deferred.map Prod.fst ++ lostBlocks s.alloc.trace).Nodup
  mem_iff : ∀ b, b ∈ s.alloc.pool.blocks ↔ b ∈ s.alloc.pool.freeBlocks ++
    s.live.map CudaBuffer.block ++ s.alloc.deferred.map Prod.fst ++ lostBlocks s.alloc.trace
  /-- None was given to `memory_block_pool::release` but for a hand-out that
  had not been given back. -/
  balanced : Balanced s.alloc.trace
  count : s.alloc.pool.getAcquiredBlockCount
    = (s.live.length + s.alloc.deferred.length + (lostBlocks s.alloc.trace).length) % 2 ^ 64

namespace Buffers

variable {cfg : Config} {env : Environment} {k : Clock Timeline} {s : Buffers} {S : Session}

/-- The blocks of a session that are handed out are those behind its buffers. -/
theorem Models.blocks (hm : Models cfg k s S) : S.out.map Prod.fst = s.live.map CudaBuffer.block := by
  refine List.forall₂_eq_eq_eq ▸ (List.forall₂_map_left_iff.mpr (List.forall₂_map_right_iff.mpr ?_))
  exact hm.out.imp fun _ _ h => h.1

theorem Models.accounted (hm : Models cfg k s S) :
    s.alloc.pool.blocks.Perm (s.alloc.pool.freeBlocks ++ s.live.map CudaBuffer.block ++
      s.alloc.deferred.map Prod.fst ++ lostBlocks s.alloc.trace) := by
  have hacc := hm.sound.alloc.coherent.accounted
  rw [hm.alloc] at hacc
  apply hacc.trans
  rw [Session.rest, hm.blocks, hm.alloc, List.append_assoc, List.append_assoc]
  apply List.Perm.append_left _
  rw [← List.append_assoc, ← List.append_assoc]
  exact List.perm_append_comm.append_right _

/-- **Single ownership of blocks.** -/
theorem single_owner (hrun : ReflTransGen (Step cfg env) Buffers.empty s) : SingleOwner s := by
  obtain ⟨S, hm⟩ := models (.always env) hrun
  have hperm := hm.accounted
  have hwf := hm.sound.alloc.coherent.wellFormed
  have hbalanced := hm.sound.alloc.balanced
  rw [hm.alloc] at hwf hbalanced
  have hlen := hperm.length_eq
  simp only [List.length_append, List.length_map] at hlen
  refine ⟨hperm.nodup_iff.mp hwf.nodup, fun b => hperm.mem_iff, hbalanced, ?_⟩
  show sizeSub s.alloc.pool.blocks.length s.alloc.pool.freeBlocks.length = _
  rw [sizeSub_eq_mod (by omega)]
  congr 1
  omega

/-- Two buffers out of one heap. -/
def twoBuffers : Buffers :=
  (Buffers.empty.allocate .default .generous 1000 256 none).allocate .default .generous 2000 256 none

theorem two_allocated (cfg : Config) : ReflTransGen (Step cfg .generous) Buffers.empty
    ((Buffers.empty.allocate cfg .generous 1000 256 none).allocate cfg .generous 2000 256 none) := by
  have hfirst : Step cfg .generous Buffers.empty _ :=
    allocate_step 256 none _ (by decide : 1000 < 2 ^ 64)
  exact (ReflTransGen.single hfirst).tail (allocate_step 256 none _ (by decide : 2000 < 2 ^ 64))

/-- The first of them has died. -/
theorem single_owner_destroyed : SingleOwner { twoBuffers with
    alloc := (MemoryBlockAllocator.recycle .generous 1 [] twoBuffers.alloc).2
    live := [⟨2, [], none⟩] } := by
  have hdestroyed := @Step.destroyed .default .generous twoBuffers [⟨2, [], none⟩] [] ⟨1, [], none⟩ rfl
  exact single_owner ((two_allocated .default).tail hdestroyed)

/-! ## Reuse -/

/-- The use and the block may share memory: a byte the use was of lies in the
block, or was of a heap that has gone back to its source since. -/
def MayShare (p : MemoryBlockPool) (b : BlockId) (u : Use) : Prop :=
  ∃ x, u.Touches u.heap x ∧
    (u.heap ∉ p.heaps ∨ u.heap = (p.block b).heap ∧ (p.extent b).Has x)

/-- All that was of heaps that went back has finished. -/
theorem Models.dead (hm : Models cfg k s S) {u : Use} (hu : u ∈ s.uses) {x : Nat}
    (hx : u.Touches u.heap x) (hdead : u.heap ∉ s.alloc.pool.heaps) :
    Complete k s.alloc.now u.command := by
  have htouched : S.touched u.heap x u.command := ⟨u, hm.uses ▸ hu, hx, rfl⟩
  have hsound := hm.sound.alloc
  obtain ⟨hbelow, -⟩ := hsound.inside _ _ _ htouched
  rw [← hm.alloc] at hdead ⊢
  have hreleased := (hsound.died _ hbelow).resolve_left hdead
  obtain ⟨later, earlier, htrace⟩ := List.append_of_mem hreleased
  have hsuffix : .heapReleased u.heap :: earlier <:+ S.alloc.trace := ⟨later, htrace.symm⟩
  apply ((hsound.dead _ _ hsuffix).complete x _ htouched).mono
  exact Nat.le_trans (Nat.le_succ _) hsuffix.length_le

/-- All that was of a block behind a buffer is covered by its recorded uses. -/
theorem Models.covered (hm : Models cfg k s S) {buffer : CudaBuffer} (hb : buffer ∈ s.live)
    {u : Use} (hu : u ∈ s.uses) {x : Nat} (hx : u.Touches (s.alloc.pool.block buffer.block).heap x)
    (hin : (s.alloc.pool.extent buffer.block).Has x) :
    Covered k s.alloc.now buffer.uses u.command := by
  obtain ⟨before, after, hlive⟩ := List.append_of_mem hb
  obtain ⟨l, commands, r, hS, -, hcover, -⟩ := hm.split hlive
  rw [← hm.alloc] at hx hin hcover ⊢
  have hguard := hm.sound.out (buffer.block, commands) (by simp [hS]) x hin u.command
    ⟨u, hm.uses ▸ hu, hx, rfl⟩
  apply hguard.exchange
  intro t ht d hd
  obtain ⟨c, hc, rfl⟩ := List.mem_map.mp ht
  obtain rfl : c = d := Option.some.inj hd
  exact hcover c hc

/-- **Reuse is safe**: what a new buffer comes with is enough to wait for. -/
theorem reuse_safe (henv : Truthful k env)
    (hrun : ReflTransGen (Step cfg env) Buffers.empty s) {size alignment : Nat}
    {timeline : Option Timeline} {buffer : CudaBuffer} {pending : CommandToken}
    {a : MemoryBlockAllocator} (hsize : size < 2 ^ 64)
    (h : CachingMemoryAllocator.allocateForTimeline cfg env size alignment timeline s.alloc
      = (.ok (buffer, pending), a)) :
    ∀ u ∈ s.uses, MayShare a.pool buffer.block u →
      Complete k a.now u.command ∨ Covers pending u.command := by
  obtain ⟨S, hm⟩ := models henv hrun
  obtain ⟨huses, T, -, hT⟩ := wp_returned (hm.allocateForTimeline henv hsize) h
  rintro u hu ⟨x, hx, hdead | ⟨hheap, hin⟩⟩
  · exact .inl (hT.dead hu hx hdead)
  · rw [hheap] at hx
    rcases hT.covered List.mem_cons_self hu hx hin with hdone | ⟨t, ht, hcover⟩
    · exact .inl hdone
    · -- the only use a new buffer has is the token it comes with
      rw [huses] at ht
      obtain ⟨c, hc, rfl⟩ := List.mem_map.mp ht
      have hpending : pending = some c := Option.mem_toList.mp hc
      rw [hpending]
      exact .inr hcover

/-- A buffer was used by a command that takes its time, and died. -/
def usedBuffer : Buffers where
  alloc := (MemoryBlockAllocator.recycle tickingEnvironment 1 [some ⟨⟨1, by decide⟩, 100⟩]
    (Buffers.empty.allocate .default tickingEnvironment 1000 256 none).alloc).2
  live := []
  uses := [⟨0, 0, 1024, ⟨⟨1, by decide⟩, 100⟩⟩]

/-- The next buffer gets its memory, and comes with the token of the command. -/
theorem reuse_safe_used :
    let after := usedBuffer.allocate .default tickingEnvironment 1000 256 (some ⟨1, by decide⟩)
    ∀ u ∈ usedBuffer.uses, MayShare after.alloc.pool 1 u →
      Complete ticking after.alloc.now u.command ∨
        Covers (some ⟨⟨1, by decide⟩, 100⟩) u.command := by
  have hallocated : Step .default tickingEnvironment Buffers.empty _ :=
    allocate_step 256 none _ (by decide : 1000 < 2 ^ 64)
  have hrecorded := @Step.recorded .default tickingEnvironment
    (Buffers.empty.allocate .default tickingEnvironment 1000 256 none) [] [] ⟨1, [], none⟩ _ true
    (some ⟨⟨1, by decide⟩, 100⟩) rfl rfl
  have hrun := ((ReflTransGen.single hallocated).tail hrecorded).tail
    (@Step.destroyed .default tickingEnvironment _ [] [] _ rfl)
  have hreturned : CachingMemoryAllocator.allocateForTimeline .default tickingEnvironment 1000 256
      (some ⟨1, by decide⟩) usedBuffer.alloc
      = (.ok (⟨1, [some ⟨⟨1, by decide⟩, 100⟩], none⟩, some ⟨⟨1, by decide⟩, 100⟩), _) := rfl
  have hused : ReflTransGen (Step .default tickingEnvironment) Buffers.empty usedBuffer := hrun
  exact reuse_safe ticking_truthful hused (by decide : 1000 < 2 ^ 64) hreturned

end Buffers

end RexlibCuda
