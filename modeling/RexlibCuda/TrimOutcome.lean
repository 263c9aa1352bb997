import RexlibCuda.AllocatorHandout
import RexlibCuda.HeapRelease

/-! What `memory_block_allocator::trim` achieves when it returns, and what is to
blame when it does not. -/

namespace RexlibCuda

open Completion Prog

open Relation (ReflTransGen)

namespace MemoryBlockPool

variable {A : Nat} {strict : Prop} {p q : MemoryBlockPool}

/-- What heaps of a pool add up to. -/
def bytesOf (p : MemoryBlockPool) (heaps : List HeapId) : Nat :=
  (heaps.map fun h => (p.heap h).size).sum

@[simp] theorem bytesOf_nil : p.bytesOf [] = 0 := rfl

@[simp] theorem bytesOf_cons (h : HeapId) (heaps : List HeapId) :
    p.bytesOf (h :: heaps) = (p.heap h).size + p.bytesOf heaps := by
  simp [bytesOf]

@[simp] theorem bytesOf_append (heaps heaps' : List HeapId) :
    p.bytesOf (heaps ++ heaps') = p.bytesOf heaps + p.bytesOf heaps' := by
  simp [bytesOf]

theorem bytesOf_perm {heaps heaps' : List HeapId} (h : heaps.Perm heaps') :
    p.bytesOf heaps = p.bytesOf heaps' := (h.map _).sum_nat

theorem bytesOf_congr {heaps : List HeapId} (h : ∀ g ∈ heaps, q.heap g = p.heap g) :
    q.bytesOf heaps = p.bytesOf heaps := by
  have hmap : heaps.map (fun g => (q.heap g).size) = heaps.map fun g => (p.heap g).size :=
    List.map_congr_left fun g hg => by rw [h g hg]
  simp only [bytesOf, hmap]

/-- **The loop of `release_unused_heaps`** counts the bytes of the heaps it
drops, and keeps the others. -/
theorem releaseUnusedLoop_given (bs : List BlockId) : ∀ (result : Nat) (q : MemoryBlockPool),
    q.WellFormed A strict → bs.Nodup → (∀ b ∈ bs, b ∈ q.freeBlocks) → result < 2 ^ 64 →
    q.heaps.Perm ((releaseUnusedLoop bs result q).2.1 ++ (releaseUnusedLoop bs result q).2.2.heaps)
      ∧ (releaseUnusedLoop bs result q).1
        = (result + q.bytesOf (releaseUnusedLoop bs result q).2.1) % 2 ^ 64 := by
  induction bs with
  | nil =>
      intro result q _ _ _ hlt
      exact ⟨.refl _, (Nat.mod_eq_of_lt hlt).symm⟩
  | cons b bs ih =>
      intro result q hq hnd hfree hlt
      obtain ⟨hbs, hnd⟩ := List.nodup_cons.mp hnd
      have hb := hfree b List.mem_cons_self
      have hfree' : ∀ c ∈ bs, c ∈ q.freeBlocks := fun c hc => hfree c (List.mem_cons_of_mem b hc)
      simp only [releaseUnusedLoop]
      split
      · exact ih result q hq hnd hfree' hlt
      · rename_i hwhole
        have hwhole : q.isPartition b = false := Bool.not_eq_true _ ▸ hwhole
        have hh := (hq.inside (hq.freeSub b hb)).1
        have hrest := ih (sizeAdd result (q.heap (q.block b).heap).size) (q.eraseHeap b)
          (hq.eraseHeap hb hwhole) hnd ?_ (Nat.mod_lt _ (by decide))
        · obtain ⟨hperm, hbytes⟩ := hrest
          constructor
          · apply (List.perm_cons_erase hh).trans
            exact hperm.cons _
          · have hsame : (q.eraseHeap b).bytesOf = q.bytesOf := rfl
            rw [hbytes, hsame, bytesOf_cons, sizeAdd, Nat.mod_add_mod, Nat.add_assoc]
        · intro c hc
          have hcb : c ≠ b := fun h => hbs (h ▸ hc)
          exact (List.mem_erase_of_ne hcb).mpr (hfree' c hc)

/-- A pool without heaps has nothing at all. -/
theorem WellFormed.nothing (hp : p.WellFormed A strict) (hheaps : p.heaps = []) :
    p.blocks = [] ∧ p.freeBlocks = [] ∧ p.getSize = 0 := by
  have hblocks : p.blocks = [] := by
    rw [List.eq_nil_iff_forall_not_mem]
    intro b hb
    have hin := (hp.inside hb).1
    simp [hheaps] at hin
  refine ⟨hblocks, ?_, ?_⟩
  · rw [List.eq_nil_iff_forall_not_mem]
    intro b hb
    have hin := hp.freeSub b hb
    simp [hblocks] at hin
  · have htotal : p.getSize = _ := hp.total
    simpa [hheaps] using htotal

end MemoryBlockPool

namespace MemoryBlockAllocator

variable {cfg : Config} {env : Environment} {k : Clock Timeline}
  {touched : HeapId → Nat → Command → Prop} {strict : Prop} {rest : List BlockId}
  {s t : MemoryBlockAllocator}

/-- The heaps that die are told, and nothing else is said of heaps. -/
theorem destroyHeaps_trace (cfg : Config) (heaps : List HeapId) (s : MemoryBlockAllocator) :
    ∃ es, (destroyHeaps cfg heaps s).trace = es ++ s.trace ∧
      ∀ h, .heapReleased h ∈ es ↔ h ∈ heaps := by
  induction heaps generalizing s with
  | nil => exact ⟨[], rfl, by simp⟩
  | cons g heaps ih =>
      obtain ⟨es, htrace, hes⟩ := ih (giveBack cfg (s.pool.heap g) (s.log (.heapReleased g)))
      refine ⟨es ++ [.sourceDeallocate (s.pool.heap g).allocation
        (regionBytes cfg (s.pool.heap g).size), .heapReleased g], ?_, ?_⟩
      · apply htrace.trans
        simp [giveBack, log]
      · intro h
        simp [hes, or_comm]

/-- What went back during a trim: `given` are the heaps that died. -/
structure Given (s : MemoryBlockAllocator) (n : Nat) (a : MemoryBlockAllocator)
    (given : List HeapId) : Prop where
  heaps : s.pool.heaps.Perm (given ++ a.pool.heaps)
  released : ∃ es, a.trace = es ++ s.trace ∧ ∀ h, .heapReleased h ∈ es ↔ h ∈ given
  bytes : n = s.pool.bytesOf given % 2 ^ 64
  difference : n = sizeSub s.pool.getSize a.pool.getSize
  /-- Nothing wraps where the heaps fit into what a `size_t` can count. -/
  exactly : s.pool.bytesOf s.pool.heaps < 2 ^ 64 →
    n = s.pool.bytesOf given ∧ n + a.pool.getSize = s.pool.getSize

/-- The heaps that die are those the pool loses, and the number is what they
add up to. -/
theorem Sound.gaveHeaps (hs : Sound cfg k touched strict rest s) {n : Nat}
    (h : GaveHeaps cfg s n t) : ∃ given,
      t = destroyHeaps cfg given { s with pool := s.pool.resetPending.releaseUnusedHeaps.2.2 } ∧
      s.pool.heaps.Perm (given ++ t.pool.heaps) ∧ t.pool.heap = s.pool.heap ∧
      n = s.pool.bytesOf given % 2 ^ 64 := by
  have hwf := hs.coherent.wellFormed
  have hframe := MemoryBlockPool.resetPending_frame hwf
  have hq := hwf.resetPending
  obtain ⟨hperm, hbytes⟩ := MemoryBlockPool.releaseUnusedLoop_given _ 0 _ hq hq.freeNodup
    (fun _ hb => hb) (by decide)
  have hpool : t.pool = s.pool.resetPending.releaseUnusedHeaps.2.2 := by
    rw [h.final, destroyHeaps_pool]
  have hheap : t.pool.heap = s.pool.resetPending.heap := by
    rw [hpool]
    exact releaseUnusedLoop_heap _ _ _
  have hsame : s.pool.resetPending.bytesOf s.pool.resetPending.releaseUnusedHeaps.2.1
      = s.pool.bytesOf s.pool.resetPending.releaseUnusedHeaps.2.1 :=
    MemoryBlockPool.bytesOf_congr fun g _ => congrFun hframe.heap g
  refine ⟨_, h.final, ?_, hheap.trans hframe.heap, ?_⟩
  · rw [hpool, ← hframe.heaps]
    exact hperm
  · rw [h.bytes, ← hsame]
    rw [Nat.zero_add] at hbytes
    exact hbytes

/-- A trim that returns counts the heaps it gave back. -/
theorem trim_given (hs : Sound cfg k touched False rest s) (henv : Truthful k env) {n : Nat}
    (h : trim cfg env s = (.ok n, t)) : ∃ given, Given s n t given := by
  obtain ⟨v, hkeeps, hrun, hgave⟩ := wp_returned (trimLocked_keeps henv hs) h
  obtain ⟨hv, hpasses⟩ := hs.run henv False.elim hrun
  obtain ⟨given, hfinal, hgiven, hheap, hn⟩ := hv.gaveHeaps hgave
  rw [hkeeps.heaps] at hgiven
  have hwf := hs.coherent.wellFormed
  have ht := (hs.run henv uncut_pos (trim_uncut trivial hs henv)).1
  rw [h] at ht
  have htotal : t.pool.getSize = t.pool.bytesOf t.pool.heaps % 2 ^ 64 := ht.coherent.wellFormed.total
  have hstotal : s.pool.getSize = s.pool.bytesOf s.pool.heaps % 2 ^ 64 := hwf.total
  -- a heap has the size it always had
  have hsame : ∀ g ∈ s.pool.heaps, v.pool.heap g = s.pool.heap g := fun g hg =>
    hpasses.evolves.heap g (hwf.heapsFresh g hg)
  have hleft : t.pool.bytesOf t.pool.heaps = s.pool.bytesOf t.pool.heaps := by
    apply MemoryBlockPool.bytesOf_congr
    intro g hg
    rw [hheap]
    exact hsame g (hgiven.mem_iff.mpr (List.mem_append_right _ hg))
  have hdied : v.pool.bytesOf given = s.pool.bytesOf given := by
    apply MemoryBlockPool.bytesOf_congr
    intro g hg
    exact hsame g (hgiven.mem_iff.mpr (List.mem_append_left _ hg))
  have hsum := MemoryBlockPool.bytesOf_perm (p := s.pool) hgiven
  rw [MemoryBlockPool.bytesOf_append] at hsum
  rw [hdied] at hn
  refine ⟨given, hgiven, ?_, hn, ?_, ?_⟩
  · obtain ⟨es, htrace, hes⟩ := hkeeps.trace
    obtain ⟨es', htrace', hes'⟩ := destroyHeaps_trace cfg given
      { v with pool := v.pool.resetPending.releaseUnusedHeaps.2.2 }
    refine ⟨es' ++ es, ?_, ?_⟩
    · rw [hfinal, htrace', htrace, List.append_assoc]
    · simp [hes, hes']
  · rw [hn, htotal, hstotal, hleft, hsum, sizeSub]
    omega
  · intro hfits
    rw [hn, htotal, hstotal, hleft, hsum]
    omega

end MemoryBlockAllocator

namespace Session

variable {cfg : Config} {env : Environment} {s : Session} {a : MemoryBlockAllocator} {n : Nat}

/-- **What a trim that returns `n` leaves of a session**: `a`. -/
structure TrimOutcome (s : Session) (n : Nat) (a : MemoryBlockAllocator) : Prop where
  /-- Nothing is held back. -/
  deferred : a.deferred = []
  /-- Every free block has an empty token. -/
  unbound : a.pool.Unbound
  /-- No two free neighbours are of one heap. -/
  merged : a.pool.Merged
  /-- The heaps that remain are those with a block that is handed out or lost. -/
  owned : ∀ h, h ∈ a.pool.heaps ↔ ∃ b ∈ s.rest, (a.pool.block b).heap = h
  /-- These blocks are as they were. -/
  unchanged : ∀ b ∈ s.rest, b ∈ a.pool.blocks ∧ b ∉ a.pool.freeBlocks ∧
    a.pool.block b = s.alloc.pool.block b
  /-- `n` is what the others add up to, and what the pool has shrunk by. -/
  given : ∃ given, MemoryBlockAllocator.Given s.alloc n a given
  /-- Where nothing is handed out or lost, nothing remains. -/
  everything : s.rest = [] → n = s.alloc.pool.getSize ∧ a.pool.getSize = 0 ∧
    a.pool.heaps = [] ∧ a.pool.blocks = [] ∧ a.pool.freeBlocks = []

/-- A trim that returns achieves that. -/
theorem Sound.trim_returned (hs : Sound cfg (Clock.always Timeline) False s)
    (h : MemoryBlockAllocator.trim cfg env s.alloc = (.ok n, a)) : TrimOutcome s n a := by
  have henv := Truthful.always env
  obtain ⟨hrun, hdeferred, htrimmed⟩ := wp_returned
    (MemoryBlockAllocator.trimLocked_tracks (r := 0) trivial hs.alloc henv False.elim) h
  obtain ⟨ha, hpasses⟩ := hs.alloc.run henv False.elim hrun
  have hwf := ha.coherent.wellFormed
  have hacc := ha.coherent.accounted
  rw [hdeferred, List.map_nil, List.nil_append] at hacc
  obtain ⟨given, hgiven⟩ := MemoryBlockAllocator.trim_given hs.alloc henv h
  have howned : ∀ h, h ∈ a.pool.heaps ↔ ∃ b ∈ s.rest, (a.pool.block b).heap = h := by
    intro h
    constructor
    · intro hh
      obtain ⟨b, hb, hfree, hheap⟩ := htrimmed.owned h hh
      exact ⟨b, (List.mem_append.mp (hacc.mem_iff.mp hb)).resolve_left hfree, hheap⟩
    · rintro ⟨b, hb, rfl⟩
      exact (hwf.inside (hacc.mem hb)).1
  refine ⟨hdeferred, htrimmed.unbound, htrimmed.merged, howned, ?_, ⟨given, hgiven⟩, ?_⟩
  · intro b hb
    exact ⟨hacc.mem hb, hacc.not_free hwf hb, hpasses.evolves.block b hb⟩
  · intro hrest
    have hheaps : a.pool.heaps = [] := by
      rw [List.eq_nil_iff_forall_not_mem]
      intro h hh
      obtain ⟨b, hb, -⟩ := (howned h).mp hh
      simp [hrest] at hb
    obtain ⟨hblocks, hfree, hsize⟩ := hwf.nothing hheaps
    have hlt : s.alloc.pool.getSize < 2 ^ 64 := by
      have htotal : s.alloc.pool.getSize = _ := hs.alloc.coherent.wellFormed.total
      rw [htotal]
      exact Nat.mod_lt _ (by decide)
    refine ⟨?_, hsize, hheaps, hblocks, hfree⟩
    rw [hgiven.difference, hsize, sizeSub_of_le (Nat.zero_le _) hlt, Nat.sub_zero]

/-- **What `trim` achieves.** It returns unless a wait fails or the host has no
memory for the list of tokens. -/
theorem trim_outcome (hrun : ReflTransGen (Step cfg env .any) Session.empty s) :
    (∀ n a, MemoryBlockAllocator.trim cfg env s.alloc = (.ok n, a) → TrimOutcome s n a) ∧
    ∀ e a, MemoryBlockAllocator.trim cfg env s.alloc = (.error e, a) →
      ∃ es, a.trace = es ++ s.alloc.trace ∧ MemoryBlockAllocator.Blamed e es := by
  have hs := Sound.reached hrun
  refine ⟨fun n a h => hs.trim_returned h, fun e a h => ?_⟩
  exact (wp_thrown (MemoryBlockAllocator.trimLocked_keeps (.always env) hs.alloc) h).blamed

/-- A kilobyte is handed out, another is free with a token. -/
theorem trim_outcome_recycled : ∃ n a,
    MemoryBlockAllocator.trim .default .generous recycledKilobyte.alloc = (.ok n, a) ∧
    TrimOutcome recycledKilobyte n a :=
  ⟨_, _, rfl, (trim_outcome recycledKilobyte_reached).1 _ _ rfl⟩

end Session

end RexlibCuda
