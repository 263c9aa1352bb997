import RexlibCuda.PoolInvariant

/-! The operations of `memory_block_pool` keep its invariant. -/

namespace RexlibCuda

namespace MemoryBlockPool

open Sequence Tiling
open Relation (ReflTransGen)

variable {A : Nat} {strict : Prop} {G : Guard} {B rest : List BlockId}
  {p q : MemoryBlockPool} {b c n : BlockId}

/-! ## Releasing a block -/

/-- **The invariant of a pool** whose blocks `rest` are not free. -/
structure Coherent (A : Nat) (strict : Prop) (G : Guard) (rest : List BlockId)
    (p : MemoryBlockPool) : Prop where
  wellFormed : p.WellFormed A strict
  sorted : p.Sorted
  guarded : p.Guarded G
  accounted : p.Accounted rest

theorem Coherent.empty : (MemoryBlockPool.empty).Coherent A strict G [] where
  wellFormed := .empty
  sorted := List.Pairwise.nil
  guarded _ h := nomatch h
  accounted := .refl _

theorem Accounted.mem (ha : p.Accounted rest) (hb : b ∈ rest) : b ∈ p.blocks :=
  ha.mem_iff.mpr (List.mem_append_right _ hb)

theorem Accounted.not_free (ha : p.Accounted rest) (hp : p.WellFormed A strict)
    (hb : b ∈ rest) : b ∉ p.freeBlocks := by
  have hnd := ha.nodup_iff.mp hp.nodup
  exact fun hf => (List.nodup_append.mp hnd).2.2 b hf b hb rfl

theorem Accounted.nodup (ha : p.Accounted rest) (hp : p.WellFormed A strict) : rest.Nodup :=
  (List.nodup_append.mp (ha.nodup_iff.mp hp.nodup)).2.1

theorem considerMergingForwards_merges (hb : b ∈ p.blocks) :
    ReflTransGen (Merge [b]) p (p.considerMergingForwards b) := by
  unfold considerMergingForwards
  split
  · exact .refl
  · rename_i next hnext
    split
    · rename_i hm
      simp only [isMergeable, isFree, Bool.and_eq_true, decide_eq_true_eq] at hm
      obtain ⟨⟨hheap, ht⟩, hfree⟩ := hm
      obtain ⟨l, r, hl, -⟩ := nextOf_eq_some hb hnext
      exact .single ⟨b, by simp, next, hfree, _, ⟨hheap, l, r, .inl ⟨hl, rfl⟩⟩, ht, rfl⟩
    · exact .refl

theorem considerMergingBackwards_merges (hb : b ∈ p.blocks) :
    ReflTransGen (Merge [b]) p (p.considerMergingBackwards b) := by
  unfold considerMergingBackwards
  split
  · exact .refl
  · rename_i previous hprev
    split
    · rename_i hm
      simp only [isMergeable, isFree, Bool.and_eq_true, decide_eq_true_eq] at hm
      obtain ⟨⟨hheap, ht⟩, hfree⟩ := hm
      obtain ⟨l, r, hl, -, -⟩ := prevOf_eq_some hb hprev
      exact .single ⟨b, by simp, previous, hfree, _, ⟨hheap, l, r, .inr ⟨hl, rfl⟩⟩, ht, rfl⟩
    · exact .refl

/-- Giving a block back is a run of merges around it. -/
theorem considerMergingBlock_merges (ha : p.Accounted (b :: rest)) :
    ReflTransGen (Merge [b]) p (p.considerMergingBlock b) := by
  have hf := considerMergingForwards_merges (ha.mem List.mem_cons_self)
  exact hf.trans
    (considerMergingBackwards_merges ((ha.merges hf).mem List.mem_cons_self))

/-- Merges around blocks that are not free leave the free ones in order. -/
theorem Sorted.merges (hs : p.Sorted) (hB : ∀ b ∈ B, b ∉ p.freeBlocks)
    (h : ReflTransGen (Merge B) p q) : q.Sorted := by
  have hfree := merges_freeBlocks h
  refine InOrder.congr (hs.sublist hfree) fun x hx y hy => ?_
  have hkey : ∀ c ∈ q.freeBlocks, q.block c = p.block c := fun c hc =>
    (merges_frame h).block c fun hcB => hB c hcB (hfree.subset hc)
  simp only [less, getKey, hkey x hx, hkey y hy]

/-- `release` keeps the invariant, when the token handed over says of every
byte of the block what the tokens of free blocks say. -/
theorem Coherent.release (hc : p.Coherent A strict G (b :: rest)) (hG : G.Lasting)
    {t : CommandToken} (hg : (p.setPending b t).GuardedAt G b) :
    (p.release b t).Coherent A strict G rest := by
  have hfree : b ∉ p.freeBlocks := hc.accounted.not_free hc.wellFormed List.mem_cons_self
  have ha : (p.setPending b t).Accounted (b :: rest) := hc.accounted
  have hp : (p.setPending b t).WellFormed A strict := hc.wellFormed.setPending
  have hs : (p.setPending b t).Sorted := hc.sorted.congr rfl fun c hcf =>
    setPending_of_ne fun hcb => hfree (hcb ▸ hcf)
  have hm := considerMergingBlock_merges ha
  -- the merged block says of each byte what one of the two has said
  have hgq := GuardedAt.merges hG hp hm fun c hcB => by
    rcases hcB with hcB | hcf
    · rw [List.mem_singleton.mp hcB]
      exact hg
    · exact (hc.guarded c hcf).congr (setPending_of_ne fun hcb => hfree (hcb ▸ hcf))
  have haq := ha.merges hm
  have hfq : b ∉ ((p.setPending b t).considerMergingBlock b).freeBlocks :=
    haq.not_free (hp.merges hm) List.mem_cons_self
  have hsq := hs.merges (fun c hcB => List.mem_singleton.mp hcB ▸ hfree) hm
  exact {
    wellFormed := (hp.merges hm).insertFree (haq.mem List.mem_cons_self) hfq
    sorted := hsq.insertFree
    guarded := by
      intro c hcf
      exact (hgq c (by simpa using mem_insertFree.mp hcf)).congr rfl
    accounted := by
      apply haq.trans
      apply List.perm_middle.trans
      exact (insertUpper_perm _ b _).symm.append_right rest }

theorem considerMergingForwards_frame (p : MemoryBlockPool) (b : BlockId) :
    Frame [b] p (p.considerMergingForwards b) := by
  unfold considerMergingForwards
  split
  · exact .refl
  · split
    · exact .absorb List.mem_cons_self
    · exact .refl

theorem considerMergingBackwards_frame (p : MemoryBlockPool) (b : BlockId) :
    Frame [b] p (p.considerMergingBackwards b) := by
  unfold considerMergingBackwards
  split
  · exact .refl
  · split
    · exact .absorb List.mem_cons_self
    · exact .refl

/-- Only the block that is released changes, whatever it is merged with. -/
theorem release_frame (p : MemoryBlockPool) (b : BlockId) (t : CommandToken) :
    Frame [b] p (p.release b t) := by
  have hpending : Frame [b] p (p.setPending b t) := .setPending List.mem_cons_self
  have hforwards := considerMergingForwards_frame (p.setPending b t) b
  have hbackwards := considerMergingBackwards_frame ((p.setPending b t).considerMergingForwards b) b
  have hframe := (hpending.trans hforwards).trans hbackwards
  exact ⟨hframe.heap, hframe.heaps, hframe.size, hframe.nextBlock, hframe.nextHeap,
    hframe.block, hframe.blockHeap⟩

theorem laterPending_timeline {t t' : CommandToken} (h : t'.getTimeline = t.getTimeline) :
    (laterPending t t').getTimeline = t.getTimeline := by
  unfold laterPending
  split
  · exact h
  · rfl

/-- A block that takes over others stays of its timeline. -/
theorem merges_timeline {B : List BlockId} (h : ReflTransGen (Merge B) p q) (b : BlockId) :
    (q.block b).pending.getTimeline = (p.block b).pending.getTimeline := by
  refine Runs.relation (P := fun p q : MemoryBlockPool =>
    (q.block b).pending.getTimeline = (p.block b).pending.getTimeline)
    (fun _ => rfl) (fun _ _ _ h h' => h'.trans h) ?_ h
  rintro p q ⟨d, -, n, -, offset, -, ht, rfl⟩
  by_cases hbd : b = d
  · subst hbd
    simp only [absorb, Function.update_self]
    exact laterPending_timeline ht
  · rw [block_absorb_of_ne hbd]

/-- What is released is left with a token of the timeline handed over. -/
theorem release_timeline (ha : p.Accounted (b :: rest)) {t : CommandToken} :
    ((p.release b t).block b).pending.getTimeline = t.getTimeline := by
  have hmerges := considerMergingBlock_merges (p := p.setPending b t) ha
  have h := merges_timeline hmerges b
  rwa [setPending_pending] at h

/-- A free block whose token is of another timeline than the one handed over
stays as it is. -/
theorem release_keeps (ha : p.Accounted (b :: rest)) (hp : p.WellFormed A strict)
    {t : CommandToken} (hc : c ∈ p.freeBlocks)
    (ht : (p.block c).pending.getTimeline ≠ t.getTimeline) :
    c ∈ (p.release b t).freeBlocks ∧ (p.release b t).block c = p.block c := by
  have hcb : c ≠ b := fun h => ha.not_free hp List.mem_cons_self (h ▸ hc)
  have hmerges := considerMergingBlock_merges (p := p.setPending b t) ha
  have hkeeps := Runs.invariant (I := fun q : MemoryBlockPool =>
    (q.block b).pending.getTimeline = t.getTimeline ∧ c ∈ q.freeBlocks ∧ q.block c = p.block c)
    ?_ hmerges ⟨by rw [setPending_pending], hc, setPending_of_ne hcb⟩
  · exact ⟨mem_insertFree.mpr (.inr hkeeps.2.1), hkeeps.2.2⟩
  · rintro q q' ⟨hb, hfree, hrec⟩ ⟨d, hd, n, hn, offset, hadj, htl, rfl⟩
    obtain rfl : d = b := List.mem_singleton.mp hd
    have hcn : c ≠ n := by
      rintro rfl
      rw [hrec] at htl
      exact ht (htl.trans hb)
    refine ⟨?_, (List.mem_erase_of_ne hcn).mpr hfree, ?_⟩
    · simp only [absorb, Function.update_self]
      rw [laterPending_timeline htl, hb]
    · rw [block_absorb_of_ne hcb, hrec]

/-- `acquire` takes a block from the free ones. -/
theorem Coherent.acquire (hc : p.Coherent A strict G rest) (hb : b ∈ p.freeBlocks) :
    (p.acquire b).Coherent A strict G (b :: rest) where
  wellFormed := hc.wellFormed.acquire
  sorted := hc.sorted.acquire
  guarded c hcf := hc.guarded c (List.mem_of_mem_erase hcf)
  accounted := by
    refine hc.accounted.trans (((List.perm_cons_erase hb).append_right rest).trans ?_)
    exact List.perm_middle.symm

theorem Coherent.weaken {G' : Guard} (hc : p.Coherent A strict G rest)
    (h : ∀ t g x, G t g x → G' t g x) : p.Coherent A strict G' rest where
  wellFormed := hc.wellFormed
  sorted := hc.sorted
  guarded b hb x hx := h _ _ _ (hc.guarded b hb x hx)
  accounted := hc.accounted

theorem Coherent.perm {rest' : List BlockId} (hc : p.Coherent A strict G rest)
    (h : rest.Perm rest') : p.Coherent A strict G rest' where
  wellFormed := hc.wellFormed
  sorted := hc.sorted
  guarded := hc.guarded
  accounted := hc.accounted.trans (h.append_left _)

/-- Nothing is said of any byte. -/
def noGuard : Guard := fun _ _ _ => True

theorem noGuard_lasting : noGuard.Lasting := fun _ _ _ _ _ _ => trivial

theorem Coherent.forget (hp : p.Coherent A strict G rest) : p.Coherent A strict noGuard rest :=
  hp.weaken fun _ _ _ _ => trivial

/-! ## Cutting a block -/

section Partition

variable {s₁ s₂ : Nat}

/-- The new block is none of those there are. -/
theorem WellFormed.nextBlock_ne (hp : p.WellFormed A strict) (hc : c ∈ p.blocks) :
    c ≠ p.nextBlock :=
  Nat.ne_of_lt (hp.fresh c hc)

theorem cutBlock_of_ne (hcb : c ≠ b) (hc : c ≠ p.nextBlock) :
    (p.cutBlock b s₁ s₂).block c = p.block c := by
  simp only [cutBlock, Function.update_of_ne hc, Function.update_of_ne hcb]

theorem cutBlock_first (p : MemoryBlockPool) (b : BlockId) (s₁ s₂ : Nat) :
    (p.cutBlock b s₁ s₂).block p.nextBlock
      = ⟨(p.block b).pending, s₁, (p.block b).heap, (p.block b).offset⟩ := by
  simp only [cutBlock, Function.update_self]

variable (hp : p.WellFormed A strict) (hb : b ∈ p.freeBlocks)

include hp hb

theorem cutBlock_second (hsize : s₁ + s₂ = (p.block b).size) :
    (p.cutBlock b s₁ s₂).block b
      = ⟨(p.block b).pending, s₂, (p.block b).heap, (p.block b).offset + s₁⟩ := by
  have hbb := hp.freeSub b hb
  have hin := (hp.inside hbb).2.2
  simp only [cutBlock, Function.update_of_ne (hp.nextBlock_ne hbb), Function.update_self]
  rw [sizeAdd_of_lt (by omega)]

/-- The two halves tile what the block did. -/
theorem cutBlock_tiles (hsize : s₁ + s₂ = (p.block b).size) :
    Tiles (fun h => (p.heap h).size) p.heaps
      ((p.cutBlock b s₁ s₂).blocks.map (p.cutBlock b s₁ s₂).extent) := by
  obtain ⟨l, r, hl, hbl⟩ := split_at (hp.freeSub b hb)
  have hblocks : (p.cutBlock b s₁ s₂).blocks = l ++ p.nextBlock :: b :: r := by
    simp only [MemoryBlockPool.cutBlock, hl, insertBefore_append hbl]
  -- only the cut block has another extent
  have hsub : ∀ m : List BlockId, (∀ c ∈ m, c ∈ p.blocks) → b ∉ m →
      m.map (p.cutBlock b s₁ s₂).extent = m.map p.extent := by
    intro m hm hbm
    refine List.map_congr_left fun c hc => ?_
    have hcb : c ≠ b := fun h => hbm (h ▸ hc)
    simp only [extent, cutBlock_of_ne hcb (hp.nextBlock_ne (hm c hc))]
  have hnd := hp.nodup
  have ht := hp.tiles
  rw [hl] at hnd
  rw [hl, List.map_append, List.map_cons] at ht
  have hbr : b ∉ r := (List.nodup_cons.mp (List.nodup_append.mp hnd).2.1).1
  have hlsub := hsub l (fun c hc => by simp [hl, hc]) hbl
  have hrsub := hsub r (fun c hc => by simp [hl, hc]) hbr
  have hext₁ : (p.cutBlock b s₁ s₂).extent p.nextBlock
      = ⟨(p.extent b).space, (p.extent b).offset, s₁⟩ := by
    simp only [extent, cutBlock_first]
  have hext₂ : (p.cutBlock b s₁ s₂).extent b
      = ⟨(p.extent b).space, (p.extent b).offset + s₁, s₂⟩ := by
    simp only [extent, cutBlock_second hp hb hsize]
  rw [hblocks, List.map_append, List.map_cons, List.map_cons, hlsub, hrsub, hext₁, hext₂]
  exact ht.cut hsize

omit hp hb in
/-- The first half is all that is new among the blocks. -/
theorem cutBlock_perm (hbb : b ∈ p.blocks) :
    (p.cutBlock b s₁ s₂).blocks.Perm (p.nextBlock :: p.blocks) := by
  obtain ⟨l, r, hl, hbl⟩ := split_at hbb
  simp only [MemoryBlockPool.cutBlock, hl, insertBefore_append hbl]
  exact List.perm_middle

theorem WellFormed.cutBlock (hsize : s₁ + s₂ = (p.block b).size) (h₁ : A ∣ s₁) (h₂ : A ∣ s₂)
    (hpos : strict → 0 < s₁ ∧ 0 < s₂) : (p.cutBlock b s₁ s₂).WellFormed A strict := by
  have hbb := hp.freeSub b hb
  have hfirst := cutBlock_first p b s₁ s₂
  have hsecond := cutBlock_second hp hb hsize
  have hperm : (p.cutBlock b s₁ s₂).blocks.Perm (p.nextBlock :: p.blocks) := cutBlock_perm hbb
  have hnew : p.nextBlock ∉ p.blocks := fun h => hp.nextBlock_ne h rfl
  have hrec : ∀ c ∈ (p.cutBlock b s₁ s₂).blocks, c = p.nextBlock ∨ c = b ∨
      (c ∈ p.blocks ∧ (p.cutBlock b s₁ s₂).block c = p.block c) := by
    intro c hc
    rcases List.mem_cons.mp (hperm.mem_iff.mp hc) with hcn | hc
    · exact .inl hcn
    · by_cases hcb : c = b
      · exact .inr (.inl hcb)
      · exact .inr (.inr ⟨hc, cutBlock_of_ne hcb (hp.nextBlock_ne hc)⟩)
  exact {
    nodup := hperm.nodup_iff.mpr (List.nodup_cons.mpr ⟨hnew, hp.nodup⟩)
    freeNodup := hp.freeNodup.erase b
    freeSub := by
      intro c hc
      exact hperm.mem_iff.mpr (List.mem_cons_of_mem _ (hp.freeSub c (List.mem_of_mem_erase hc)))
    fresh := by
      intro c hc
      rcases List.mem_cons.mp (hperm.mem_iff.mp hc) with rfl | hc
      · exact Nat.lt_succ_self _
      · exact Nat.lt_succ_of_lt (hp.fresh c hc)
    heapsNodup := hp.heapsNodup
    heapsFresh := hp.heapsFresh
    heapSize := hp.heapSize
    tiles := cutBlock_tiles hp hb hsize
    aligned := by
      intro c hc
      have hal := hp.aligned b hbb
      rcases hrec c hc with rfl | rfl | ⟨hc, hrec⟩
      · rw [hfirst]
        exact ⟨hal.1, h₁⟩
      · rw [hsecond]
        exact ⟨Nat.dvd_add hal.1 h₁, h₂⟩
      · rw [hrec]
        exact hp.aligned c hc
    heapAligned := hp.heapAligned
    positive := by
      intro hs c hc
      rcases hrec c hc with rfl | rfl | ⟨hc, hrec⟩
      · rw [hfirst]
        exact (hpos hs).1
      · rw [hsecond]
        exact (hpos hs).2
      · rw [hrec]
        exact hp.positive hs c hc
    total := hp.total }

/-- `partition_block` keeps the invariant: both halves carry the token. -/
theorem Coherent.partitionBlock (hc : p.Coherent A strict G rest)
    (hsize : s₁ + s₂ = (p.block b).size) (h₁ : A ∣ s₁) (h₂ : A ∣ s₂)
    (hpos : strict → 0 < s₁ ∧ 0 < s₂) :
    (p.partitionBlock b s₁ s₂).2.Coherent A strict G rest := by
  have hbb := hp.freeSub b hb
  have hnew : p.nextBlock ∉ p.blocks := fun h => hp.nextBlock_ne h rfl
  have hnb : b ≠ p.nextBlock := hp.nextBlock_ne hbb
  have hw := hp.cutBlock hb hsize h₁ h₂ hpos
  have hfirst := cutBlock_first p b s₁ s₂
  have hsecond := cutBlock_second hp hb hsize
  have hold : ∀ c ∈ p.freeBlocks.erase b,
      c ∈ p.freeBlocks ∧ (p.cutBlock b s₁ s₂).block c = p.block c := by
    intro c hcf
    obtain ⟨hcb, hcf⟩ := hp.freeNodup.mem_erase_iff.mp hcf
    exact ⟨hcf, cutBlock_of_ne hcb (hp.nextBlock_ne (hp.freeSub c hcf))⟩
  have hblocks : (p.cutBlock b s₁ s₂).blocks.Perm (p.nextBlock :: p.blocks) := cutBlock_perm hbb
  -- the block leaves the set, and both halves join it
  have hperm : (p.partitionBlock b s₁ s₂).2.freeBlocks.Perm (p.nextBlock :: p.freeBlocks) := by
    refine (insertUpper_perm _ _ _).trans (((insertUpper_perm _ _ _).cons b).trans ?_)
    refine (List.Perm.swap _ _ _).trans (List.Perm.cons _ ?_)
    exact (List.perm_cons_erase hb).symm
  have hwf : ((p.cutBlock b s₁ s₂).insertFree p.nextBlock).WellFormed A strict := by
    apply hw.insertFree (hblocks.mem_iff.mpr List.mem_cons_self)
    exact fun h => hnew (hp.freeSub _ (hold _ h).1)
  have hs : (p.acquire b).Sorted := hc.sorted.acquire
  exact {
    wellFormed := by
      apply hwf.insertFree (hblocks.mem_iff.mpr (List.mem_cons_of_mem _ hbb))
      intro h
      rcases mem_insertFree.mp h with h | h
      · exact hnb h
      · exact hp.freeNodup.not_mem_erase h
    sorted := by
      apply Sorted.insertFree
      apply Sorted.insertFree
      exact hs.congr rfl fun c hcf => (hold c hcf).2
    guarded := by
      intro c hcf
      have hg := hc.guarded b hb
      rcases List.mem_cons.mp (hperm.mem_iff.mp hcf) with rfl | hcf
      · -- the front half
        refine (hg.shrink (q := p.cutBlock b s₁ s₂) (c := p.nextBlock) ?_ ?_ ?_).congr rfl
        · rw [hfirst]
        · rw [hfirst]
        · intro x hx
          simp only [extent, hfirst, Extent.Has] at hx ⊢
          omega
      · by_cases hcb : c = b
        · -- the back half
          subst hcb
          refine (hg.shrink (q := p.cutBlock c s₁ s₂) (c := c) ?_ ?_ ?_).congr rfl
          · rw [hsecond]
          · rw [hsecond]
          · intro x hx
            simp only [extent, hsecond, Extent.Has] at hx ⊢
            omega
        · have hrec := (hold c (hp.freeNodup.mem_erase_iff.mpr ⟨hcb, hcf⟩)).2
          exact ((hc.guarded c hcf).congr hrec).congr rfl
    accounted := by
      apply hblocks.trans
      apply (hc.accounted.cons _).trans
      exact hperm.symm.append_right rest }

omit hb in
/-- The record of a block that `partition_block` does not cut. -/
theorem partitionBlock_of_ne (hcb : c ≠ b) (hc : c ∈ p.blocks) :
    (p.partitionBlock b s₁ s₂).2.block c = p.block c :=
  cutBlock_of_ne hcb (hp.nextBlock_ne hc)

omit hp hb in
/-- The first half is the front of the block, and free. -/
theorem partitionBlock_first (p : MemoryBlockPool) (b : BlockId) (s₁ s₂ : Nat) :
    (p.partitionBlock b s₁ s₂).1 ∈ (p.partitionBlock b s₁ s₂).2.freeBlocks
      ∧ (p.partitionBlock b s₁ s₂).2.block (p.partitionBlock b s₁ s₂).1
        = ⟨(p.block b).pending, s₁, (p.block b).heap, (p.block b).offset⟩ :=
  ⟨mem_insertFree.mpr (.inr (mem_insertFree.mpr (.inl rfl))), cutBlock_first p b s₁ s₂⟩

end Partition

/-! ## Heaps that come -/

section Register

variable {heap : MemoryHeap}

theorem addHeap_of_ne (hc : c ≠ p.nextBlock) : (p.addHeap heap).block c = p.block c :=
  Function.update_of_ne hc ..

theorem addHeap_block :
    (p.addHeap heap).block p.nextBlock = ⟨none, heap.size, p.nextHeap, 0⟩ :=
  Function.update_self ..

theorem addHeap_heap_of_ne {h : HeapId} (hh : h ≠ p.nextHeap) :
    (p.addHeap heap).heap h = p.heap h :=
  Function.update_of_ne hh ..

theorem addHeap_heap : (p.addHeap heap).heap p.nextHeap = heap := Function.update_self ..

section Names

variable (hp : p.WellFormed A strict)

include hp

/-- What was there stays as it was: the names of the heap and the block are new. -/
theorem addHeap_heap_of_mem {h : HeapId} (hh : h ∈ p.heaps) : (p.addHeap heap).heap h = p.heap h :=
  addHeap_heap_of_ne (Nat.ne_of_lt (hp.heapsFresh h hh))

theorem addHeap_of_mem (hc : c ∈ p.blocks) : (p.addHeap heap).block c = p.block c :=
  addHeap_of_ne (hp.nextBlock_ne hc)

theorem addHeap_tiles : Tiles (fun h => ((p.addHeap heap).heap h).size) (p.addHeap heap).heaps
    ((p.addHeap heap).blocks.map (p.addHeap heap).extent) := by
  have htiles : Tiles (fun h => ((p.addHeap heap).heap h).size) p.heaps (p.blocks.map p.extent) :=
    hp.tiles.congr fun h hh => by rw [addHeap_heap_of_mem hp hh]
  have hmap : p.blocks.map (p.addHeap heap).extent = p.blocks.map p.extent := by
    refine List.map_congr_left fun c hc => ?_
    simp only [extent, addHeap_of_mem hp hc]
  have hnew : (p.addHeap heap).extent p.nextBlock
      = ⟨p.nextHeap, 0, ((p.addHeap heap).heap p.nextHeap).size⟩ := by
    simp only [extent, addHeap_block, addHeap_heap]
  show Tiles _ (p.heaps ++ [p.nextHeap]) ((p.blocks ++ [p.nextBlock]).map _)
  rw [List.map_append, List.map_singleton, hmap, hnew]
  exact htiles.push p.nextHeap

theorem addHeap_total : (p.addHeap heap).size
    = ((p.addHeap heap).heaps.map fun h => ((p.addHeap heap).heap h).size).sum % 2 ^ 64 := by
  have hmap : p.heaps.map (fun h => ((p.addHeap heap).heap h).size)
      = p.heaps.map fun h => (p.heap h).size :=
    List.map_congr_left fun h hh => by rw [addHeap_heap_of_mem hp hh]
  show sizeAdd p.size heap.size
    = ((p.heaps ++ [p.nextHeap]).map fun h => ((p.addHeap heap).heap h).size).sum % 2 ^ 64
  rw [List.map_append, List.sum_append, hmap, List.map_singleton, addHeap_heap,
    List.sum_singleton, sizeAdd, hp.total, Nat.mod_add_mod]

end Names

variable (hp : p.WellFormed A strict) (hsize : 0 < heap.size ∧ heap.size < 2 ^ 64)
  (halign : A ∣ heap.size)

include hp hsize halign

theorem WellFormed.addHeap : (p.addHeap heap).WellFormed A strict := by
  have hnewb : p.nextBlock ∉ p.blocks := fun h => hp.nextBlock_ne h rfl
  have hnewh : p.nextHeap ∉ p.heaps := fun h => Nat.lt_irrefl _ (hp.heapsFresh _ h)
  have hheaps : ∀ h ∈ (p.addHeap heap).heaps, h ∈ p.heaps ∨ h = p.nextHeap := by
    intro h hh
    simpa [MemoryBlockPool.addHeap] using hh
  have hblocks : ∀ c ∈ (p.addHeap heap).blocks, c ∈ p.blocks ∨ c = p.nextBlock := by
    intro c hc
    simpa [MemoryBlockPool.addHeap] using hc
  exact {
    nodup := by
      exact List.nodup_append.mpr ⟨hp.nodup, by simp, by
        intro a ha b hb hab
        exact hnewb (List.mem_singleton.mp hb ▸ hab ▸ ha)⟩
    freeNodup := hp.freeNodup
    freeSub := fun c hc => List.mem_append_left _ (hp.freeSub c hc)
    fresh := by
      intro c hc
      rcases hblocks c hc with hc | rfl
      · exact Nat.lt_succ_of_lt (hp.fresh c hc)
      · exact Nat.lt_succ_self _
    heapsNodup := by
      exact List.nodup_append.mpr ⟨hp.heapsNodup, by simp, by
        intro a ha b hb hab
        exact hnewh (List.mem_singleton.mp hb ▸ hab ▸ ha)⟩
    heapsFresh := by
      intro h hh
      rcases hheaps h hh with hh | rfl
      · exact Nat.lt_succ_of_lt (hp.heapsFresh h hh)
      · exact Nat.lt_succ_self _
    heapSize := by
      intro h hh
      rcases hheaps h hh with hh | rfl
      · rw [addHeap_heap_of_mem hp hh]
        exact hp.heapSize h hh
      · rw [addHeap_heap]
        exact hsize
    tiles := addHeap_tiles hp
    aligned := by
      intro c hc
      rcases hblocks c hc with hc | rfl
      · rw [addHeap_of_mem hp hc]
        exact hp.aligned c hc
      · rw [addHeap_block]
        exact ⟨Nat.dvd_zero A, halign⟩
    heapAligned := by
      intro h hh
      rcases hheaps h hh with hh | rfl
      · rw [addHeap_heap_of_mem hp hh]
        exact hp.heapAligned h hh
      · rw [addHeap_heap]
        exact halign
    positive := by
      intro hs c hc
      rcases hblocks c hc with hc | rfl
      · rw [addHeap_of_mem hp hc]
        exact hp.positive hs c hc
      · rw [addHeap_block]
        exact hsize.1
    total := addHeap_total hp }

/-- `register_heap` keeps the invariant: the empty token says all there is to
say of memory that nothing has used. -/
theorem Coherent.registerHeap (hc : p.Coherent A strict G rest)
    (hG : ∀ x < heap.size, G none p.nextHeap x) :
    (p.registerHeap heap).2.Coherent A strict G rest := by
  have hw := hp.addHeap hsize halign
  exact {
    wellFormed := by
      apply hw.insertFree (List.mem_append_right _ (List.mem_singleton.mpr rfl))
      exact fun h => hp.nextBlock_ne (hp.freeSub _ h) rfl
    sorted := by
      apply Sorted.insertFree
      exact hc.sorted.congr rfl fun c hcf => addHeap_of_mem hp (hp.freeSub c hcf)
    guarded := by
      intro c hcf
      rcases mem_insertFree.mp hcf with rfl | hcf
      · -- no byte of the new heap has been used
        intro x hx
        have hrec : (p.registerHeap heap).2.block p.nextBlock
            = ⟨none, heap.size, p.nextHeap, 0⟩ := addHeap_block
        rw [extent, hrec] at hx
        rw [hrec]
        exact hG x (by simpa [Extent.Has] using hx)
      · exact ((hc.guarded c hcf).congr (addHeap_of_mem hp (hp.freeSub c hcf))).congr rfl
    accounted := by
      apply (List.perm_append_singleton _ _).trans
      apply (hc.accounted.cons _).trans
      exact (insertUpper_perm _ _ _).symm.append_right rest }

end Register

/-! ## Heaps that go -/

/-- A block that is no partition spans its heap, and is the only one there.
Without the two, the others tile the other heaps, with none on both sides. -/
theorem WellFormed.whole (hp : p.WellFormed A strict) (hb : b ∈ p.blocks)
    (hw : p.isPartition b = false) :
    (p.block b).offset = 0 ∧ (p.block b).size = (p.heap (p.block b).heap).size
      ∧ (∀ c ∈ p.blocks, c ≠ b → (p.block c).heap ≠ (p.block b).heap)
      ∧ ∃ l r, p.blocks = l ++ b :: r ∧ p.blocks.erase b = l ++ r
        ∧ (∀ x ∈ l, ∀ y ∈ r, (p.block x).heap ≠ (p.block y).heap)
        ∧ Tiles (fun h => (p.heap h).size) (p.heaps.erase (p.block b).heap)
            ((l ++ r).map p.extent) := by
  obtain ⟨l, r, hl, hbl⟩ := split_at hb
  simp only [isPartition, hl, nextOf_append hbl, prevOf_append hbl, Bool.or_eq_false_iff] at hw
  obtain ⟨hnext, hprev⟩ := hw
  have ht := hp.tiles
  -- neither neighbour in the list of blocks is of the same heap
  rw [hl, List.map_append, List.map_cons] at ht
  have hprev' : ∀ x ∈ (l.map p.extent).getLast?, x.space ≠ (p.extent b).space := by
    intro x hx
    rw [List.getLast?_map] at hx
    cases hlast : l.getLast? with
    | none => simp [hlast] at hx
    | some previous =>
        simp only [hlast, decide_eq_false_iff_not] at hprev
        simp only [hlast, Option.map_some, Option.mem_def, Option.some.injEq] at hx
        exact hx ▸ hprev
  have hnext' : ∀ x ∈ (r.map p.extent).head?, x.space ≠ (p.extent b).space := by
    intro x hx
    rw [List.head?_map] at hx
    cases hhead : r.head? with
    | none => simp [hhead] at hx
    | some next =>
        simp only [hhead, decide_eq_false_iff_not] at hnext
        simp only [hhead, Option.map_some, Option.mem_def, Option.some.injEq] at hx
        exact hx ▸ hnext
  obtain ⟨hoffset, hsize, hother, hsides, htiles⟩ := ht.remove hp.heapsNodup hprev' hnext'
  refine ⟨hoffset, hsize, ?_, l, r, hl, by rw [hl, erase_middle hbl], ?_, ?_⟩
  · intro c hc hcb
    apply hother (p.extent c)
    rw [← List.map_append]
    apply List.mem_map_of_mem
    rw [hl] at hc
    rcases List.mem_append.mp hc with hc | hc
    · exact List.mem_append_left _ hc
    · exact List.mem_append_right _ ((List.mem_cons.mp hc).resolve_left hcb)
  · intro x hx y hy
    exact hsides _ (List.mem_map_of_mem hx) _ (List.mem_map_of_mem hy)
  · rw [List.map_append]
    exact htiles

section EraseHeap

variable (hp : p.WellFormed A strict) (hb : b ∈ p.freeBlocks) (hw : p.isPartition b = false)

include hp hb hw

theorem WellFormed.eraseHeap : (p.eraseHeap b).WellFormed A strict := by
  obtain ⟨-, -, -, l, r, -, herase, -, htiles⟩ := hp.whole (hp.freeSub b hb) hw
  have hblocks : ∀ c ∈ p.blocks.erase b, c ∈ p.blocks := fun c => List.mem_of_mem_erase
  have hheaps : ∀ h ∈ p.heaps.erase (p.block b).heap, h ∈ p.heaps := fun h =>
    List.mem_of_mem_erase
  obtain ⟨hh, -, -⟩ := hp.inside (hp.freeSub b hb)
  exact {
    nodup := hp.nodup.erase b
    freeNodup := hp.freeNodup.erase b
    freeSub := by
      intro c hc
      obtain ⟨hcb, hc⟩ := hp.freeNodup.mem_erase_iff.mp hc
      exact hp.nodup.mem_erase_iff.mpr ⟨hcb, hp.freeSub c hc⟩
    fresh := fun c hc => hp.fresh c (hblocks c hc)
    heapsNodup := hp.heapsNodup.erase _
    heapsFresh := fun h hh => hp.heapsFresh h (hheaps h hh)
    heapSize := fun h hh => hp.heapSize h (hheaps h hh)
    tiles := by rw [← herase] at htiles; exact htiles
    aligned := fun c hc => hp.aligned c (hblocks c hc)
    heapAligned := fun h hh => hp.heapAligned h (hheaps h hh)
    positive := fun hs c hc => hp.positive hs c (hblocks c hc)
    total := by
      have hsum := (List.perm_cons_erase hh).map fun h => (p.heap h).size
      have hsum := hsum.sum_nat
      have hlt := (hp.heapSize _ hh).2
      rw [List.map_cons, List.sum_cons] at hsum
      show sizeSub p.size (p.heap (p.block b).heap).size
        = ((p.heaps.erase (p.block b).heap).map fun h => (p.heap h).size).sum % 2 ^ 64
      rw [sizeSub, hp.total, hsum]
      omega }

/-- `release_unused_heaps` keeps the invariant with each heap it drops. -/
theorem Coherent.eraseHeap (hc : p.Coherent A strict G rest) :
    (p.eraseHeap b).Coherent A strict G rest where
  wellFormed := hp.eraseHeap hb hw
  sorted := (hc.sorted.acquire (b := b)).congr rfl fun _ _ => rfl
  guarded c hcf := hc.guarded c (List.mem_of_mem_erase hcf)
  accounted := by
    have := List.Perm.erase b hc.accounted
    rwa [List.erase_append_left _ hb] at this

end EraseHeap

end MemoryBlockPool

end RexlibCuda
