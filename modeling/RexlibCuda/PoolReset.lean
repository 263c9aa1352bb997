import Mathlib.Data.List.Chain
import RexlibCuda.PoolOperations

/-! `reset_pending` keeps the invariant of the pool, and leaves no two free
neighbours of one heap apart. `release_unused_heaps` then leaves no heap
without a block that is not free. -/

namespace RexlibCuda

namespace MemoryBlockPool

open Sequence Tiling
open Relation (ReflTransGen)

variable {A : Nat} {strict : Prop} {G : Guard} {B rest : List BlockId}
  {p q : MemoryBlockPool} {b c n : BlockId}

/-- No token of a free block is left. -/
def Unbound (p : MemoryBlockPool) : Prop := ∀ b ∈ p.freeBlocks, (p.block b).pending = none

/-- No two neighbours of one heap are both free. -/
def Merged (p : MemoryBlockPool) : Prop :=
  p.blocks.IsChain fun b c =>
    b ∈ p.freeBlocks → c ∈ p.freeBlocks → (p.block c).heap ≠ (p.block b).heap

/-! ## Emptying the tokens -/

theorem unbindLoop_spec (bs : List BlockId) :
    ∀ (q : MemoryBlockPool) (unbound : List BlockId),
      (unbindLoop bs q unbound).1
          = { q with block := fun c =>
                if c ∈ bs then { q.block c with pending := none } else q.block c }
        ∧ (unbindLoop bs q unbound).2.Perm (bs ++ unbound) := by
  induction bs with
  | nil =>
      intro q unbound
      exact ⟨by simp [unbindLoop], .refl _⟩
  | cons b bs ih =>
      intro q unbound
      obtain ⟨hq, hperm⟩ := ih (q.setPending b none)
        (insertUpper (q.setPending b none).less b unbound)
      constructor
      · rw [unbindLoop, hq]
        simp only [setPending, setBlock, mk.injEq, and_true]
        funext c
        by_cases hcb : c = b
        · subst hcb
          simp
        · simp [hcb]
      · refine hperm.trans (((insertUpper_perm _ b unbound).append_left bs).trans ?_)
        exact List.perm_middle

theorem unbind_eq :
    p.unbind = { p with
      block := fun c =>
        if c ∈ p.freeBlocks then { p.block c with pending := none } else p.block c
      freeBlocks := (unbindLoop p.freeBlocks p []).2 } := by
  show ({ (unbindLoop p.freeBlocks p []).1 with
    freeBlocks := (unbindLoop p.freeBlocks p []).2 } : MemoryBlockPool) = _
  rw [(unbindLoop_spec p.freeBlocks p []).1]

theorem unbind_freeBlocks : p.unbind.freeBlocks.Perm p.freeBlocks := by
  have := (unbindLoop_spec p.freeBlocks p []).2
  rwa [List.append_nil] at this

theorem unbind_block (c : BlockId) :
    p.unbind.block c
      = if c ∈ p.freeBlocks then { p.block c with pending := none } else p.block c := by
  rw [unbind_eq]

theorem extent_unbind : p.unbind.extent = p.extent := by
  funext c
  simp only [extent, unbind_block]
  split <;> rfl

theorem unbind_unbound : p.unbind.Unbound := by
  intro b hb
  rw [unbind_block, if_pos (unbind_freeBlocks.mem_iff.mp hb)]

theorem unbind_frame : Frame p.freeBlocks p p.unbind := by
  refine ⟨?_, ?_, ?_, ?_, ?_, fun c hc => ?_, fun c => ?_⟩
  · rw [unbind_eq]
  · rw [unbind_eq]
  · rw [unbind_eq]
  · rw [unbind_eq]
  · rw [unbind_eq]
  · rw [unbind_block, if_neg hc]
  · rw [unbind_block]
    split <;> rfl

theorem unbind_blocks : p.unbind.blocks = p.blocks := by rw [unbind_eq]

theorem WellFormed.unbind (hp : p.WellFormed A strict) : p.unbind.WellFormed A strict := by
  have hframe := unbind_frame (p := p)
  have hext : ∀ c, p.unbind.extent c = p.extent c := fun c => by rw [extent_unbind]
  simp only [extent, Extent.mk.injEq] at hext
  exact {
    nodup := by rw [unbind_blocks]; exact hp.nodup
    freeNodup := unbind_freeBlocks.nodup_iff.mpr hp.freeNodup
    freeSub := by
      intro b hb
      rw [unbind_blocks]
      exact hp.freeSub b (unbind_freeBlocks.mem_iff.mp hb)
    fresh := by
      rw [unbind_blocks, hframe.nextBlock]
      exact hp.fresh
    heapsNodup := by rw [hframe.heaps]; exact hp.heapsNodup
    heapsFresh := by
      rw [hframe.heaps, hframe.nextHeap]
      exact hp.heapsFresh
    heapSize := by
      rw [hframe.heaps, hframe.heap]
      exact hp.heapSize
    tiles := by
      rw [hframe.heaps, hframe.heap, unbind_blocks, extent_unbind]
      exact hp.tiles
    aligned := by
      intro c hc
      rw [(hext c).2.1, (hext c).2.2]
      exact hp.aligned c (unbind_blocks ▸ hc)
    heapAligned := by
      rw [hframe.heaps, hframe.heap]
      exact hp.heapAligned
    positive := by
      intro hs c hc
      rw [(hext c).2.2]
      exact hp.positive hs c (unbind_blocks ▸ hc)
    total := by
      rw [hframe.heaps, hframe.heap, hframe.size]
      exact hp.total }

/-! ## The sweep -/

/-- What the sweep needs of the pool, with `done` behind its iterator. -/
structure Sweeping (A : Nat) (strict : Prop) (B done : List BlockId) (ite : BlockId)
    (rest : List BlockId) (q : MemoryBlockPool) : Prop where
  wellFormed : q.WellFormed A strict
  blocks : q.blocks = done ++ ite :: rest
  free : ∀ b ∈ q.freeBlocks, b ∈ B
  unbound : ∀ b ∈ B, (q.block b).pending = none
  merged : (done ++ [ite]).IsChain fun b c =>
    b ∈ q.freeBlocks → c ∈ q.freeBlocks → (q.block c).heap ≠ (q.block b).heap

/-- The block at the iterator takes over the next one. -/
theorem Sweeping.absorb {done rest : List BlockId} {ite next : BlockId}
    (h : Sweeping A strict B done ite (next :: rest) q) (hite : ite ∈ q.freeBlocks)
    (hnext : next ∈ q.freeBlocks) (hheap : (q.block next).heap = (q.block ite).heap) :
    Merge B q (q.absorb ite next (q.block ite).offset)
      ∧ Sweeping A strict B done ite rest (q.absorb ite next (q.block ite).offset) := by
  have hadj : q.Adjacent ite next (q.block ite).offset :=
    ⟨hheap, done, rest, .inl ⟨h.blocks, rfl⟩⟩
  have hpi := h.unbound ite (h.free ite hite)
  have hpn := h.unbound next (h.free next hnext)
  have hmerge : Merge B q (q.absorb ite next (q.block ite).offset) :=
    ⟨ite, h.free ite hite, next, hnext, _, hadj, by rw [hpi, hpn], rfl⟩
  have hself := block_absorb h.wellFormed hadj
  have hheaps : ∀ c, ((q.absorb ite next (q.block ite).offset).block c).heap
      = (q.block c).heap := by
    intro c
    by_cases hc : c = ite
    · subst hc
      rw [hself]
    · rw [block_absorb_of_ne hc]
  have hsub := hmerge.freeBlocks.subset
  constructor
  · exact hmerge
  · exact {
      wellFormed := h.wellFormed.absorb hadj
      blocks := by
        have hnd := h.wellFormed.nodup
        rw [h.blocks] at hnd
        have hnot : next ∉ done ++ [ite] := by
          rw [List.append_cons, List.nodup_append] at hnd
          exact fun hmem => hnd.2.2 next hmem next List.mem_cons_self rfl
        show q.blocks.erase next = _
        rw [h.blocks, List.append_cons, erase_middle hnot, List.append_assoc]
        rfl
      free := fun b hb => h.free b (hsub hb)
      unbound := by
        intro b hb
        by_cases hbi : b = ite
        · subst hbi
          rw [hself, hpi, hpn]
          rfl
        · rw [block_absorb_of_ne hbi]
          exact h.unbound b hb
      merged := by
        apply h.merged.imp
        intro b c hbc hb hc
        rw [hheaps, hheaps]
        exact hbc (hsub hb) (hsub hc) }

/-- The iterator moves on where it cannot. -/
theorem Sweeping.advance {done rest : List BlockId} {ite next : BlockId}
    (h : Sweeping A strict B done ite (next :: rest) q)
    (hapart : ite ∈ q.freeBlocks → next ∈ q.freeBlocks →
      (q.block next).heap ≠ (q.block ite).heap) :
    Sweeping A strict B (done ++ [ite]) next rest q where
  wellFormed := h.wellFormed
  blocks := by
    rw [h.blocks, List.append_assoc]
    rfl
  free := h.free
  unbound := h.unbound
  merged := by
    apply List.isChain_append.mpr ⟨h.merged, List.isChain_singleton _, ?_⟩
    intro b hb c hc
    simp only [List.getLast?_append, List.getLast?_singleton, Option.some_or,
      Option.mem_def, Option.some.injEq, List.head?_cons] at hb hc
    subst hb hc
    exact hapart

/-- **The sweep is a run of merges**, and nothing is left to merge behind its
iterator. -/
theorem mergeRuns_spec : ∀ (rest done : List BlockId) (ite : BlockId) (q : MemoryBlockPool),
    Sweeping A strict B done ite rest q →
      ReflTransGen (Merge B) q (mergeRuns ite rest q)
        ∧ (mergeRuns ite rest q).Merged
        ∧ ∀ b ∈ B, ((mergeRuns ite rest q).block b).pending = none := by
  intro rest
  induction rest with
  | nil =>
      intro done ite q h
      refine ⟨.refl, ?_, h.unbound⟩
      have hmerged := h.merged
      rwa [← h.blocks] at hmerged
  | cons next rest ih =>
      intro done ite q h
      rw [mergeRuns]
      split
      · rename_i hcond
        simp only [isFree, Bool.and_eq_true, decide_eq_true_eq] at hcond
        obtain ⟨⟨hite, hnext⟩, hheap⟩ := hcond
        obtain ⟨hmerge, hsweep⟩ := h.absorb hite hnext hheap
        -- the sweep leaves the tokens alone: both are empty
        have habsorb : { q with
            block := Function.update q.block ite
              { q.block ite with size := sizeAdd (q.block ite).size (q.block next).size }
            freeBlocks := q.freeBlocks.erase next
            blocks := q.blocks.erase next } = q.absorb ite next (q.block ite).offset := by
          simp only [absorb, h.unbound ite (h.free ite hite), h.unbound next (h.free next hnext)]
          rfl
        rw [habsorb]
        obtain ⟨hrun, hmerged, hunbound⟩ := ih done ite _ hsweep
        exact ⟨.head hmerge hrun, hmerged, hunbound⟩
      · rename_i hcond
        simp only [isFree, Bool.and_eq_true, decide_eq_true_eq, not_and] at hcond
        exact ih (done ++ [ite]) next q (h.advance fun hite hnext => hcond ⟨hite, hnext⟩)

/-- What the sweep does to the pool with its free blocks set aside. -/
theorem mergeAll_spec (hp : p.WellFormed A strict) :
    ReflTransGen (Merge p.freeBlocks) p.unbind p.unbind.mergeAll
      ∧ p.unbind.mergeAll.Merged ∧ p.unbind.mergeAll.Unbound := by
  have hsub : ∀ b, b ∈ p.unbind.freeBlocks ↔ b ∈ p.freeBlocks := fun b =>
    unbind_freeBlocks.mem_iff
  unfold mergeAll
  split
  · rename_i hnil
    refine ⟨.refl, ?_, unbind_unbound⟩
    rw [Merged, hnil]
    exact List.isChain_nil
  · rename_i ite rest hl
    obtain ⟨hrun, hm, hu⟩ := mergeRuns_spec (B := p.freeBlocks) rest [] ite p.unbind
      { wellFormed := hp.unbind
        blocks := hl
        free := fun b hb => (hsub b).mp hb
        unbound := fun b hb => unbind_unbound b ((hsub b).mpr hb)
        merged := List.isChain_singleton _ }
    refine ⟨hrun, hm, fun b hb => hu b ?_⟩
    exact (hsub b).mp ((merges_freeBlocks hrun).subset hb)

/-! ## Back into the set -/

theorem bindAgain_freeBlocks : p.bindAgain.freeBlocks.Perm p.freeBlocks := by
  have h : p.bindAgain.freeBlocks.Perm (p.freeBlocks ++ []) :=
    foldl_insertUpper_perm p.freeBlocks []
  rwa [List.append_nil] at h

theorem bindAgain_sorted : p.bindAgain.Sorted :=
  InOrder.foldl_insertUpper less_iff p.freeBlocks List.Pairwise.nil

theorem WellFormed.bindAgain (hp : p.WellFormed A strict) : p.bindAgain.WellFormed A strict where
  nodup := hp.nodup
  freeNodup := bindAgain_freeBlocks.nodup_iff.mpr hp.freeNodup
  freeSub b hb := hp.freeSub b (bindAgain_freeBlocks.mem_iff.mp hb)
  fresh := hp.fresh
  heapsNodup := hp.heapsNodup
  heapsFresh := hp.heapsFresh
  heapSize := hp.heapSize
  tiles := hp.tiles
  aligned := hp.aligned
  heapAligned := hp.heapAligned
  positive := hp.positive
  total := hp.total

theorem WellFormed.resetPending (hp : p.WellFormed A strict) :
    p.resetPending.WellFormed A strict :=
  (hp.unbind.merges (mergeAll_spec hp).1).bindAgain

/-- `reset_pending` keeps the invariant, when the empty token says as much of
the free bytes as the tokens that are thrown away. -/
theorem Coherent.resetPending (hc : p.Coherent A strict G rest) (hG : G.Lasting)
    (hempty : ∀ b ∈ p.freeBlocks, ∀ x, (p.extent b).Has x → G none (p.block b).heap x) :
    p.resetPending.Coherent A strict G rest := by
  obtain ⟨hrun, -, -⟩ := mergeAll_spec hc.wellFormed
  have hw := hc.wellFormed.unbind
  have hacc : p.unbind.Accounted rest := by
    have h : p.unbind.blocks.Perm (p.freeBlocks ++ rest) := by
      rw [unbind_blocks]
      exact hc.accounted
    exact h.trans (unbind_freeBlocks.symm.append_right rest)
  have hguard : ∀ c, c ∈ p.freeBlocks ∨ c ∈ p.unbind.freeBlocks → p.unbind.GuardedAt G c := by
    intro c hcf x hx
    have hcf : c ∈ p.freeBlocks := hcf.elim id unbind_freeBlocks.mem_iff.mp
    rw [extent_unbind] at hx
    rw [unbind_block, if_pos hcf]
    exact hempty c hcf x hx
  have hguard := GuardedAt.merges hG hw hrun hguard
  have hacc := hacc.merges hrun
  refine ⟨(hw.merges hrun).bindAgain, bindAgain_sorted, ?_, ?_⟩
  · intro c hcf
    exact (hguard c (.inr (bindAgain_freeBlocks.mem_iff.mp hcf))).congr rfl
  · exact hacc.trans (bindAgain_freeBlocks.symm.append_right rest)

/-- `reset_pending` touches nothing but the free blocks. -/
theorem resetPending_frame (hp : p.WellFormed A strict) :
    Frame p.freeBlocks p p.resetPending := by
  have h := (unbind_frame (p := p)).trans (merges_frame (mergeAll_spec hp).1)
  exact ⟨h.heap, h.heaps, h.size, h.nextBlock, h.nextHeap, h.block, h.blockHeap⟩

theorem resetPending_unbound (hp : p.WellFormed A strict) : p.resetPending.Unbound :=
  fun b hb => (mergeAll_spec hp).2.2 b (bindAgain_freeBlocks.mem_iff.mp hb)

theorem resetPending_merged (hp : p.WellFormed A strict) : p.resetPending.Merged := by
  refine (mergeAll_spec hp).2.1.imp fun b c hbc hb hc => ?_
  exact hbc (bindAgain_freeBlocks.mem_iff.mp hb) (bindAgain_freeBlocks.mem_iff.mp hc)

/-! ## Dropping heaps -/

/-- A pool nothing more can be taken from: no free block has a token, no two
could be merged, and every heap has a block that is not free. -/
structure Trimmed (p : MemoryBlockPool) : Prop where
  unbound : p.Unbound
  merged : p.Merged
  owned : ∀ h ∈ p.heaps, ∃ b ∈ p.blocks, b ∉ p.freeBlocks ∧ (p.block b).heap = h

/-- A block is a partition when its heap has another one. -/
theorem WellFormed.isPartition_iff (hp : p.WellFormed A strict) (hb : b ∈ p.blocks) :
    p.isPartition b = true ↔ ∃ c ∈ p.blocks, c ≠ b ∧ (p.block c).heap = (p.block b).heap := by
  constructor
  · intro hpart
    obtain ⟨l, r, hl, hbl⟩ := split_at hb
    have hnd := hp.nodup
    rw [hl, List.nodup_append, List.nodup_cons] at hnd
    simp only [isPartition, hl, nextOf_append hbl, prevOf_append hbl, Bool.or_eq_true] at hpart
    rcases hpart with hpart | hpart
    · split at hpart
      · rename_i next hnext
        have hmem := List.mem_of_mem_head? (Option.mem_def.mpr hnext)
        refine ⟨next, by simp [hl, hmem], ?_, of_decide_eq_true hpart⟩
        exact fun h => hnd.2.1.1 (h ▸ hmem)
      · cases hpart
    · split at hpart
      · rename_i previous hprev
        have hmem := List.mem_of_mem_getLast? (Option.mem_def.mpr hprev)
        refine ⟨previous, by simp [hl, hmem], ?_, of_decide_eq_true hpart⟩
        exact fun h => hbl (h ▸ hmem)
      · cases hpart
  · rintro ⟨c, hc, hcb, hheap⟩
    by_contra hpart
    exact (hp.whole hb (Bool.not_eq_true _ ▸ hpart)).2.2.1 c hc hcb hheap

/-- A free partition has a neighbour that is not free. -/
theorem Merged.neighbour (hm : p.Merged) (hp : p.WellFormed A strict) (hb : b ∈ p.freeBlocks)
    (hpart : p.isPartition b = true) :
    ∃ c ∈ p.blocks, c ∉ p.freeBlocks ∧ (p.block c).heap = (p.block b).heap := by
  obtain ⟨l, r, hl, hbl⟩ := split_at (hp.freeSub b hb)
  have hchain := hm
  rw [Merged, hl, List.isChain_append] at hchain
  simp only [isPartition, hl, nextOf_append hbl, prevOf_append hbl, Bool.or_eq_true] at hpart
  rcases hpart with hpart | hpart
  · split at hpart
    · rename_i next hnext
      obtain ⟨r, rfl⟩ := List.head?_eq_some_iff.mp hnext
      refine ⟨next, by simp [hl], ?_, of_decide_eq_true hpart⟩
      intro hfree
      exact (List.isChain_cons_cons.mp hchain.2.1).1 hb hfree (of_decide_eq_true hpart)
    · cases hpart
  · split at hpart
    · rename_i previous hprev
      have hmem := List.mem_of_mem_getLast? (Option.mem_def.mpr hprev)
      refine ⟨previous, by simp [hl, hmem], ?_, of_decide_eq_true hpart⟩
      intro hfree
      exact hchain.2.2 previous hprev b rfl hfree hb (of_decide_eq_true hpart).symm
    · cases hpart

/-- **Bytes in a row that are all free lie in one block**, once everything is
merged and no block is empty. -/
theorem Merged.gap (hm : p.Merged) (hp : p.WellFormed A True) {h : HeapId} (hh : h ∈ p.heaps)
    {lo len : Nat} (hlen : 0 < len) (hin : lo + len ≤ (p.heap h).size)
    (hfree : ∀ x, lo ≤ x → x < lo + len → ∀ b ∈ p.blocks, (p.block b).heap = h →
      (p.extent b).Has x → b ∈ p.freeBlocks) :
    ∃ b ∈ p.freeBlocks, len ≤ (p.block b).size := by
  have hat : ∀ x, lo ≤ x → x < lo + len → ∃ b ∈ p.freeBlocks, b ∈ p.blocks ∧
      (p.block b).heap = h ∧ (p.extent b).Has x := by
    intro x hlo hhi
    obtain ⟨e, he, hspace, hx⟩ := hp.tiles.cover hh (show x < _ by omega)
    obtain ⟨b, hb, rfl⟩ := List.mem_map.mp he
    exact ⟨b, hfree x hlo hhi b hb hspace hx, hb, hspace, hx⟩
  obtain ⟨b, hbf, hb, hheap, hlo⟩ := hat lo (Nat.le_refl _) (by omega)
  refine ⟨b, hbf, ?_⟩
  by_contra hshort
  simp only [extent, Extent.Has] at hlo
  -- the block ends before the range does, so another one comes right after it
  have hlt : (p.block b).offset + (p.block b).size < lo + len := by omega
  obtain ⟨l, r, hl, -⟩ := split_at hb
  have htiles := hp.tiles
  rw [hl, List.map_append, List.map_cons] at htiles
  obtain ⟨e, r', hr, hspace, hoffset⟩ := htiles.next (show _ < _ by
    simp only [extent, hheap]
    omega)
  obtain ⟨c, r'', rfl, rfl, -⟩ := List.map_eq_cons_iff.mp hr
  simp only [extent] at hspace hoffset
  have hc : c ∈ p.blocks := by simp [hl]
  have hpos := hp.positive trivial c hc
  have hcf : c ∈ p.freeBlocks := by
    apply hfree (p.block c).offset (by omega) (by omega) c hc (hspace.trans hheap)
    simp only [extent, Extent.Has]
    omega
  have hchain := hm
  rw [Merged, hl, List.isChain_append] at hchain
  exact (List.isChain_cons_cons.mp hchain.2.1).1 hbf hcf hspace

theorem Merged.eraseHeap (hm : p.Merged) (hp : p.WellFormed A strict) (hb : b ∈ p.freeBlocks)
    (hw : p.isPartition b = false) : (p.eraseHeap b).Merged := by
  obtain ⟨-, -, -, l, r, hl, herase, hsides, -⟩ := hp.whole (hp.freeSub b hb) hw
  have hsub : ∀ c ∈ p.freeBlocks.erase b, c ∈ p.freeBlocks := fun c => List.mem_of_mem_erase
  rw [Merged, hl, List.isChain_append] at hm
  have himp : ∀ xs : List BlockId,
      (xs.IsChain fun b c => b ∈ p.freeBlocks → c ∈ p.freeBlocks →
        (p.block c).heap ≠ (p.block b).heap) →
      xs.IsChain fun x y => x ∈ p.freeBlocks.erase b → y ∈ p.freeBlocks.erase b →
        (p.block y).heap ≠ (p.block x).heap := by
    intro xs hxs
    exact hxs.imp fun x y hxy hx hy => hxy (hsub x hx) (hsub y hy)
  show (p.blocks.erase b).IsChain _
  rw [herase]
  refine List.isChain_append.mpr ⟨himp l hm.1, himp r hm.2.1.tail, ?_⟩
  intro x hx y hy _ _
  exact (hsides x (List.mem_of_mem_getLast? hx) y (List.mem_of_mem_head? hy)).symm

/-- The loop leaves only partitions behind it. -/
theorem releaseUnusedLoop_spec (bs : List BlockId) : ∀ (result : Nat) (q : MemoryBlockPool),
    q.WellFormed A strict → q.Unbound → q.Merged → bs.Nodup → (∀ b ∈ bs, b ∈ q.freeBlocks) →
    (∀ b ∈ q.freeBlocks, b ∈ bs ∨ q.isPartition b = true) →
    (releaseUnusedLoop bs result q).2.2.Trimmed := by
  induction bs with
  | nil =>
      intro result q hq hu hm _ _ hpart
      refine ⟨hu, hm, ?_⟩
      intro h hh
      -- a heap is not empty, so it has a block at its start
      have hpos := (hq.heapSize h hh).1
      obtain ⟨e, he, hspace, -⟩ := hq.tiles.cover hh hpos
      obtain ⟨b, hb, rfl⟩ := List.mem_map.mp he
      by_cases hfree : b ∈ q.freeBlocks
      · -- a free block that is left is a partition, next to one that is not free
        obtain ⟨c, hc, hcf, hheap⟩ := hm.neighbour hq hfree ((hpart b hfree).resolve_left (by simp))
        exact ⟨c, hc, hcf, hheap.trans hspace⟩
      · exact ⟨b, hb, hfree, hspace⟩
  | cons b bs ih =>
      intro result q hq hu hm hnd hfree hpart
      obtain ⟨hbs, hnd⟩ := List.nodup_cons.mp hnd
      have hb := hfree b List.mem_cons_self
      simp only [releaseUnusedLoop]
      split
      · rename_i hwhole
        apply ih result q hq hu hm hnd (fun c hc => hfree c (List.mem_cons_of_mem b hc))
        intro c hc
        rcases hpart c hc with hmem | hmem
        · rcases List.mem_cons.mp hmem with rfl | hmem
          · exact .inr hwhole
          · exact .inl hmem
        · exact .inr hmem
      · rename_i hwhole
        have hwhole : q.isPartition b = false := Bool.not_eq_true _ ▸ hwhole
        have hq' := hq.eraseHeap hb hwhole
        refine ih _ (q.eraseHeap b) hq' (fun c hc => hu c (List.mem_of_mem_erase hc))
          (hm.eraseHeap hq hb hwhole) hnd ?_ ?_
        · intro c hc
          have hcb : c ≠ b := fun h => hbs (h ▸ hc)
          exact (List.mem_erase_of_ne hcb).mpr (hfree c (List.mem_cons_of_mem b hc))
        · intro c hc
          obtain ⟨hcb, hcf⟩ := hq.freeNodup.mem_erase_iff.mp hc
          rcases hpart c hcf with hmem | hmem
          · exact .inl ((List.mem_cons.mp hmem).resolve_left hcb)
          · -- its heap keeps the other block, which is not the one that dies
            obtain ⟨d, hd, hdc, hheap⟩ := (hq.isPartition_iff (hq.freeSub c hcf)).mp hmem
            refine .inr ((hq'.isPartition_iff (hq'.freeSub c hc)).mpr ⟨d, ?_, hdc, hheap⟩)
            have hdb : d ≠ b := by
              rintro rfl
              exact (hq.whole hd hwhole).2.2.1 c (hq.freeSub c hcf) hcb hheap.symm
            exact (List.mem_erase_of_ne hdb).mpr hd

/-- **After `reset_pending` and `release_unused_heaps`** there is nothing more
to give back. -/
theorem resetPending_trimmed (hp : p.WellFormed A strict) (hq : p.resetPending.WellFormed A strict) :
    p.resetPending.releaseUnusedHeaps.2.2.Trimmed :=
  releaseUnusedLoop_spec _ 0 _ hq (resetPending_unbound hp) (resetPending_merged hp)
    hq.freeNodup (fun _ hb => hb) (fun _ hb => .inl hb)

end MemoryBlockPool

end RexlibCuda
