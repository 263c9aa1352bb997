import RexlibCuda.BlockChoice

/-! Blocks that are all of their heap. What splits a heap is handing out a part
of its block, and nothing else does; so what `acquire_block` settles on decides,
which is what one of its searches finds or what the pool has grown by. -/

namespace RexlibCuda

open Completion Prog

open Relation (ReflTransGen)

namespace MemoryBlockPool

variable {A r : Nat} {strict : Prop} {p : MemoryBlockPool} {b c : BlockId} {g : HeapId}

/-- No two blocks are of the heap `g`: it is not split. -/
def Unsplit (p : MemoryBlockPool) (g : HeapId) : Prop :=
  ∀ b ∈ p.blocks, ∀ c ∈ p.blocks, (p.block b).heap = g → (p.block c).heap = g → b = c

/-- **The block owns its heap**: it spans a whole heap of exactly `r` bytes, and
no other block is there. -/
structure OwnsHeap (p : MemoryBlockPool) (r : Nat) (b : BlockId) : Prop where
  offset : (p.block b).offset = 0
  size : (p.block b).size = r
  heap : (p.heap (p.block b).heap).size = r
  alone : p.Unsplit (p.block b).heap

/-- A block of the size asked for that is all of its heap. -/
def Exact (p : MemoryBlockPool) (r : Nat) (c : BlockId) : Prop :=
  p.isPartition c = false ∧ (p.block c).size = r

theorem WellFormed.unsplit_iff (hp : p.WellFormed A strict) (hb : b ∈ p.blocks) :
    p.Unsplit (p.block b).heap ↔ p.isPartition b = false := by
  rw [← Bool.not_eq_true, hp.isPartition_iff hb]
  constructor
  · intro halone h
    obtain ⟨c, hc, hcb, hheap⟩ := h
    exact hcb (halone c hc b hb hheap rfl)
  · intro hnone c hc d hd hcheap hdheap
    have hone : ∀ x ∈ p.blocks, (p.block x).heap = (p.block b).heap → x = b := by
      intro x hx hheap
      by_contra hne
      exact hnone ⟨x, hx, hne, hheap⟩
    rw [hone c hc hcheap, hone d hd hdheap]

/-- Such a block owns its heap. -/
theorem WellFormed.ownsHeap (hp : p.WellFormed A strict) (hb : b ∈ p.blocks)
    (h : p.Exact r b) : p.OwnsHeap r b := by
  obtain ⟨hwhole, hsize⟩ := h
  obtain ⟨hoffset, hheap, -, -⟩ := hp.whole hb hwhole
  exact ⟨hoffset, hsize, hheap.symm.trans hsize, (hp.unsplit_iff hb).mpr hwhole⟩

/-- A block that is cut splits its heap. -/
theorem handOut_splits (hp : p.WellFormed A strict) (hc : c ∈ p.freeBlocks)
    (hr : r ≤ (p.block c).size) (hsize : (p.block c).size ≠ r) :
    ¬ (p.handOut r c).2.Unsplit (p.block c).heap := by
  intro h
  obtain ⟨front, behind, -, hblocks, hrest⟩ := handOut_rest hp hc hr hsize
  have hrec := handOut_record p r c
  have hsame := h c (by simp [hblocks]) (p.handOut r c).1 (by simp [hblocks]) (by rw [hrest])
    (by rw [hrec])
  rw [handOut_cut hsize] at hsame
  exact hp.nextBlock_ne (hp.freeSub c hc) hsame

/-- **A block that is handed out owns its heap** just where the free block it
comes of was all of its heap and of that size. -/
theorem handOut_ownsHeap_iff (hp : p.WellFormed A strict) (hc : c ∈ p.freeBlocks)
    (hr : r ≤ (p.block c).size) :
    (p.handOut r c).2.OwnsHeap r (p.handOut r c).1 ↔ p.Exact r c := by
  have hcb := hp.freeSub c hc
  by_cases hsize : (p.block c).size = r
  · rw [handOut_whole hsize]
    constructor
    · intro h
      exact ⟨(hp.unsplit_iff hcb).mp h.alone, hsize⟩
    · intro h
      have howns := hp.ownsHeap hcb h
      exact ⟨howns.offset, howns.size, howns.heap, howns.alone⟩
  · constructor
    · intro h
      have halone := h.alone
      rw [handOut_record] at halone
      exact absurd halone (handOut_splits hp hc hr hsize)
    · intro h
      exact absurd h.2 hsize

/-! ## What leaves a heap unsplit -/

theorem Unsplit.congr {q : MemoryBlockPool} (h : p.Unsplit g)
    (hblocks : ∀ b ∈ q.blocks, (q.block b).heap = g → b ∈ p.blocks ∧ (p.block b).heap = g) :
    q.Unsplit g := by
  intro b hb c hc hbg hcg
  obtain ⟨hb, hbg⟩ := hblocks b hb hbg
  obtain ⟨hc, hcg⟩ := hblocks c hc hcg
  exact h b hb c hc hbg hcg

theorem Unsplit.frame {q : MemoryBlockPool} {B : List BlockId} (h : p.Unsplit g)
    (hframe : Frame B p q) (hblocks : q.blocks.Sublist p.blocks) : q.Unsplit g := by
  apply h.congr
  intro b hb hbg
  exact ⟨hblocks.subset hb, (hframe.blockHeap b).symm.trans hbg⟩

theorem Unsplit.release {rest : List BlockId} (h : p.Unsplit g) (ha : p.Accounted (b :: rest))
    (t : CommandToken) : (p.release b t).Unsplit g := by
  have hm := considerMergingBlock_merges (p := p.setPending b t) ha
  have hblocks : ((p.setPending b t).considerMergingBlock b).blocks.Sublist
      (p.setPending b t).blocks := merges_blocks hm
  exact h.frame (p.release_frame b t) hblocks

theorem Unsplit.resetPending (h : p.Unsplit g) (hp : p.WellFormed A strict) :
    p.resetPending.Unsplit g := by
  have hblocks : p.unbind.mergeAll.blocks.Sublist p.unbind.blocks :=
    merges_blocks (mergeAll_spec hp).1
  rw [unbind_blocks] at hblocks
  exact h.frame (resetPending_frame hp) hblocks

theorem Unsplit.eraseHeap (h : p.Unsplit g) (b : BlockId) : (p.eraseHeap b).Unsplit g :=
  h.congr fun _ hc hg => ⟨List.mem_of_mem_erase hc, hg⟩

/-- A new heap is none of those that are there. -/
theorem Unsplit.registerHeap (h : p.Unsplit g) (hp : p.WellFormed A strict)
    (hg : g < p.nextHeap) (heap : MemoryHeap) : (p.registerHeap heap).2.Unsplit g := by
  apply h.congr
  intro b hb hbg
  have hb : b ∈ p.blocks ++ [p.nextBlock] := hb
  rcases List.mem_append.mp hb with hb | hb
  · have hrec : (p.registerHeap heap).2.block b = p.block b := addHeap_of_mem hp hb
    rw [hrec] at hbg
    exact ⟨hb, hbg⟩
  · obtain rfl := List.mem_singleton.mp hb
    have hrec : (p.registerHeap heap).2.block p.nextBlock = ⟨none, heap.size, p.nextHeap, 0⟩ :=
      addHeap_block
    rw [hrec] at hbg
    rw [← hbg] at hg
    exact absurd hg (Nat.lt_irrefl _)

/-- The block of a new heap is all of it. -/
theorem registerHeap_exact (hp : p.WellFormed A strict) (heap : MemoryHeap)
    (hp' : (p.registerHeap heap).2.WellFormed A strict) :
    (p.registerHeap heap).2.Exact heap.size p.nextBlock ∧
      ((p.registerHeap heap).2.block p.nextBlock).heap = p.nextHeap := by
  have hrec : (p.registerHeap heap).2.block p.nextBlock = ⟨none, heap.size, p.nextHeap, 0⟩ :=
    addHeap_block
  have hmem : p.nextBlock ∈ (p.registerHeap heap).2.blocks := List.mem_append_right _ (by simp)
  refine ⟨⟨(hp'.unsplit_iff hmem).mp ?_, by rw [hrec]⟩, by rw [hrec]⟩
  -- the blocks that were there are of heaps that were there
  have hone : ∀ c ∈ (p.registerHeap heap).2.blocks,
      ((p.registerHeap heap).2.block c).heap = p.nextHeap → c = p.nextBlock := by
    intro c hc hheap
    have hc : c ∈ p.blocks ++ [p.nextBlock] := hc
    rcases List.mem_append.mp hc with hc | hc
    · have hcrec : (p.registerHeap heap).2.block c = p.block c := addHeap_of_mem hp hc
      have hlt := hp.heapsFresh _ (hp.inside hc).1
      rw [hcrec] at hheap
      rw [hheap] at hlt
      exact absurd hlt (Nat.lt_irrefl _)
    · exact List.mem_singleton.mp hc
  intro c hc d hd hcg hdg
  rw [hrec] at hcg hdg
  rw [hone c hc hcg, hone d hd hdg]

/-- Handing a block out splits its heap or none. -/
theorem Unsplit.handOut (h : p.Unsplit g) (hp : p.WellFormed A strict) (hc : c ∈ p.freeBlocks)
    (hr : r ≤ (p.block c).size) (hcut : (p.block c).heap ≠ g ∨ (p.block c).size = r) :
    (p.handOut r c).2.Unsplit g := by
  by_cases hsize : (p.block c).size = r
  · rw [handOut_whole hsize]
    exact h
  · have hne := hcut.resolve_right hsize
    obtain ⟨front, behind, hl, hblocks, hrest⟩ := handOut_rest hp hc hr hsize
    have hrec := handOut_record p r c
    apply h.congr
    intro d hd hdg
    have hdp : d = (p.handOut r c).1 ∨ d ∈ p.blocks := by
      rw [hblocks] at hd
      rw [hl]
      simp only [List.mem_append, List.mem_cons] at hd ⊢
      tauto
    rcases hdp with rfl | hdp
    · rw [hrec] at hdg
      exact absurd hdg hne
    · by_cases hdc : d = c
      · subst hdc
        rw [hrest] at hdg
        exact absurd hdg hne
      · rw [(handOut_of_ne hp hc hdp hdc).2] at hdg
        exact ⟨hdp, hdg⟩

end MemoryBlockPool

namespace MemoryBlockAllocator

variable {cfg : Config} {env : Environment} {r : Nat} {k : Clock Timeline}
  {touched : HeapId → Nat → Command → Prop} {strict : Prop} {rest : List BlockId}
  {timeline : Option Timeline} {s t u a : MemoryBlockAllocator} {b c : BlockId} {g : HeapId}

/-- The heap `g`, of `r` bytes, has been in the pool and is not split. -/
structure Whole (r : Nat) (g : HeapId) (s : MemoryBlockAllocator) : Prop where
  known : g < s.pool.nextHeap
  unsplit : s.pool.Unsplit g
  size : (s.pool.heap g).size = r

/-- Short of handing a block out, an allocator splits no heap. -/
theorem kept_whole (r : Nat) (g : HeapId) : KeptInside cfg env (Whole r g) where
  internal := by
    intro touched rest s t hs hstep h
    obtain ⟨hg, hwhole, hsize⟩ := h
    have hwf := hs.coherent.wellFormed
    have hev := (hs.passes hstep).evolves
    refine ⟨Nat.lt_of_lt_of_le hg hev.nextHeap, ?_, by rw [hev.heap g hg]; exact hsize⟩
    cases hstep with
    | asked answered waits => exact hwhole
    | grew hosts quiet sized aligned => exact hwhole.registerHeap hwf hg _
    | declined hosts quiet => exact hwhole
    | dropped at_ kept => exact hwhole
    | released at_ kept => exact hwhole.release (hs.deferred_accounted at_) _
    | partitioned free sized left aligned => exact (hs.not_cut free sized).elim
    | reset settled => exact hwhole.resetPending hwf
    | destroyed free empty whole => exact hwhole.eraseHeap _
  release := by
    rintro touched rest b s hs hb ⟨hg, hwhole, hsize⟩ token
    have hacc := hs.rest_accounted hb
    have hframe : MemoryBlockPool.Frame [b] s.pool (s.release b token).pool :=
      s.pool.release_frame b token
    refine ⟨Nat.lt_of_lt_of_le hg (Nat.le_of_eq hframe.nextHeap.symm), hwhole.release hacc token, ?_⟩
    rw [hframe.heap]
    exact hsize
  defer _ h := ⟨h.known, h.unsplit, h.size⟩
  lost _ h := ⟨h.known, h.unsplit, h.size⟩
  emptied _ _ h :=
    ⟨h.known, h.unsplit.congr fun b hb hbg => ⟨hb, by simpa using hbg⟩, h.size⟩

/-! ## Growing -/

/-- The pool has grown from `p` by a heap of `size` bytes, whose block is `b`. -/
structure GrownBy (p : MemoryBlockPool) (size : Nat) (b : BlockId) (t : MemoryBlockAllocator) :
    Prop where
  block : b = p.nextBlock
  pool : ∃ heap, heap.size = size ∧ t.pool = (p.registerHeap heap).2

theorem registerHeap_grown (heap : MemoryHeap) (s : MemoryBlockAllocator) :
    wp (registerHeap cfg env (some heap)) (fun b t => GrownBy s.pool heap.size b t)
      (fun _ t => t.pool = s.pool) s := by
  simp only [registerHeap, wp_bind, wp_tryCatch, wp_hostAllocate, wp_modify, wp_throw, wp_get,
    wp_pure]
  split
  · split
    · exact ⟨rfl, heap, rfl, rfl⟩
    · rfl
  · rfl

/-- One round of `grow` leaves the pool alone unless it makes a heap. -/
theorem takeHeap_grown (size : Nat) (s : MemoryBlockAllocator) :
    wp (do
        let heap ← makeHeap cfg env size cfg.maxAlignment
        registerHeap cfg env (some heap))
      (fun b t => GrownBy s.pool size b t) (fun _ t => t.pool = s.pool) s := by
  simp only [makeHeap, wp_bind, wp_hostAllocate, wp_ite]
  split
  · split
    · rfl
    · simp only [wp_ask]
      split
      · exact registerHeap_grown _ _
      · rfl
      · rfl
  · rfl

/-- A round that starts from what is asked for makes a heap of that or none. -/
theorem growLoop_grown {size : Nat} (fuel : Nat) : ∀ (heapSize : Nat) (s : MemoryBlockAllocator),
    wp (growLoop cfg env size fuel heapSize)
      (fun b t => ∃ n, (heapSize ≤ size → n = heapSize) ∧ GrownBy s.pool n b t)
      (fun _ t => t.pool = s.pool) s := by
  induction fuel with
  | zero => exact fun _ _ => rfl
  | succ fuel ih =>
      intro heapSize s
      simp only [growLoop, wp_tryCatch]
      refine wp_mono (takeHeap_grown heapSize s) ?_ ?_
      · intro b t h
        exact ⟨heapSize, fun _ => rfl, h⟩
      · intro e t hpool
        cases e with
        | badAlloc =>
            simp only [wp_ite]
            split
            · exact hpool
            · rename_i hlt
              refine wp_mono (ih _ t) ?_ ?_
              · intro b u h
                obtain ⟨n, -, hgrown⟩ := h
                exact ⟨n, fun hle => absurd hle hlt, hpool ▸ hgrown⟩
              · intro e u hpool'
                exact hpool'.trans hpool
        | _ => exact hpool

/-- **A large request grows the pool by a heap of exactly its size.** -/
theorem grow_grown (size : Nat) (s : MemoryBlockAllocator) :
    wp (grow cfg env size)
      (fun b t => ∃ n, (cfg.largeAllocation ≤ size → n = size) ∧ GrownBy s.pool n b t)
      (fun _ t => t.pool = s.pool) s := by
  simp only [grow, wp_bind, wp_get]
  refine wp_mono (growLoop_grown env.fuel (getHeapSize cfg s.pool.getSize size) s) ?_ fun _ _ h => h
  intro b t h
  obtain ⟨n, hn, hgrown⟩ := h
  refine ⟨n, fun hlarge => ?_, hgrown⟩
  have hsize : getHeapSize cfg s.pool.getSize size = size := if_pos hlarge
  rw [hsize] at hn
  exact hn (Nat.le_refl _)

/-! ## What is found -/

/-- **A search of `acquire_block` finds the free block `c`**: in what `process`
left, or in what a trim left after the pool could not grow. -/
def Found (cfg : Config) (env : Environment) (r : Nat) (timeline : Option Timeline)
    (s t : MemoryBlockAllocator) (c : BlockId) : Prop :=
  process cfg env s = (.ok (), t) ∧
      (t.pool.findSuitableBlock r timeline = some c ∨
        t.pool.findSuitableBlock r timeline = none ∧
          t.pool.findForeignBlock r timeline = some (some c)) ∨
    ∃ u v n, process cfg env s = (.ok (), u) ∧ u.pool.findSuitableBlock r timeline = none ∧
      u.pool.findForeignBlock r timeline = some none ∧
      grow cfg env r u = (.error .badAlloc, v) ∧ trimLocked cfg env v = (.ok n, t) ∧
      t.pool.findSuitableBlock r timeline = some c

/-- Where a search finds `c`, that is the block `acquire_block` settles on. -/
theorem Found.chooseBlock (h : Found cfg env r timeline s t c)
    (hprocess : process cfg env s = (.ok (), u)) :
    wp (chooseBlock cfg env r timeline) (fun d v => d = c ∧ v = t) (fun _ _ => True) u := by
  simp only [MemoryBlockAllocator.chooseBlock, wp_bind, wp_get]
  rcases h with ⟨hprocess', hfound⟩ | ⟨u', v, n, hprocess', hnone, hforeign, hgrow, htrim, hfind⟩
  · rw [hprocess] at hprocess'
    cases hprocess'
    rcases hfound with hfind | ⟨hnone, hforeign⟩
    · simp [hfind]
    · simp [hnone, hforeign]
  · rw [hprocess] at hprocess'
    cases hprocess'
    simp only [hnone, hforeign, wp_tryCatch]
    apply wp_of_thrown hgrow
    simp only [retry, wp_bind, wp_get]
    apply wp_of_returned htrim
    simp [hfind]

/-- **What `acquire_block` settles on**: what a search finds, or the block of a
heap the pool has grown by. -/
def ComesOf (cfg : Config) (env : Environment) (r : Nat) (timeline : Option Timeline)
    (s t : MemoryBlockAllocator) (c : BlockId) : Prop :=
  Found cfg env r timeline s t c ∨
    ∃ v n, ReflTransGen (Internal cfg env True uncut) s v ∧
      (cfg.largeAllocation ≤ r → n = r) ∧ GrownBy v.pool n c t

section Allocate

variable (hs : Sound cfg k touched strict rest s) (henv : Truthful k env)

include hs henv

theorem Sound.chooseBlock_comesOf (hlt : r < 2 ^ 64) (hal : cfg.maxAlignment ∣ r)
    (hsu : ReflTransGen (Internal cfg env True uncut) s u)
    (hprocess : process cfg env s = (.ok (), u)) :
    wp (chooseBlock cfg env r timeline) (fun c t => ComesOf cfg env r timeline s t c)
      (fun _ _ => True) u := by
  have hu := (hs.run henv uncut_pos hsu).1
  apply hu.wp_chooseBlock
  · exact fun c _ _ hfound => .inl (.inl ⟨hprocess, hfound⟩)
  · intro hfind hforeign
    have hgrow : Tracks (Internal cfg env True uncut) (grow cfg env r) _ u := grow_tracks hlt hal
    refine wp_mono (wp_and hgrow (wp_and (grow_grown r u) (wp_run _ u))) ?_ ?_
    · intro c t h
      obtain ⟨-, ⟨n, hn, hgrown⟩, -⟩ := h
      exact .inr ⟨u, n, hsu, hn, hgrown⟩
    · intro e v h
      obtain ⟨huv, -, hrefused⟩ := h
      refine ⟨?_, fun _ => trivial⟩
      rintro rfl
      -- the pool is trimmed, and searched once more
      have hsv := hsu.trans huv
      have hv := (hs.run henv uncut_pos hsv).1
      have htrim : Tracks (Internal cfg env True uncut) (trimLocked cfg env) _ v :=
        trimLocked_tracks trivial hv henv uncut_pos
      simp only [retry, wp_bind, wp_get]
      refine wp_mono (wp_and htrim (wp_run _ v)) ?_ fun _ _ _ => trivial
      intro n t h
      obtain ⟨⟨hvt, -⟩, htrimmed⟩ := h
      cases hretry : t.pool.findSuitableBlock r timeline with
      | some c =>
          exact .inl (.inr ⟨u, v, n, hprocess, hfind, hforeign, hrefused, htrimmed, hretry⟩)
      | none =>
          refine wp_mono (grow_grown r t) ?_ fun _ _ _ => trivial
          intro c w h
          obtain ⟨m, hm, hgrown⟩ := h
          exact .inr ⟨t, m, hsv.trans hvt, hm, hgrown⟩

/-- Whatever is known of the block `acquire_block` settles on is known of the
one that is handed out. -/
theorem Sound.allocate_via {Q : BlockId → MemoryBlockAllocator → Prop} {size alignment : Nat}
    (hchoose : ∀ u, process cfg env s = (.ok (), u) →
      ReflTransGen (Internal cfg env True uncut) s u →
      wp (chooseBlock cfg env (alignCeil (max size 1) cfg.maxAlignment) timeline) Q
        (fun _ _ => True) u) :
    wp (allocate cfg env size alignment timeline)
      (fun b a => ∃ t c, ReflTransGen (Internal cfg env True uncut) s t ∧
        HandedOut (alignCeil (max size 1) cfg.maxAlignment) c t b a ∧ Q c t)
      (fun _ _ => True) s := by
  have hlt := cfg.alignCeil_lt (max size 1)
  have hal := cfg.alignCeil_dvd (max size 1)
  apply hs.wp_allocate (P := fun t => process cfg env s = (.ok (), t)) henv uncut_pos
  · exact fun _ _ => trivial
  · exact wp_mono (wp_run _ s) (fun _ _ h => h) fun _ _ _ => trivial
  · intro u hsu hu hreturned
    simp only [acquireBlock, wp_bind]
    have htracks : Tracks (Internal cfg env True uncut) (chooseBlock cfg env _ timeline) _ u :=
      chooseBlock_tracks hu henv uncut_pos hlt hal trivial
    refine wp_mono (wp_and htracks (hchoose u hreturned hsu)) ?_ fun _ _ _ => trivial
    intro c t h
    obtain ⟨⟨hut, hfree, hfits⟩, hQ⟩ := h
    have hst := hsu.trans hut
    have ht := (hs.run henv uncut_pos hst).1
    refine wp_mono (cutTo_handOut ht hfree hfits) ?_ fun _ _ _ => trivial
    intro b a hout
    exact ⟨t, c, hst, hout, hQ⟩

end Allocate

/-! ## Holding back -/

/-- The host has the memory that holding a block back takes, if it takes any. -/
def CanDefer (env : Environment) (tokens : List CommandToken) (s : MemoryBlockAllocator) : Prop :=
  tokens.length < 2 ∨ env.hostAllocate s.now = true ∧ env.hostAllocate (s.now + 1) = true

/-- So the block is not lost. -/
theorem CanDefer.unlost {tokens : List CommandToken} (h : CanDefer env tokens s) (b : BlockId) :
    lostBlocks (recycle env b tokens s).2.trace = lostBlocks s.trace := by
  unfold recycle
  split
  · rfl
  · rename_i hlen
    obtain ⟨hfirst, hsecond⟩ := h.resolve_left hlen
    apply wp_final (P := fun t : MemoryBlockAllocator => lostBlocks t.trace = _)
    have hnow : (s.log (.hostAllocate true)).now = s.now + 1 := rfl
    simp only [defer, if_neg hlen, wp_tryCatch, wp_bind, wp_hostAllocate, wp_modify, hfirst,
      hnow, hsecond, if_true]
    rfl

/-- No block but the one that is given back may be lost. -/
theorem recycle_lost (env : Environment) (b : BlockId) (tokens : List CommandToken)
    (s : MemoryBlockAllocator) :
    ∀ c ∈ lostBlocks (recycle env b tokens s).2.trace, c = b ∨ c ∈ lostBlocks s.trace := by
  intro c hc
  rcases recycle_spec env b tokens s with ⟨-, hfinal⟩ | ⟨hosts, hquiet, hfinal | hfinal⟩
  · rw [hfinal] at hc
    exact .inr hc
  · rw [hfinal] at hc
    exact .inr (quiet_lost hquiet s.trace ▸ hc)
  · rw [hfinal] at hc
    exact (List.mem_cons.mp hc).imp_right fun hc => quiet_lost hquiet s.trace ▸ hc

end MemoryBlockAllocator

end RexlibCuda
