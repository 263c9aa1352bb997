import RexlibCuda.PoolHandout
import RexlibCuda.PoolView

/-! Between operations, no two neighbours of one heap are free with tokens of
the same timeline. `release` looks one block each way, which is enough because
the pool was like that before. -/

namespace RexlibCuda

open Sequence

namespace MemoryBlockPool

open Relation (ReflTransGen)

variable {A : Nat} {strict : Prop} {rest : List BlockId} {p q : MemoryBlockPool}
  {b c n : BlockId} {l r : List BlockId}

/-- The block `c`, if it is free, is of another heap than `b`, or its token is
of another timeline. -/
def ApartFrom (p : MemoryBlockPool) (b c : BlockId) : Prop :=
  c ∈ p.freeBlocks → (p.block c).heap = (p.block b).heap →
    (p.block c).pending.getTimeline ≠ (p.block b).pending.getTimeline

/-- The two are not both free memory of one heap and one timeline. -/
def Apart (p : MemoryBlockPool) (b c : BlockId) : Prop := b ∈ p.freeBlocks → p.ApartFrom b c

/-- **Nothing is left to merge**: no two neighbours of a heap are free with
tokens of the same timeline, where two empty tokens count as the same. -/
def Coalesced (p : MemoryBlockPool) : Prop := p.blocks.IsChain p.Apart

theorem ApartFrom.symm (h : p.ApartFrom b c) : p.Apart c b :=
  fun hc _ hheap ht => h hc hheap.symm ht.symm

theorem Coalesced.empty : MemoryBlockPool.empty.Coalesced := List.isChain_nil

/-- Such a pool looks like its own normal form. -/
theorem Coalesced.cells (h : p.Coalesced) : Coalesce.Coalesced Cell.joining p.cells := by
  refine (List.isChain_map _).mpr (h.imp fun b c hbc => ?_)
  rintro ⟨hb, hc, hheap, ht⟩
  exact hbc (of_decide_eq_true hb) (of_decide_eq_true hc) hheap ht

/-- What is apart stays apart where records stay and no block becomes free. -/
theorem isChain_apart (h : l.IsChain p.Apart) (hblock : ∀ c ∈ l, q.block c = p.block c)
    (hfree : ∀ c ∈ l, c ∈ q.freeBlocks → c ∈ p.freeBlocks) : l.IsChain q.Apart := by
  refine h.imp_of_mem_imp fun b c hb hc hbc hfb hfc => ?_
  rw [hblock b hb, hblock c hc]
  exact hbc (hfree b hb hfb) (hfree c hc hfc)

/-- A block that is not free keeps what is in front of it apart from what is
behind it. -/
theorem Coalesced.of_sides (hl : q.blocks = l ++ b :: r) (hb : b ∉ q.freeBlocks)
    (hleft : l.IsChain q.Apart) (hright : r.IsChain q.Apart) : q.Coalesced := by
  rw [Coalesced, hl]
  refine List.isChain_append.mpr ⟨hleft, List.isChain_cons.mpr ⟨?_, hright⟩, ?_⟩
  · exact fun _ _ hfree => absurd hfree hb
  · intro x _ y hy _ hfree
    obtain rfl : b = y := Option.some.inj hy
    exact absurd hfree hb

theorem Coalesced.sides (h : p.Coalesced) (hl : p.blocks = l ++ b :: r) :
    l.IsChain p.Apart ∧ r.IsChain p.Apart ∧ (∀ n ∈ r.head?, p.Apart b n) ∧
      ∀ n ∈ l.getLast?, p.Apart n b := by
  rw [Coalesced, hl] at h
  obtain ⟨hleft, hright, hboth⟩ := List.isChain_append.mp h
  exact ⟨hleft, hright.tail, (List.isChain_cons.mp hright).1, fun n hn => hboth n hn b rfl⟩

/-! ## Giving a block back -/

theorem isMergeable_eq_false (h : p.isMergeable b n = false) : p.ApartFrom b n := by
  intro hfree hheap ht
  simp [isMergeable, isFree, hheap, ht, hfree] at h

/-- Of a block in hand, what takes over its neighbour is still of its heap and
its timeline. -/
theorem absorb_keeps (hp : p.WellFormed A strict) {offset : Nat} (hadj : p.Adjacent b n offset)
    (ht : (p.block n).pending.getTimeline = (p.block b).pending.getTimeline) :
    ((p.absorb b n offset).block b).heap = (p.block b).heap ∧
      ((p.absorb b n offset).block b).pending.getTimeline
        = (p.block b).pending.getTimeline := by
  rw [block_absorb hp hadj]
  exact ⟨rfl, laterPending_timeline ht⟩

/-- The block has taken over what it can behind it, and is apart from what
comes next. -/
structure Forwards (p : MemoryBlockPool) (b : BlockId) (l r : List BlockId) : Prop where
  blocks : p.blocks = l ++ b :: r
  coalesced : p.Coalesced
  next : ∀ n ∈ r.head?, p.ApartFrom b n

theorem Coalesced.considerMergingForwards (hc : p.Coalesced) (hp : p.WellFormed A strict)
    (ha : p.Accounted (b :: rest)) :
    ∃ l r, (p.considerMergingForwards b).Forwards b l r := by
  have hfree := ha.not_free hp List.mem_cons_self
  obtain ⟨l, r, hl, hbl⟩ := split_at (ha.mem List.mem_cons_self)
  obtain ⟨hleft, hright, -, -⟩ := hc.sides hl
  simp only [MemoryBlockPool.considerMergingForwards, hl, nextOf_append hbl]
  cases r with
  | nil => exact ⟨l, [], hl, hc, by simp⟩
  | cons n r =>
      simp only [List.head?_cons]
      cases hm : p.isMergeable b n with
      | false => exact ⟨l, n :: r, hl, hc, by simpa using isMergeable_eq_false hm⟩
      | true =>
          -- what comes after the neighbour was apart from it
          simp only [if_true]
          simp only [isMergeable, isFree, Bool.and_eq_true, decide_eq_true_eq] at hm
          obtain ⟨⟨hheap, ht⟩, hn⟩ := hm
          have hadj : p.Adjacent b n (p.block b).offset := ⟨hheap, l, r, .inl ⟨hl, rfl⟩⟩
          obtain ⟨hblocks, hsides⟩ := absorb_sides (p.block b).offset hp hl
            (.inl ⟨rfl, rfl⟩)
          obtain ⟨hheap', ht'⟩ := absorb_keeps hp hadj ht
          have hsub : ∀ c, c ∈ (p.absorb b n (p.block b).offset).freeBlocks → c ∈ p.freeBlocks :=
            fun c => List.mem_of_mem_erase
          have hblock : ∀ c ∈ l ++ r,
              (p.absorb b n (p.block b).offset).block c = p.block c :=
            fun c hc => block_absorb_of_ne (hsides c hc).2.1
          refine ⟨l, r, hblocks, ?_, ?_⟩
          · apply Coalesced.of_sides hblocks fun h => hfree (hsub b h)
            · exact isChain_apart hleft (fun c hc => hblock c (List.mem_append_left _ hc))
                fun c _ => hsub c
            · exact isChain_apart hright.tail (fun c hc => hblock c (List.mem_append_right _ hc))
                fun c _ => hsub c
          · intro x hx hxf
            have hmem := List.mem_append_right l (List.mem_of_mem_head? hx)
            rw [hheap', ht', hblock x hmem, ← hheap, ← ht]
            exact (List.isChain_cons.mp hright).1 x hx hn (hsub x hxf)

/-- The block is apart from both its neighbours. -/
structure Around (p : MemoryBlockPool) (b : BlockId) (l r : List BlockId) : Prop
    extends Forwards p b l r where
  previous : ∀ n ∈ l.getLast?, p.ApartFrom b n

theorem Forwards.considerMergingBackwards (hf : p.Forwards b l r) (hp : p.WellFormed A strict)
    (ha : p.Accounted (b :: rest)) :
    ∃ l r, (p.considerMergingBackwards b).Around b l r := by
  have hfree := ha.not_free hp List.mem_cons_self
  have hl := hf.blocks
  have hnd := hp.nodup
  rw [hl] at hnd
  have hbl : b ∉ l := fun h => (List.nodup_append.mp hnd).2.2 b h b List.mem_cons_self rfl
  obtain ⟨hleft, hright, -, -⟩ := hf.coalesced.sides hl
  simp only [MemoryBlockPool.considerMergingBackwards, hl, prevOf_append hbl]
  rcases List.eq_nil_or_concat' l with rfl | ⟨l, n, rfl⟩
  · exact ⟨[], r, hf, by simp⟩
  · simp only [List.getLast?_append, List.getLast?_singleton, Option.some_or]
    cases hm : p.isMergeable b n with
    | false => exact ⟨l ++ [n], r, hf, by simpa using isMergeable_eq_false hm⟩
    | true =>
        simp only [if_true]
        simp only [isMergeable, isFree, Bool.and_eq_true, decide_eq_true_eq] at hm
        obtain ⟨⟨hheap, ht⟩, hn⟩ := hm
        have hl : p.blocks = l ++ n :: b :: r := by rw [hl, List.append_assoc]; rfl
        have hadj : p.Adjacent b n (p.block n).offset := ⟨hheap, l, r, .inr ⟨hl, rfl⟩⟩
        obtain ⟨hblocks, hsides⟩ := absorb_sides (p.block n).offset hp hl
          (.inr ⟨rfl, rfl⟩)
        obtain ⟨hheap', ht'⟩ := absorb_keeps hp hadj ht
        have hsub : ∀ c, c ∈ (p.absorb b n (p.block n).offset).freeBlocks → c ∈ p.freeBlocks :=
          fun c => List.mem_of_mem_erase
        have hblock : ∀ c ∈ l ++ r, (p.absorb b n (p.block n).offset).block c = p.block c :=
          fun c hc => block_absorb_of_ne (hsides c hc).2.1
        obtain ⟨hleft, -, hlast⟩ := List.isChain_append.mp hleft
        refine ⟨l, r, ⟨hblocks, ?_, ?_⟩, ?_⟩
        · apply Coalesced.of_sides hblocks fun h => hfree (hsub b h)
          · exact isChain_apart hleft (fun c hc => hblock c (List.mem_append_left _ hc))
              fun c _ => hsub c
          · exact isChain_apart hright (fun c hc => hblock c (List.mem_append_right _ hc))
              fun c _ => hsub c
        · -- what comes next is as far from the block as before
          intro x hx hxf
          have hmem := List.mem_append_right l (List.mem_of_mem_head? hx)
          rw [hheap', ht', hblock x hmem]
          exact hf.next x hx (hsub x hxf)
        · intro x hx hxf
          have hmem := List.mem_append_left r (List.mem_of_mem_getLast? hx)
          rw [hheap', ht', hblock x hmem, ← hheap, ← ht]
          intro hxheap hxt
          exact hlast x hx n rfl (hsub x hxf) hn hxheap.symm hxt.symm

/-- **Giving a block back leaves nothing to merge**, if nothing was left before. -/
theorem Coalesced.release (hc : p.Coalesced) (hp : p.WellFormed A strict)
    (ha : p.Accounted (b :: rest)) (t : CommandToken) : (p.release b t).Coalesced := by
  have hfree := ha.not_free hp List.mem_cons_self
  have hp' : (p.setPending b t).WellFormed A strict := hp.setPending
  have hc' : (p.setPending b t).Coalesced := by
    refine List.IsChain.imp (fun x y hxy hfx hfy => ?_) hc
    have hblock : ∀ c ∈ p.freeBlocks, (p.setPending b t).block c = p.block c := fun c hcf =>
      setPending_of_ne fun hcb => hfree (hcb ▸ hcf)
    rw [hblock x hfx, hblock y hfy]
    exact hxy hfx hfy
  obtain ⟨l, r, hforwards⟩ := hc'.considerMergingForwards hp' ha
  have hm := considerMergingForwards_merges (p := p.setPending b t) (ha.mem List.mem_cons_self)
  have ha' := Accounted.merges (p := p.setPending b t) ha hm
  obtain ⟨l, r, haround⟩ := hforwards.considerMergingBackwards (hp'.merges hm) ha'
  generalize hq : ((p.setPending b t).considerMergingForwards b).considerMergingBackwards b = q
    at haround
  have hrelease : p.release b t = q.insertFree b := by
    rw [← hq]
    rfl
  obtain ⟨hleft, hright, -, -⟩ := haround.coalesced.sides haround.blocks
  have hnd := (hp'.merges (hm.trans (considerMergingBackwards_merges
    (ha'.mem List.mem_cons_self)))).nodup
  rw [hq, haround.blocks, List.nodup_append, List.nodup_cons] at hnd
  -- the block is free again, and apart from its neighbours
  have hsame : ∀ m : List BlockId, b ∉ m → m.IsChain q.Apart → m.IsChain (q.insertFree b).Apart := by
    intro m hbm hchain
    refine isChain_apart hchain (fun _ _ => rfl) fun c hc hfc => ?_
    exact (mem_insertFree.mp hfc).resolve_left fun hcb => hbm (hcb ▸ hc)
  have hapart : ∀ n, n ≠ b → q.ApartFrom b n → (q.insertFree b).ApartFrom b n := by
    intro n hnb h hfn
    exact h ((mem_insertFree.mp hfn).resolve_left hnb)
  have hbl : b ∉ l := fun h => hnd.2.2 b h b List.mem_cons_self rfl
  rw [hrelease, Coalesced]
  show q.blocks.IsChain _
  rw [haround.blocks]
  refine List.isChain_append.mpr ⟨hsame l hbl hleft, List.isChain_cons.mpr
    ⟨?_, hsame r hnd.2.1.1 hright⟩, ?_⟩
  · intro n hn _
    exact hapart n (fun h => hnd.2.1.1 (h ▸ List.mem_of_mem_head? hn)) (haround.next n hn)
  · intro n hn y hy
    obtain rfl : b = y := Option.some.inj hy
    exact (hapart n (fun h => hbl (h ▸ List.mem_of_mem_getLast? hn)) (haround.previous n hn)).symm

/-! ## The other operations -/

/-- The token of a block that is not free keeps nothing apart. -/
theorem Coalesced.setPending (hc : p.Coalesced) (hb : b ∉ p.freeBlocks) (t : CommandToken) :
    (p.setPending b t).Coalesced := by
  have hblock : ∀ c ∈ p.freeBlocks, (p.setPending b t).block c = p.block c := fun c hcf =>
    setPending_of_ne fun hcb => hb (hcb ▸ hcf)
  refine List.IsChain.imp (fun x y hxy hfx hfy => ?_) hc
  rw [hblock x hfx, hblock y hfy]
  exact hxy hfx hfy

theorem Coalesced.acquire (hc : p.Coalesced) : (p.acquire b).Coalesced :=
  isChain_apart hc (fun _ _ => rfl) fun _ _ => List.mem_of_mem_erase

/-- Neighbours that are kept apart by a block that is not free stay apart. -/
theorem Merged.coalesced (hm : p.Merged) : p.Coalesced :=
  hm.imp fun _ _ hbc hb hc hheap => absurd hheap (hbc hb hc)

/-- A new heap is a new block at the end, of a heap no other block is of. -/
theorem Coalesced.registerHeap (hc : p.Coalesced) (hp : p.WellFormed A strict)
    (heap : MemoryHeap) : (p.registerHeap heap).2.Coalesced := by
  have hnew : p.nextBlock ∉ p.blocks := fun h => hp.nextBlock_ne h rfl
  have hblock : ∀ c ∈ p.blocks, (p.registerHeap heap).2.block c = p.block c := fun c =>
    addHeap_of_mem hp
  show (p.blocks ++ [p.nextBlock]).IsChain _
  refine List.isChain_append.mpr ⟨isChain_apart hc hblock ?_, List.isChain_singleton _, ?_⟩
  · intro c hcb hfree
    exact (mem_insertFree.mp hfree).resolve_left fun h => hnew (h ▸ hcb)
  · intro c hcl n hn _ _ hheap
    obtain rfl : p.nextBlock = n := Option.some.inj hn
    have hcb := List.mem_of_mem_getLast? hcl
    have hrec : (p.registerHeap heap).2.block p.nextBlock = ⟨none, heap.size, p.nextHeap, 0⟩ :=
      addHeap_block
    rw [hrec, hblock c hcb] at hheap
    -- the name of the heap is new
    have hlt := hp.heapsFresh _ (hp.inside hcb).1
    rw [← hheap] at hlt
    exact absurd hlt (Nat.lt_irrefl _)

/-- What stood around a heap that goes is of other heaps. -/
theorem Coalesced.eraseHeap (hc : p.Coalesced) (hp : p.WellFormed A strict)
    (hb : b ∈ p.freeBlocks) (hw : p.isPartition b = false) : (p.eraseHeap b).Coalesced := by
  obtain ⟨-, -, -, l, r, hl, herase, hsides, -⟩ := hp.whole (hp.freeSub b hb) hw
  obtain ⟨hleft, hright, -, -⟩ := hc.sides hl
  have hsub : ∀ c, c ∈ (p.eraseHeap b).freeBlocks → c ∈ p.freeBlocks := fun c =>
    List.mem_of_mem_erase
  show (p.blocks.erase b).IsChain _
  rw [herase]
  refine List.isChain_append.mpr ⟨isChain_apart hleft (fun _ _ => rfl) fun c _ => hsub c,
    isChain_apart hright (fun _ _ => rfl) fun c _ => hsub c, ?_⟩
  intro x hx y hy _ _ hheap
  exact absurd hheap.symm (hsides x (List.mem_of_mem_getLast? hx) y (List.mem_of_mem_head? hy))

/-- A block that was cut keeps its front half, which is handed out, between
itself and what was in front of it. -/
theorem Coalesced.cutOff (hc : p.Coalesced) (hp : p.WellFormed A strict) (hb : b ∈ p.freeBlocks)
    {s₁ s₂ : Nat} (hsize : s₁ + s₂ = (p.block b).size) :
    ((p.partitionBlock b s₁ s₂).2.acquire p.nextBlock).Coalesced := by
  obtain ⟨l, r, hl, hbl⟩ := split_at (hp.freeSub b hb)
  have hnew : p.nextBlock ∉ p.blocks := fun h => hp.nextBlock_ne h rfl
  have hblocks : ((p.partitionBlock b s₁ s₂).2.acquire p.nextBlock).blocks
      = l ++ p.nextBlock :: b :: r := by
    show insertBefore b p.nextBlock p.blocks = _
    rw [hl, insertBefore_append hbl]
  have hfree : ∀ c, c ∈ ((p.partitionBlock b s₁ s₂).2.acquire p.nextBlock).freeBlocks →
      c ∈ p.freeBlocks := fun c => (mem_cutOff hp hb).mp
  have hblock : ∀ c ∈ p.blocks, c ≠ b →
      ((p.partitionBlock b s₁ s₂).2.acquire p.nextBlock).block c = p.block c :=
    fun c hcb hne => partitionBlock_of_ne hp hne hcb
  have hself : ((p.partitionBlock b s₁ s₂).2.acquire p.nextBlock).block b
      = ⟨(p.block b).pending, s₂, (p.block b).heap, (p.block b).offset + s₁⟩ :=
    cutBlock_second hp hb hsize
  have hnd := hp.nodup
  rw [hl, List.nodup_append, List.nodup_cons] at hnd
  obtain ⟨hleft, hright, hnext, -⟩ := hc.sides hl
  apply Coalesced.of_sides hblocks fun h => hnew (hp.freeSub _ (hfree _ h))
  · apply isChain_apart hleft _ fun c _ => hfree c
    exact fun c hcl => hblock c (by simp [hl, hcl]) fun h => hbl (h ▸ hcl)
  · refine List.isChain_cons.mpr ⟨?_, isChain_apart hright ?_ fun c _ => hfree c⟩
    · -- what is left of the block is of the same heap and timeline
      intro n hn _ hfn
      have hnr := List.mem_of_mem_head? hn
      rw [hself, hblock n (by simp [hl, hnr]) fun h => hnd.2.1.1 (h ▸ hnr)]
      exact hnext n hn hb (hfree n hfn)
    · exact fun c hcr => hblock c (by simp [hl, hcr]) fun h => hnd.2.1.1 (h ▸ hcr)

theorem Coalesced.handOut (hc : p.Coalesced) (hp : p.WellFormed A strict)
    (hb : b ∈ p.freeBlocks) {size : Nat} (hle : size ≤ (p.block b).size) :
    (p.handOut size b).2.Coalesced := by
  by_cases h : (p.block b).size = size
  · rw [handOut_whole h]
    exact hc.acquire
  · rw [handOut_cut h]
    exact hc.cutOff hp hb (by omega)

/-- **A pool between operations**, as far as its shape goes: it is well formed,
has all blocks but those of `rest` free, and nothing is left to merge. -/
structure Tidy (A : Nat) (rest : List BlockId) (p : MemoryBlockPool) : Prop where
  coherent : p.Coherent A False noGuard rest
  coalesced : p.Coalesced

theorem Tidy.acquire (h : p.Tidy A rest) (hb : b ∈ p.freeBlocks) :
    (p.acquire b).Tidy A (b :: rest) :=
  ⟨h.coherent.acquire hb, h.coalesced.acquire⟩

theorem Tidy.release (h : p.Tidy A (b :: rest)) (t : CommandToken) :
    (p.release b t).Tidy A rest :=
  ⟨h.coherent.release noGuard_lasting fun _ _ => trivial,
    h.coalesced.release h.coherent.wellFormed h.coherent.accounted t⟩

theorem Tidy.resetPending (h : p.Tidy A rest) : p.resetPending.Tidy A rest :=
  ⟨h.coherent.resetPending noGuard_lasting fun _ _ _ _ => trivial,
    (resetPending_merged h.coherent.wellFormed).coalesced⟩

/-- Such a pool looks like its own normal form. -/
theorem Tidy.coalesce_cells (h : p.Tidy A rest) :
    Coalesce.coalesce Cell.joining p.cells = p.cells := h.coalesced.cells.coalesce

end MemoryBlockPool

end RexlibCuda
