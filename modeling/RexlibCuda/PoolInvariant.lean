import Mathlib.Data.Prod.Lex
import RexlibCuda.Lib.Tiling
import RexlibCuda.Lib.Runs
import RexlibCuda.MemoryBlockPool

/-! What every operation of `memory_block_pool` keeps. The blocks tile the
heaps, the free blocks are some of them, and nothing but the free blocks and
the block in hand is ever touched. Every merge is an absorption of a free
neighbour, so each fact is proved once, of one absorption. -/

namespace RexlibCuda

namespace MemoryBlockPool

open Sequence Tiling
open Relation (ReflTransGen)

variable {A : Nat} {strict : Prop} {p q : MemoryBlockPool} {b c n : BlockId} {offset : Nat}

/-- The bytes of its heap a block stands for. -/
def extent (p : MemoryBlockPool) (b : BlockId) : Extent HeapId :=
  ⟨(p.block b).heap, (p.block b).offset, (p.block b).size⟩

/-- **The shape of a pool**: the blocks of each heap are consecutive in
`m_blocks` and cover it from its start to its end, on multiples of `A`. None
is empty, as long as `strict` says that none has been made so. -/
structure WellFormed (A : Nat) (strict : Prop) (p : MemoryBlockPool) : Prop where
  nodup : p.blocks.Nodup
  freeNodup : p.freeBlocks.Nodup
  freeSub : ∀ b ∈ p.freeBlocks, b ∈ p.blocks
  fresh : ∀ b ∈ p.blocks, b < p.nextBlock
  heapsNodup : p.heaps.Nodup
  heapsFresh : ∀ h ∈ p.heaps, h < p.nextHeap
  heapSize : ∀ h ∈ p.heaps, 0 < (p.heap h).size ∧ (p.heap h).size < 2 ^ 64
  tiles : Tiles (fun h => (p.heap h).size) p.heaps (p.blocks.map p.extent)
  aligned : ∀ b ∈ p.blocks, A ∣ (p.block b).offset ∧ A ∣ (p.block b).size
  heapAligned : ∀ h ∈ p.heaps, A ∣ (p.heap h).size
  positive : strict → ∀ b ∈ p.blocks, 0 < (p.block b).size
  total : p.size = (p.heaps.map fun h => (p.heap h).size).sum % 2 ^ 64

/-- The free blocks are in the order of their keys. -/
def Sorted (p : MemoryBlockPool) : Prop := InOrder p.less p.freeBlocks

theorem WellFormed.empty : (MemoryBlockPool.empty).WellFormed A strict where
  nodup := List.nodup_nil
  freeNodup := List.nodup_nil
  freeSub _ h := h
  fresh _ h := nomatch h
  heapsNodup := List.nodup_nil
  heapsFresh _ h := nomatch h
  heapSize _ h := nomatch h
  tiles := rfl
  aligned _ h := nomatch h
  heapAligned _ h := nomatch h
  positive _ _ h := nomatch h
  total := rfl

/-- Every block lies inside its heap. -/
theorem WellFormed.inside (hp : p.WellFormed A strict) (hb : b ∈ p.blocks) :
    (p.block b).heap ∈ p.heaps
      ∧ (p.block b).offset + (p.block b).size ≤ (p.heap (p.block b).heap).size
      ∧ (p.block b).offset + (p.block b).size < 2 ^ 64 := by
  obtain ⟨hh, hle⟩ := hp.tiles.mem (List.mem_map_of_mem (f := p.extent) hb)
  have hlt := (hp.heapSize _ hh).2
  exact ⟨hh, hle, Nat.lt_of_le_of_lt hle hlt⟩

/-- No byte is in two blocks. -/
theorem WellFormed.apart (hp : p.WellFormed A strict) (hb : b ∈ p.blocks) (hc : c ∈ p.blocks)
    (hne : b ≠ c) (hheap : (p.block b).heap = (p.block c).heap) {x : Nat}
    (hx : (p.extent b).Has x) : ¬ (p.extent c).Has x := by
  obtain ⟨l, r, hl⟩ := List.append_of_mem hb
  have ht := hp.tiles
  rw [hl] at hc
  intro hx'
  simp only [extent, Extent.Has] at hx hx'
  -- the other block stands in front of this one, or behind it
  rcases List.mem_append.mp hc with hc | hc
  · obtain ⟨l, m, rfl⟩ := List.append_of_mem hc
    rw [hl, List.append_assoc, List.cons_append] at ht
    simp only [List.map_append, List.map_cons] at ht
    have hle := ht.apart hp.heapsNodup hheap.symm
    simp only [extent] at hle
    omega
  · obtain ⟨m, r, rfl⟩ := List.append_of_mem ((List.mem_cons.mp hc).resolve_left (Ne.symm hne))
    rw [hl] at ht
    simp only [List.map_append, List.map_cons] at ht
    have hle := ht.apart hp.heapsNodup hheap
    simp only [extent] at hle
    omega

/-! ## The order of the free blocks -/

theorem isLess_iff {j k : FreeKey} : isLess j k = true ↔ toLex j < toLex k := by
  rw [Prod.Lex.toLex_lt_toLex, isLess]
  split
  · rename_i h
    simp only [decide_eq_true_eq]
    exact ⟨.inl, fun h' => h'.resolve_right fun h'' => h h''.1⟩
  · rename_i h
    simp only [decide_eq_true_eq]
    have h := not_not.mp h
    exact ⟨fun h' => .inr ⟨h, h'⟩, fun h' => (h'.resolve_left (by omega)).2⟩

/-- The key of a block, in the order of the keys. -/
def sortKey (p : MemoryBlockPool) (b : BlockId) : Lex (Int × Nat) := toLex (p.getKey b)

theorem less_iff (b c : BlockId) : p.less b c = true ↔ p.sortKey b < p.sortKey c :=
  isLess_iff

theorem not_isLess_iff {j k : FreeKey} : isLess j k = false ↔ toLex k ≤ toLex j := by
  rw [← not_lt, ← isLess_iff, Bool.not_eq_true]

theorem Sorted.insertFree (hs : p.Sorted) : (p.insertFree b).Sorted :=
  InOrder.insertUpper less_iff hs

/-- The order only depends on the keys of the free blocks. -/
theorem Sorted.congr (hs : p.Sorted) (hfree : q.freeBlocks = p.freeBlocks)
    (hkey : ∀ c ∈ p.freeBlocks, q.block c = p.block c) : q.Sorted := by
  unfold Sorted
  rw [hfree]
  refine InOrder.congr hs fun x hx y hy => ?_
  simp only [less, getKey, hkey x hx, hkey y hy]

/-! ## One block in hand -/

section SetBlock

variable {r : MemoryBlock}

@[simp] theorem setBlock_self : (p.setBlock b r).block b = r := Function.update_self ..

theorem setBlock_of_ne (h : c ≠ b) : (p.setBlock b r).block c = p.block c :=
  Function.update_of_ne h ..

end SetBlock

section SetPending

variable {t : CommandToken}

@[simp] theorem setPending_pending : ((p.setPending b t).block b).pending = t := by
  simp [setPending]

theorem setPending_of_ne (h : c ≠ b) : (p.setPending b t).block c = p.block c :=
  setBlock_of_ne h

@[simp] theorem setPending_heap : ((p.setPending b t).block c).heap = (p.block c).heap := by
  by_cases h : c = b
  · subst h; simp [setPending]
  · rw [setPending_of_ne h]

@[simp] theorem setPending_offset :
    ((p.setPending b t).block c).offset = (p.block c).offset := by
  by_cases h : c = b
  · subst h; simp [setPending]
  · rw [setPending_of_ne h]

@[simp] theorem setPending_size : ((p.setPending b t).block c).size = (p.block c).size := by
  by_cases h : c = b
  · subst h; simp [setPending]
  · rw [setPending_of_ne h]

@[simp] theorem extent_setPending : (p.setPending b t).extent c = p.extent c := by
  simp [extent]

/-- A token says nothing about the bytes. -/
theorem WellFormed.setPending (hp : p.WellFormed A strict) :
    (p.setPending b t).WellFormed A strict where
  nodup := hp.nodup
  freeNodup := hp.freeNodup
  freeSub := hp.freeSub
  fresh := hp.fresh
  heapsNodup := hp.heapsNodup
  heapsFresh := hp.heapsFresh
  heapSize := hp.heapSize
  tiles := by
    have : (p.setPending b t).extent = p.extent := funext fun c => extent_setPending
    rw [this]
    exact hp.tiles
  aligned c hc := by
    rw [setPending_offset, setPending_size]
    exact hp.aligned c hc
  heapAligned := hp.heapAligned
  positive hs c hc := by
    rw [setPending_size]
    exact hp.positive hs c hc
  total := hp.total

end SetPending

theorem WellFormed.insertFree (hp : p.WellFormed A strict) (hb : b ∈ p.blocks)
    (hfree : b ∉ p.freeBlocks) : (p.insertFree b).WellFormed A strict where
  nodup := hp.nodup
  freeNodup := by
    rw [MemoryBlockPool.insertFree, (insertUpper_perm p.less b p.freeBlocks).nodup_iff]
    exact List.nodup_cons.mpr ⟨hfree, hp.freeNodup⟩
  freeSub c hc := by
    rcases (mem_insertUpper p.less).mp hc with rfl | hc
    · exact hb
    · exact hp.freeSub c hc
  fresh := hp.fresh
  heapsNodup := hp.heapsNodup
  heapsFresh := hp.heapsFresh
  heapSize := hp.heapSize
  tiles := hp.tiles
  aligned := hp.aligned
  heapAligned := hp.heapAligned
  positive := hp.positive
  total := hp.total

theorem mem_insertFree : c ∈ (p.insertFree b).freeBlocks ↔ c = b ∨ c ∈ p.freeBlocks :=
  mem_insertUpper p.less

theorem WellFormed.acquire (hp : p.WellFormed A strict) : (p.acquire b).WellFormed A strict where
  nodup := hp.nodup
  freeNodup := hp.freeNodup.erase b
  freeSub c hc := hp.freeSub c (List.mem_of_mem_erase hc)
  fresh := hp.fresh
  heapsNodup := hp.heapsNodup
  heapsFresh := hp.heapsFresh
  heapSize := hp.heapSize
  tiles := hp.tiles
  aligned := hp.aligned
  heapAligned := hp.heapAligned
  positive := hp.positive
  total := hp.total

theorem Sorted.acquire (hs : p.Sorted) : (p.acquire b).Sorted := InOrder.erase p.less hs b

/-! ## Absorbing a neighbour -/

/-- `n` is next to `b` in their heap, and the lower of the two starts at
`offset`. -/
def Adjacent (p : MemoryBlockPool) (b n : BlockId) (offset : Nat) : Prop :=
  (p.block n).heap = (p.block b).heap ∧ ∃ l r,
    (p.blocks = l ++ b :: n :: r ∧ offset = (p.block b).offset) ∨
      (p.blocks = l ++ n :: b :: r ∧ offset = (p.block n).offset)

/-- What is left of the two lists and of the bytes when `b` takes over `n`. -/
structure Joined (p : MemoryBlockPool) (b n : BlockId) (offset : Nat) : Prop where
  ne : n ≠ b
  mem : b ∈ p.blocks
  size : sizeAdd (p.block b).size (p.block n).size = (p.block b).size + (p.block n).size
  bytes : ∀ x, (⟨(p.block b).heap, offset, (p.block b).size + (p.block n).size⟩ :
    Extent HeapId).Has x ↔ (p.extent b).Has x ∨ (p.extent n).Has x
  start : offset = (p.block b).offset ∨ offset = (p.block n).offset
  tiles : ∃ l r, b ∉ l ∧ b ∉ r ∧ p.blocks.erase n = l ++ b :: r ∧
    Tiles (fun h => (p.heap h).size) p.heaps
      (l.map p.extent ++ ⟨(p.block b).heap, offset, (p.block b).size + (p.block n).size⟩ ::
        r.map p.extent)

theorem WellFormed.joined (hp : p.WellFormed A strict) (h : p.Adjacent b n offset) :
    p.Joined b n offset := by
  obtain ⟨hheap, l, r, ⟨hl, ho⟩ | ⟨hl, ho⟩⟩ := h
  · -- the neighbour comes after the block
    have hnd := hp.nodup
    have ht := hp.tiles
    simp only [hl, List.map_append, List.map_cons] at hnd ht
    obtain ⟨hadj, hjoin⟩ := ht.join hp.heapsNodup hheap.symm
    have hb : b ∈ p.blocks := by simp [hl]
    have hn : n ∈ p.blocks := by simp [hl]
    have hlt := (hp.inside hn).2.2
    simp only [extent] at hadj
    simp only [List.nodup_append, List.nodup_cons, List.mem_cons, not_or] at hnd
    obtain ⟨-, ⟨⟨hbn, hbr⟩, hnr, -⟩, hdisj⟩ := hnd
    have hbl : b ∉ l := fun h => hdisj b h b (.inl rfl) rfl
    have hnl : n ∉ l := fun h => hdisj n h n (.inr (.inl rfl)) rfl
    refine ⟨Ne.symm hbn, hb, sizeAdd_of_lt (by omega), fun x => ?_, .inl ho, l, r, hbl, hbr, ?_, ?_⟩
    · simp only [extent, Extent.Has]
      omega
    · rw [hl, List.append_cons, erase_middle (by simp [hnl, Ne.symm hbn])]
      simp
    · rw [ho]
      exact hjoin
  · -- the neighbour comes before the block
    have hnd := hp.nodup
    have ht := hp.tiles
    simp only [hl, List.map_append, List.map_cons] at hnd ht
    obtain ⟨hadj, hjoin⟩ := ht.join hp.heapsNodup hheap
    have hb : b ∈ p.blocks := by simp [hl]
    have hlt := (hp.inside hb).2.2
    simp only [extent] at hadj
    simp only [List.nodup_append, List.nodup_cons, List.mem_cons, not_or] at hnd
    obtain ⟨-, ⟨⟨hnb, hnr⟩, hbr, -⟩, hdisj⟩ := hnd
    have hbl : b ∉ l := fun h => hdisj b h b (.inr (.inl rfl)) rfl
    have hnl : n ∉ l := fun h => hdisj n h n (.inl rfl) rfl
    refine ⟨hnb, hb, sizeAdd_of_lt (by omega), fun x => ?_, .inr ho, l, r, hbl, hbr, ?_, ?_⟩
    · simp only [extent, Extent.Has]
      omega
    · rw [hl, erase_middle hnl]
    · rw [ho, Nat.add_comm, ← hheap]
      exact hjoin

section Absorb

variable (hp : p.WellFormed A strict) (h : p.Adjacent b n offset)

include hp h

/-- The block after it has taken over its neighbour. -/
theorem block_absorb :
    (p.absorb b n offset).block b
      = { pending := laterPending (p.block b).pending (p.block n).pending
          size := (p.block b).size + (p.block n).size
          heap := (p.block b).heap
          offset } := by
  simp only [absorb, Function.update_self, (hp.joined h).size]

omit hp h in
theorem block_absorb_of_ne (hc : c ≠ b) : (p.absorb b n offset).block c = p.block c :=
  Function.update_of_ne hc ..

theorem WellFormed.absorb : (p.absorb b n offset).WellFormed A strict := by
  have hj := hp.joined h
  have hself := block_absorb hp h
  have hmem : ∀ c ∈ p.blocks.erase n, c ∈ p.blocks := fun c => List.mem_of_mem_erase
  have hn : n ∈ p.blocks := by
    obtain ⟨-, l, r, ⟨hl, -⟩ | ⟨hl, -⟩⟩ := h
    · simp [hl]
    · simp [hl]
  exact {
    nodup := hp.nodup.erase n
    freeNodup := hp.freeNodup.erase n
    freeSub := by
      intro c hc
      obtain ⟨hne, hc⟩ := hp.freeNodup.mem_erase_iff.mp hc
      exact hp.nodup.mem_erase_iff.mpr ⟨hne, hp.freeSub c hc⟩
    fresh := fun c hc => hp.fresh c (hmem c hc)
    heapsNodup := hp.heapsNodup
    heapsFresh := hp.heapsFresh
    heapSize := hp.heapSize
    tiles := by
      obtain ⟨l, r, hbl, hbr, hblocks, ht⟩ := hj.tiles
      have hcongr : ∀ m : List BlockId, b ∉ m →
          m.map (p.absorb b n offset).extent = m.map p.extent := by
        intro m hm
        apply List.map_congr_left
        intro c hc
        have hcb : c ≠ b := fun hcb => hm (hcb ▸ hc)
        simp only [extent, block_absorb_of_ne hcb]
      have hlist : (p.absorb b n offset).blocks = l ++ b :: r := hblocks
      have hext : (p.absorb b n offset).extent b
          = ⟨(p.block b).heap, offset, (p.block b).size + (p.block n).size⟩ := by
        simp only [extent, hself]
      rw [hlist, List.map_append, List.map_cons, hcongr l hbl, hcongr r hbr, hext]
      exact ht
    aligned := by
      intro c hc
      by_cases hcb : c = b
      · -- the joined block starts where one of the two did
        subst hcb
        have hb := hp.aligned c hj.mem
        have hn := hp.aligned n hn
        rw [hself]
        refine ⟨?_, Nat.dvd_add hb.2 hn.2⟩
        rcases hj.start with ho | ho
        · exact ho ▸ hb.1
        · exact ho ▸ hn.1
      · rw [block_absorb_of_ne hcb]
        exact hp.aligned c (hmem c hc)
    heapAligned := hp.heapAligned
    positive := by
      intro hs c hc
      have hpos := hp.positive hs c (hmem c hc)
      by_cases hcb : c = b
      · subst hcb
        rw [hself]
        exact Nat.add_pos_left hpos _
      · rw [block_absorb_of_ne hcb]
        exact hpos
    total := hp.total }

end Absorb

/-! ## Runs of merges -/

/-- One merge: a block of `B` takes over a free neighbour whose token is of
the same timeline. -/
def Merge (B : List BlockId) (p q : MemoryBlockPool) : Prop :=
  ∃ b ∈ B, ∃ n ∈ p.freeBlocks, ∃ offset, p.Adjacent b n offset ∧
    (p.block n).pending.getTimeline = (p.block b).pending.getTimeline ∧
    q = p.absorb b n offset

variable {B rest : List BlockId}

theorem WellFormed.merge (hp : p.WellFormed A strict) (h : Merge B p q) :
    q.WellFormed A strict := by
  obtain ⟨b, -, n, -, offset, hadj, -, rfl⟩ := h
  exact hp.absorb hadj

theorem WellFormed.merges (hp : p.WellFormed A strict) (h : ReflTransGen (Merge B) p q) :
    q.WellFormed A strict := by
  refine Runs.invariant (fun p q hp hm => ?_) h hp
  exact hp.merge hm

/-- What stays the same when only the blocks of `B` are touched. -/
structure Frame (B : List BlockId) (p q : MemoryBlockPool) : Prop where
  heap : q.heap = p.heap
  heaps : q.heaps = p.heaps
  size : q.size = p.size
  nextBlock : q.nextBlock = p.nextBlock
  nextHeap : q.nextHeap = p.nextHeap
  block : ∀ c ∉ B, q.block c = p.block c
  blockHeap : ∀ c, (q.block c).heap = (p.block c).heap

theorem Frame.refl : Frame B p p :=
  ⟨rfl, rfl, rfl, rfl, rfl, fun _ _ => rfl, fun _ => rfl⟩

theorem Frame.trans {o : MemoryBlockPool} (h : Frame B o p) (h' : Frame B p q) : Frame B o q where
  heap := h'.heap.trans h.heap
  heaps := h'.heaps.trans h.heaps
  size := h'.size.trans h.size
  nextBlock := h'.nextBlock.trans h.nextBlock
  nextHeap := h'.nextHeap.trans h.nextHeap
  block c hc := (h'.block c hc).trans (h.block c hc)
  blockHeap c := (h'.blockHeap c).trans (h.blockHeap c)

theorem Frame.setPending {t : CommandToken} (hb : b ∈ B) : Frame B p (p.setPending b t) := by
  refine ⟨rfl, rfl, rfl, rfl, rfl, fun c hc => ?_, fun c => setPending_heap⟩
  exact setPending_of_ne fun hcb => hc (hcb ▸ hb)

theorem Frame.absorb {n : BlockId} {offset : Nat} (hb : b ∈ B) : Frame B p (p.absorb b n offset) := by
  refine ⟨rfl, rfl, rfl, rfl, rfl, fun c hc => ?_, fun c => ?_⟩
  · exact block_absorb_of_ne fun hcb => hc (hcb ▸ hb)
  · by_cases hcb : c = b
    · subst hcb
      simp only [MemoryBlockPool.absorb, Function.update_self]
    · rw [block_absorb_of_ne hcb]

theorem Merge.frame (h : Merge B p q) : Frame B p q := by
  obtain ⟨b, hb, n, -, offset, -, -, rfl⟩ := h
  exact .absorb hb

theorem merges_frame (h : ReflTransGen (Merge B) p q) : Frame B p q :=
  Runs.relation (fun _ => .refl) (fun _ _ _ h h' => h.trans h') (fun _ _ hm => hm.frame) h

/-- Merges only take from the free blocks. -/
theorem Merge.freeBlocks (h : Merge B p q) : q.freeBlocks.Sublist p.freeBlocks := by
  obtain ⟨b, -, n, -, offset, -, -, rfl⟩ := h
  exact List.erase_sublist

theorem merges_freeBlocks (h : ReflTransGen (Merge B) p q) :
    q.freeBlocks.Sublist p.freeBlocks :=
  Runs.relation (P := fun p q => q.freeBlocks.Sublist p.freeBlocks)
    (fun _ => .refl _) (fun _ _ _ h h' => h'.trans h) (fun _ _ hm => hm.freeBlocks) h

theorem Merge.blocks (h : Merge B p q) : q.blocks.Sublist p.blocks := by
  obtain ⟨b, -, n, -, offset, -, -, rfl⟩ := h
  exact List.erase_sublist

theorem merges_blocks (h : ReflTransGen (Merge B) p q) : q.blocks.Sublist p.blocks := by
  induction h with
  | refl => exact .refl _
  | tail _ hm ih => exact (Merge.blocks hm).trans ih

/-- Every block is free or one of `rest`, and none is both. -/
def Accounted (rest : List BlockId) (p : MemoryBlockPool) : Prop :=
  p.blocks.Perm (p.freeBlocks ++ rest)

theorem Accounted.merges (ha : p.Accounted rest) (h : ReflTransGen (Merge B) p q) :
    q.Accounted rest := by
  refine Runs.invariant (fun p q ha h => ?_) h ha
  obtain ⟨b, -, n, hn, offset, -, -, rfl⟩ := h
  have := List.Perm.erase n ha
  rwa [List.erase_append_left _ hn] at this

/-! ## What the tokens of the free blocks stand for -/

/-- What a token says of a byte of a heap. -/
abbrev Guard := CommandToken → HeapId → Nat → Prop

/-- The later of two tokens of a timeline says what both said. -/
def Guard.Lasting (G : Guard) : Prop :=
  ∀ t t' h x, t'.getTimeline = t.getTimeline → G t h x ∨ G t' h x →
    G (laterPending t t') h x

variable {G : Guard}

/-- The token of the block says `G` of each of its bytes. -/
def GuardedAt (G : Guard) (p : MemoryBlockPool) (b : BlockId) : Prop :=
  ∀ x, (p.extent b).Has x → G (p.block b).pending (p.block b).heap x

/-- The token of every free block says `G` of each of its bytes. -/
def Guarded (G : Guard) (p : MemoryBlockPool) : Prop := ∀ b ∈ p.freeBlocks, p.GuardedAt G b

theorem GuardedAt.congr (hg : p.GuardedAt G b) (h : q.block b = p.block b) :
    q.GuardedAt G b := by
  simp only [GuardedAt, extent, h]
  exact hg

/-- A part of a block, with its token. -/
theorem GuardedAt.shrink (hg : p.GuardedAt G b)
    (hpending : (q.block c).pending = (p.block b).pending)
    (hheap : (q.block c).heap = (p.block b).heap)
    (hsub : ∀ x, (q.extent c).Has x → (p.extent b).Has x) : q.GuardedAt G c := by
  intro x hx
  rw [hpending, hheap]
  exact hg x (hsub x hx)

theorem GuardedAt.absorb (hG : G.Lasting) (hp : p.WellFormed A strict)
    (h : p.Adjacent b n offset)
    (ht : (p.block n).pending.getTimeline = (p.block b).pending.getTimeline)
    (hb : p.GuardedAt G b) (hn : p.GuardedAt G n) : (p.absorb b n offset).GuardedAt G b := by
  intro x hx
  rw [extent, block_absorb hp h] at hx
  rw [block_absorb hp h]
  apply hG _ _ _ _ ht
  rcases ((hp.joined h).bytes x).mp hx with hx | hx
  · exact .inl (hb x hx)
  · exact .inr (h.1 ▸ hn x hx)

/-- Merges keep what the tokens of the free blocks and of those in hand say. -/
theorem GuardedAt.merges (hG : G.Lasting) (hp : p.WellFormed A strict)
    (h : ReflTransGen (Merge B) p q)
    (hg : ∀ c, c ∈ B ∨ c ∈ p.freeBlocks → p.GuardedAt G c) :
    ∀ c, c ∈ B ∨ c ∈ q.freeBlocks → q.GuardedAt G c := by
  refine (Runs.invariant (I := fun p => p.WellFormed A strict ∧
    ∀ c, c ∈ B ∨ c ∈ p.freeBlocks → p.GuardedAt G c) ?_ h ⟨hp, hg⟩).2
  rintro p q ⟨hp, hg⟩ hm
  refine ⟨hp.merge hm, fun c hc => ?_⟩
  have hfree := hm.freeBlocks
  obtain ⟨b, hb, n, hn, offset, hadj, ht, rfl⟩ := hm
  by_cases hcb : c = b
  · -- the token of the joined block is the later of the two
    subst hcb
    exact .absorb hG hp hadj ht (hg c (.inl hb)) (hg n (.inr hn))
  · refine (hg c ?_).congr (block_absorb_of_ne hcb)
    exact hc.imp_right fun hc => hfree.subset hc

end MemoryBlockPool

end RexlibCuda
