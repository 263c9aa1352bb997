import Mathlib.Data.Set.Basic
import RexlibCuda.PoolInvariant

/-! What a pool does not look at: the tokens of blocks that are not free. Two
pools that differ in nothing else are searched and changed alike. -/

namespace RexlibCuda

open Sequence

namespace MemoryBlockPool

variable {B B' : Set BlockId} {p q : MemoryBlockPool} {b c : BlockId}

/-- **The pools are alike** but for the tokens of blocks of `B`, and those only
of blocks that are not free. -/
structure Alike (B : Set BlockId) (p q : MemoryBlockPool) : Prop where
  heap : q.heap = p.heap
  blocks : q.blocks = p.blocks
  freeBlocks : q.freeBlocks = p.freeBlocks
  heaps : q.heaps = p.heaps
  size : q.size = p.size
  nextBlock : q.nextBlock = p.nextBlock
  nextHeap : q.nextHeap = p.nextHeap
  layout : ∀ c, (q.block c).size = (p.block c).size ∧ (q.block c).heap = (p.block c).heap ∧
    (q.block c).offset = (p.block c).offset
  token : ∀ c, c ∉ B ∨ c ∈ p.freeBlocks → (q.block c).pending = (p.block c).pending

namespace Alike

theorem refl (B : Set BlockId) (p : MemoryBlockPool) : Alike B p p :=
  ⟨rfl, rfl, rfl, rfl, rfl, rfl, rfl, fun _ => ⟨rfl, rfl, rfl⟩, fun _ _ => rfl⟩

/-- More tokens may differ. -/
theorem mono (h : Alike B p q) (hB : B ⊆ B') : Alike B' p q :=
  { h with token := fun c hc => h.token c (hc.imp_left fun hcB' hcB => hcB' (hB hcB)) }

/-- The token of a block that is free is none of those that differ. -/
theorem diff_free (h : Alike B p q) (hb : b ∈ p.freeBlocks) : Alike (B \ {b}) p q := by
  refine { h with token := fun c hc => h.token c ?_ }
  by_cases hcb : c = b
  · exact .inr (hcb ▸ hb)
  · exact hc.imp_left fun hcB hmem => hcB ⟨hmem, hcb⟩

variable (h : Alike B p q)

include h

/-- Where the tokens are the same, so are the blocks. -/
theorem block (hc : c ∉ B ∨ c ∈ p.freeBlocks) : q.block c = p.block c := by
  obtain ⟨hsize, hheap, hoffset⟩ := h.layout c
  have htoken := h.token c hc
  cases hq : q.block c
  cases hp : p.block c
  simp only [hq, hp] at hsize hheap hoffset htoken
  rw [hsize, hheap, hoffset, htoken]

theorem free (hc : c ∈ p.freeBlocks) : q.block c = p.block c := h.block (.inr hc)

theorem isFree : q.isFree = p.isFree := by
  ext1 c
  simp only [MemoryBlockPool.isFree, h.freeBlocks]

theorem heapOf (c : BlockId) : (q.block c).heap = (p.block c).heap := (h.layout c).2.1

theorem sizeOf (c : BlockId) : (q.block c).size = (p.block c).size := (h.layout c).1

/-! ## Searching -/

theorem getKey (hc : c ∉ B ∨ c ∈ p.freeBlocks) : q.getKey c = p.getKey c := by
  simp only [MemoryBlockPool.getKey, h.block hc]

theorem less (hb : b ∉ B ∨ b ∈ p.freeBlocks) (hc : c ∉ B ∨ c ∈ p.freeBlocks) :
    q.less b c = p.less b c := by
  simp only [MemoryBlockPool.less, h.getKey hb, h.getKey hc]

theorem lowerBound (key : FreeKey) : q.lowerBound key = p.lowerBound key := by
  simp only [MemoryBlockPool.lowerBound, h.freeBlocks]
  exact dropWhile_congr fun c hc => by rw [h.getKey (.inr hc)]

theorem upperBound (key : FreeKey) : q.upperBound key = p.upperBound key := by
  simp only [MemoryBlockPool.upperBound, h.freeBlocks]
  exact dropWhile_congr fun c hc => by rw [h.getKey (.inr hc)]

theorem findNextTimeline (timeline : Option Timeline) :
    q.findNextTimeline timeline = p.findNextTimeline timeline := h.upperBound _

theorem findInTimeline (size : Nat) (timeline : Option Timeline) :
    q.findInTimeline size timeline = p.findInTimeline size timeline := by
  simp only [MemoryBlockPool.findInTimeline, h.lowerBound]
  split
  · rfl
  · rename_i c rest hbound
    have hc : c ∈ p.freeBlocks :=
      (List.dropWhile_sublist _).subset (hbound.symm ▸ List.mem_cons_self : c ∈ p.lowerBound _)
    rw [h.free hc]

theorem findSuitableBlock (size : Nat) (timeline : Option Timeline) :
    q.findSuitableBlock size timeline = p.findSuitableBlock size timeline := by
  simp only [MemoryBlockPool.findSuitableBlock, h.findInTimeline]

/-- What is behind a timeline is free like the rest. -/
theorem findForeignLoop (size : Nat) (timeline : Option Timeline) (fuel : Nat) :
    ∀ (ite : List BlockId) (result : Option BlockId), (∀ c ∈ ite, c ∈ p.freeBlocks) →
      q.findForeignLoop size timeline fuel ite result
        = p.findForeignLoop size timeline fuel ite result := by
  induction fuel with
  | zero =>
      intro ite result _
      cases ite <;> rfl
  | succ fuel ih =>
      intro ite result hite
      cases ite with
      | nil => rfl
      | cons c rest =>
          have hnext : ∀ timeline, ∀ d ∈ p.findNextTimeline timeline, d ∈ p.freeBlocks :=
            fun timeline d hd => (List.dropWhile_sublist _).subset hd
          simp only [MemoryBlockPool.findForeignLoop, h.free (hite c List.mem_cons_self),
            h.findInTimeline, h.findNextTimeline, h.sizeOf]
          exact ih _ _ (hnext _)

theorem findForeignBlock (size : Nat) (timeline : Option Timeline) :
    q.findForeignBlock size timeline = p.findForeignBlock size timeline := by
  simp only [MemoryBlockPool.findForeignBlock, h.freeBlocks]
  exact h.findForeignLoop size timeline _ _ _ fun _ hc => hc

theorem latestOf (cs : List BlockId) : ∀ b, b ∈ p.freeBlocks → (∀ c ∈ cs, c ∈ p.freeBlocks) →
    q.latestOf b cs = p.latestOf b cs ∧ p.latestOf b cs ∈ p.freeBlocks := by
  induction cs with
  | nil => exact fun b hb _ => ⟨rfl, hb⟩
  | cons c cs ih =>
      intro b hb hcs
      have hc := hcs c List.mem_cons_self
      have hrest : ∀ d ∈ cs, d ∈ p.freeBlocks := fun d hd => hcs d (List.mem_cons_of_mem c hd)
      simp only [MemoryBlockPool.latestOf, h.free hb, h.free hc]
      split
      · exact ih c hc hrest
      · exact ih b hb hrest

theorem enumerateLoop (fuel : Nat) : ∀ ite : List BlockId, (∀ c ∈ ite, c ∈ p.freeBlocks) →
    q.enumerateLoop fuel ite = p.enumerateLoop fuel ite := by
  induction fuel with
  | zero =>
      intro ite _
      cases ite <;> rfl
  | succ fuel ih =>
      intro ite hite
      cases ite with
      | nil => rfl
      | cons c rest =>
          have hc := hite c List.mem_cons_self
          have hnext : ∀ d ∈ p.findNextTimeline (p.block c).pending.getTimeline, d ∈ p.freeBlocks :=
            fun d hd => (List.dropWhile_sublist _).subset hd
          have hlatest : ∀ n, q.latestOf c (rest.take n) = p.latestOf c (rest.take n) ∧
              p.latestOf c (rest.take n) ∈ p.freeBlocks := fun n =>
            h.latestOf _ c hc fun d hd => hite d (List.mem_cons_of_mem c (List.mem_of_mem_take hd))
          simp only [MemoryBlockPool.enumerateLoop, h.free hc, h.findNextTimeline, ih _ hnext,
            (hlatest _).1, h.free (hlatest _).2]

theorem pendingTokens : q.pendingTokens = p.pendingTokens := by
  simp only [MemoryBlockPool.pendingTokens, h.freeBlocks]
  exact h.enumerateLoop _ _ fun _ hc => hc

omit h

/-! ## Handing out and taking back -/

/-- Fewer blocks may be free. -/
theorem keepFree (h : Alike B p q) {free : List BlockId} (hfree : ∀ c ∈ free, c ∈ p.freeBlocks) :
    Alike B { p with freeBlocks := free } { q with freeBlocks := free } :=
  { h with
    freeBlocks := rfl
    token := fun c hc => h.token c (hc.imp_right (hfree c)) }

theorem acquire (h : Alike B p q) (b : BlockId) : Alike B (p.acquire b) (q.acquire b) := by
  simp only [MemoryBlockPool.acquire, h.freeBlocks]
  exact h.keepFree fun c hc => List.mem_of_mem_erase hc

/-- A block that is written is the same in both. -/
theorem setBlock (h : Alike B p q) (b : BlockId) (r : MemoryBlock) :
    Alike (B \ {b}) (p.setBlock b r) (q.setBlock b r) := by
  have hblock : ∀ c, c ≠ b →
      (q.setBlock b r).block c = q.block c ∧ (p.setBlock b r).block c = p.block c := fun c hc =>
    ⟨Function.update_of_ne hc .., Function.update_of_ne hc ..⟩
  have hself : (q.setBlock b r).block b = r ∧ (p.setBlock b r).block b = r :=
    ⟨Function.update_self .., Function.update_self ..⟩
  refine { h with layout := fun c => ?_, token := fun c hc => ?_ }
  · by_cases hcb : c = b
    · subst hcb
      rw [hself.1, hself.2]
      exact ⟨rfl, rfl, rfl⟩
    · rw [(hblock c hcb).1, (hblock c hcb).2]
      exact h.layout c
  · by_cases hcb : c = b
    · subst hcb
      rw [hself.1, hself.2]
    · rw [(hblock c hcb).1, (hblock c hcb).2]
      exact h.token c (hc.imp_left fun hcB hmem => hcB ⟨hmem, hcb⟩)

/-- What differed at a block no longer does. -/
theorem of_diff (h : Alike (B \ {b}) p q) : Alike B p q := h.mono Set.sdiff_subset

theorem setPending (h : Alike B p q) (b : BlockId) (t : CommandToken) :
    Alike (B \ {b}) (p.setPending b t) (q.setPending b t) := by
  have hrecord : { q.block b with pending := t } = { p.block b with pending := t } := by
    obtain ⟨hsize, hheap, hoffset⟩ := h.layout b
    simp only [hsize, hheap, hoffset]
  rw [MemoryBlockPool.setPending, MemoryBlockPool.setPending, hrecord]
  exact h.setBlock b _

/-- Only what is free is merged. -/
theorem isMergeable_free (h : p.isMergeable b c = true) : c ∈ p.freeBlocks := by
  simp only [MemoryBlockPool.isMergeable, MemoryBlockPool.isFree, Bool.and_eq_true,
    decide_eq_true_eq] at h
  exact h.2

/-- A block that is the same in both joins the free ones. -/
theorem insertFree (h : Alike B p q) (hb : b ∉ B) : Alike B (p.insertFree b) (q.insertFree b) := by
  have hinsert : insertUpper q.less b q.freeBlocks = insertUpper p.less b p.freeBlocks := by
    rw [h.freeBlocks]
    exact insertUpper_congr fun c hc => h.less (.inl hb) (.inr hc)
  refine { h with freeBlocks := hinsert, token := fun c hc => h.token c ?_ }
  rcases hc with hc | hc
  · exact .inl hc
  · rcases (mem_insertUpper _).mp hc with rfl | hc
    · exact .inl hb
    · exact .inr hc

section Merging

variable (h : Alike B p q) (hb : b ∉ B)

include h hb

/-- The token of a neighbour is read before it is known to be free, but counts
only then. -/
theorem isMergeable (neighbour : BlockId) : q.isMergeable b neighbour = p.isMergeable b neighbour := by
  simp only [MemoryBlockPool.isMergeable, h.isFree, h.heapOf, h.block (.inl hb)]
  by_cases hfree : neighbour ∈ p.freeBlocks
  · rw [h.free hfree]
  · have hnot : p.isFree neighbour = false := decide_eq_false hfree
    rw [hnot, Bool.and_false, Bool.and_false]

theorem absorb {neighbour : BlockId} (hfree : neighbour ∈ p.freeBlocks) (offset : Nat) :
    Alike B (p.absorb b neighbour offset) (q.absorb b neighbour offset) := by
  have hrecord := h.setBlock b { p.block b with
    pending := laterPending (p.block b).pending (p.block neighbour).pending
    size := sizeAdd (p.block b).size (p.block neighbour).size
    offset }
  have herased := hrecord.of_diff.keepFree fun c hc => List.mem_of_mem_erase (b := neighbour) hc
  simp only [MemoryBlockPool.absorb, h.block (.inl hb), h.free hfree, h.freeBlocks, h.blocks]
  exact { herased with blocks := rfl }

theorem considerMergingForwards :
    Alike B (p.considerMergingForwards b) (q.considerMergingForwards b) := by
  simp only [MemoryBlockPool.considerMergingForwards, h.blocks]
  cases nextOf b p.blocks with
  | none => exact h
  | some next =>
      simp only [h.isMergeable hb, h.block (.inl hb)]
      split
      · rename_i hmergeable
        exact h.absorb hb (isMergeable_free hmergeable) _
      · exact h

theorem considerMergingBackwards :
    Alike B (p.considerMergingBackwards b) (q.considerMergingBackwards b) := by
  simp only [MemoryBlockPool.considerMergingBackwards, h.blocks]
  cases prevOf b p.blocks with
  | none => exact h
  | some previous =>
      simp only [h.isMergeable hb]
      split
      · rename_i hmergeable
        have hfree := isMergeable_free hmergeable
        rw [h.free hfree]
        exact h.absorb hb hfree _
      · exact h

end Merging

/-- **Whatever token a block had, it is released with the one it is given.** -/
theorem release (h : Alike B p q) (b : BlockId) (t : CommandToken) :
    Alike (B \ {b}) (p.release b t) (q.release b t) := by
  have hb : b ∉ B \ {b} := fun hmem => hmem.2 rfl
  have hforwards := (h.setPending b t).considerMergingForwards hb
  exact (hforwards.considerMergingBackwards hb).insertFree hb

/-- **A free block is cut alike.** -/
theorem partitionBlock (h : Alike B p q) (hb : b ∈ p.freeBlocks) (firstSize secondSize : Nat) :
    (q.partitionBlock b firstSize secondSize).1 = (p.partitionBlock b firstSize secondSize).1 ∧
      Alike B (p.partitionBlock b firstSize secondSize).2
        (q.partitionBlock b firstSize secondSize).2 := by
  refine ⟨h.nextBlock, ?_⟩
  have hsecond := (h.diff_free hb).setBlock b { p.block b with
    size := secondSize, offset := sizeAdd (p.block b).offset firstSize }
  have hfirst := hsecond.setBlock p.nextBlock
    ⟨(p.block b).pending, firstSize, (p.block b).heap, (p.block b).offset⟩
  have herased := hfirst.keepFree fun c hc => List.mem_of_mem_erase (b := b) hc
  have hcut : Alike (((B \ {b}) \ {b}) \ {p.nextBlock}) (p.cutBlock b firstSize secondSize)
      (q.cutBlock b firstSize secondSize) := by
    simp only [cutBlock, h.free hb, h.freeBlocks, h.blocks, h.nextBlock]
    exact { herased with blocks := rfl, nextBlock := rfl }
  have hboth := (hcut.insertFree (b := p.nextBlock) (by simp)).insertFree (b := b) (by simp)
  have hsub : ((B \ {b}) \ {b}) \ {p.nextBlock} ⊆ B := fun c hc => hc.1.1.1
  simp only [MemoryBlockPool.partitionBlock, h.nextBlock]
  exact hboth.mono hsub

/-! ## Heaps -/

theorem registerHeap (h : Alike B p q) (heap : MemoryHeap) :
    (q.registerHeap heap).1 = (p.registerHeap heap).1 ∧
      Alike B (p.registerHeap heap).2 (q.registerHeap heap).2 := by
  refine ⟨h.nextBlock, ?_⟩
  have hblock := h.setBlock p.nextBlock ⟨none, heap.size, p.nextHeap, 0⟩
  have hadded : Alike (B \ {p.nextBlock}) (p.addHeap heap) (q.addHeap heap) := by
    simp only [addHeap, h.heap, h.blocks, h.heaps, h.size, h.nextBlock, h.nextHeap]
    exact { hblock with
      heap := rfl, blocks := rfl, heaps := rfl, size := rfl, nextBlock := rfl, nextHeap := rfl }
  simp only [MemoryBlockPool.registerHeap, h.nextBlock]
  exact (hadded.insertFree (by simp)).of_diff

/-- The loop empties tokens of free blocks, and so leaves both with the same. -/
theorem unbindLoop (bs : List BlockId) : ∀ (p q : MemoryBlockPool) (unbound : List BlockId),
    Alike B p q → (∀ c ∈ bs, c ∈ p.freeBlocks) → (∀ c ∈ unbound, c ∈ p.freeBlocks) →
      Alike B (MemoryBlockPool.unbindLoop bs p unbound).1
        (MemoryBlockPool.unbindLoop bs q unbound).1 ∧
      (MemoryBlockPool.unbindLoop bs q unbound).2 = (MemoryBlockPool.unbindLoop bs p unbound).2 ∧
      (∀ c ∈ (MemoryBlockPool.unbindLoop bs p unbound).2,
        c ∈ (MemoryBlockPool.unbindLoop bs p unbound).1.freeBlocks) := by
  induction bs with
  | nil => exact fun p q unbound h _ hunbound => ⟨h, rfl, hunbound⟩
  | cons b bs ih =>
      intro p q unbound h hbs hunbound
      have hb := hbs b List.mem_cons_self
      have hpending := (h.setPending b none).of_diff
      have hinsert : insertUpper (q.setPending b none).less b unbound
          = insertUpper (p.setPending b none).less b unbound :=
        insertUpper_congr fun c hc => hpending.less (.inr hb) (.inr (hunbound c hc))
      simp only [MemoryBlockPool.unbindLoop, hinsert]
      apply ih _ _ _ hpending fun c hc => hbs c (List.mem_cons_of_mem b hc)
      intro c hc
      rcases (mem_insertUpper _).mp hc with rfl | hc
      · exact hb
      · exact hunbound c hc

theorem unbind (h : Alike B p q) : Alike B p.unbind q.unbind := by
  obtain ⟨halike, hunbound, hfree⟩ :=
    unbindLoop p.freeBlocks p q [] h (fun _ hc => hc) fun _ hc => nomatch hc
  simp only [MemoryBlockPool.unbind, h.freeBlocks, hunbound]
  exact halike.keepFree hfree

theorem mergeRuns (rest : List BlockId) : ∀ (ite : BlockId) (p q : MemoryBlockPool), Alike B p q →
    Alike B (MemoryBlockPool.mergeRuns ite rest p) (MemoryBlockPool.mergeRuns ite rest q) := by
  induction rest with
  | nil => exact fun _ _ _ h => h
  | cons next rest ih =>
      intro ite p q h
      simp only [MemoryBlockPool.mergeRuns, h.isFree, h.heapOf]
      split
      · rename_i hmerged
        have hite : ite ∈ p.freeBlocks := by
          simp only [MemoryBlockPool.isFree, Bool.and_eq_true, decide_eq_true_eq] at hmerged
          exact hmerged.1.1
        have hrecord := h.setBlock ite { p.block ite with
          size := sizeAdd (p.block ite).size (p.block next).size }
        have herased := hrecord.of_diff.keepFree fun c hc =>
          List.mem_of_mem_erase (b := next) hc
        apply ih
        simp only [h.free hite, h.sizeOf, h.freeBlocks, h.blocks]
        exact { herased with blocks := rfl }
      · exact ih next p q h

theorem mergeAll (h : Alike B p q) : Alike B p.mergeAll q.mergeAll := by
  simp only [MemoryBlockPool.mergeAll, h.blocks]
  split
  · exact h
  · exact mergeRuns _ _ _ _ h

theorem bindAgain (h : Alike B p q) : Alike B p.bindAgain q.bindAgain := by
  have hfold : q.freeBlocks.foldl (fun bs b => insertUpper q.less b bs) []
      = p.freeBlocks.foldl (fun bs b => insertUpper p.less b bs) [] := by
    rw [h.freeBlocks]
    apply foldl_insertUpper_congr
    intro b hb c hc
    rw [List.append_nil] at hb hc
    exact h.less (.inr hb) (.inr hc)
  simp only [MemoryBlockPool.bindAgain, hfold]
  apply h.keepFree
  intro c hc
  simpa using (foldl_insertUpper_perm _ _).mem_iff.mp hc

/-- **The tokens of the free blocks are emptied alike.** -/
theorem resetPending (h : Alike B p q) : Alike B p.resetPending q.resetPending :=
  h.unbind.mergeAll.bindAgain

theorem isPartition (h : Alike B p q) (b : BlockId) : q.isPartition b = p.isPartition b := by
  simp only [MemoryBlockPool.isPartition, h.blocks, h.heapOf]

theorem eraseHeap (h : Alike B p q) (b : BlockId) : Alike B (p.eraseHeap b) (q.eraseHeap b) := by
  have herased := h.keepFree fun c hc => List.mem_of_mem_erase (b := b) hc
  simp only [MemoryBlockPool.eraseHeap, h.freeBlocks, h.blocks, h.heaps, h.size, h.heap, h.heapOf]
  exact { herased with heap := rfl, blocks := rfl, heaps := rfl, size := rfl }

theorem releaseUnusedLoop (bs : List BlockId) : ∀ (result : Nat) (p q : MemoryBlockPool),
    Alike B p q →
      (MemoryBlockPool.releaseUnusedLoop bs result q).1
        = (MemoryBlockPool.releaseUnusedLoop bs result p).1 ∧
      (MemoryBlockPool.releaseUnusedLoop bs result q).2.1
        = (MemoryBlockPool.releaseUnusedLoop bs result p).2.1 ∧
      Alike B (MemoryBlockPool.releaseUnusedLoop bs result p).2.2
        (MemoryBlockPool.releaseUnusedLoop bs result q).2.2 := by
  induction bs with
  | nil => exact fun _ _ _ h => ⟨rfl, rfl, h⟩
  | cons b bs ih =>
      intro result p q h
      simp only [MemoryBlockPool.releaseUnusedLoop, h.isPartition]
      split
      · exact ih result p q h
      · simp only [h.heapOf, h.heap]
        obtain ⟨hbytes, hgiven, halike⟩ := ih _ _ _ (h.eraseHeap b)
        exact ⟨hbytes, congrArg _ hgiven, halike⟩

/-- **The heaps that are not used are found alike.** -/
theorem releaseUnusedHeaps (h : Alike B p q) :
    q.releaseUnusedHeaps.1 = p.releaseUnusedHeaps.1 ∧
      q.releaseUnusedHeaps.2.1 = p.releaseUnusedHeaps.2.1 ∧
      Alike B p.releaseUnusedHeaps.2.2 q.releaseUnusedHeaps.2.2 := by
  simp only [MemoryBlockPool.releaseUnusedHeaps, h.freeBlocks]
  exact releaseUnusedLoop _ _ _ _ h

/-! ## Tokens that are set from outside -/

/-- The token of a block that is not free may become any in both. -/
theorem tamper (h : Alike B p q) (hb : b ∉ p.freeBlocks) (t t' : CommandToken) :
    Alike (insert b B) (p.setPending b t) (q.setPending b t') := by
  refine { h with layout := fun c => ?_, token := fun c hc => ?_ }
  · rw [setPending_size, setPending_size, setPending_heap, setPending_heap, setPending_offset,
      setPending_offset]
    exact h.layout c
  · have hcb : c ≠ b := by
      rintro rfl
      rcases hc with hc | hc
      · exact hc (Set.mem_insert c B)
      · exact hb hc
    rw [setPending_of_ne hcb, setPending_of_ne hcb]
    exact h.token c (hc.imp_left fun hcB hmem => hcB (Set.mem_insert_of_mem b hmem))

/-- Setting the token of a block makes no other difference. -/
theorem self (hb : b ∉ p.freeBlocks) (t : CommandToken) : Alike {b} p (p.setPending b t) := by
  have hself : p.setPending b (p.block b).pending = p := by
    simp only [MemoryBlockPool.setPending, MemoryBlockPool.setBlock, Function.update_eq_self]
  have h := (refl ∅ p).tamper hb (p.block b).pending t
  rwa [hself, insert_empty_eq] at h

/-- Pools that differ in the token of one block at most. -/
theorem eq_setPending (h : Alike {b} p q) : q = p.setPending b (q.block b).pending := by
  have hblock : q.block = (p.setPending b (q.block b).pending).block := by
    ext1 c
    by_cases hcb : c = b
    · subst hcb
      obtain ⟨hsize, hheap, hoffset⟩ := h.layout c
      simp only [MemoryBlockPool.setPending, MemoryBlockPool.setBlock, Function.update_self, ← hsize,
        ← hheap, ← hoffset]
    · rw [setPending_of_ne hcb]
      exact h.block (.inl hcb)
  obtain ⟨hheap, hblocks, hfree, hheaps, hsize, hnextBlock, hnextHeap, -, -⟩ := h
  cases q
  simp only at hblock hheap hblocks hfree hheaps hsize hnextBlock hnextHeap
  rw [hheap, hblocks, hfree, hheaps, hsize, hnextBlock, hnextHeap]
  exact congrArg (fun block => { p with block }) hblock

end Alike

end MemoryBlockPool

end RexlibCuda
