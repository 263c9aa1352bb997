import RexlibCuda.AllocatorHandout

/-! Which block `acquire_block` settles on, against a plain scan of the free
blocks: the smallest of the timeline itself, else the smallest that nothing is
pending on, else the smallest of another timeline. -/

namespace RexlibCuda

open Completion Prog

open Relation (ReflTransGen)

namespace MemoryBlockPool

variable {A : Nat} {strict : Prop} {p : MemoryBlockPool} {size : Nat} {timeline : Option Timeline}
  {bs : List BlockId} {b c : BlockId}

/-! ## The scan -/

/-- The free blocks of the timeline that are big enough, if it is not null. -/
def own (p : MemoryBlockPool) (size : Nat) (timeline : Option Timeline) : List BlockId :=
  if timeline.isSome then
    p.freeBlocks.filter fun b => p.timelineOf b = timeline ∧ size ≤ (p.block b).size
  else []

/-- The free blocks with an empty token that are big enough. -/
def unused (p : MemoryBlockPool) (size : Nat) : List BlockId :=
  p.freeBlocks.filter fun b => (p.block b).pending = none ∧ size ≤ (p.block b).size

/-- The blocks a scan chooses from. -/
def candidates (p : MemoryBlockPool) (size : Nat) (timeline : Option Timeline) : List BlockId :=
  if p.own size timeline ≠ [] then p.own size timeline
  else if p.unused size ≠ [] then p.unused size
  else p.foreign size timeline

/-- A block of minimal size. Which one of several is left open. -/
structure Smallest (p : MemoryBlockPool) (bs : List BlockId) (b : BlockId) : Prop where
  mem : b ∈ bs
  least : ∀ c ∈ bs, (p.block b).size ≤ (p.block c).size

/-- The first of the smallest blocks the scan chooses from. -/
def choice (p : MemoryBlockPool) (size : Nat) (timeline : Option Timeline) : Option BlockId :=
  (p.candidates size timeline).argmin fun b => (p.block b).size

theorem mem_own (ht : timeline.isSome) : b ∈ p.own size timeline ↔
    b ∈ p.freeBlocks ∧ p.timelineOf b = timeline ∧ size ≤ (p.block b).size := by
  simp [own, ht]

theorem own_null : p.own size none = [] := by
  simp [own]

theorem mem_unused : b ∈ p.unused size ↔
    b ∈ p.freeBlocks ∧ (p.block b).pending = none ∧ size ≤ (p.block b).size := by
  simp [unused]

theorem timelineOf_none : p.timelineOf b = none ↔ (p.block b).pending = none :=
  CommandToken.getTimeline_eq_none

theorem mem_candidates (h : b ∈ p.candidates size timeline) :
    b ∈ p.freeBlocks ∧ size ≤ (p.block b).size := by
  unfold candidates at h
  split at h
  · cases timeline with
    | none => simp [own] at h
    | some t =>
        obtain ⟨hfree, -, hfits⟩ := (mem_own rfl).mp h
        exact ⟨hfree, hfits⟩
  · split at h
    · obtain ⟨hfree, -, hfits⟩ := mem_unused.mp h
      exact ⟨hfree, hfits⟩
    · obtain ⟨hfree, -, -, hfits⟩ := mem_foreign.mp h
      exact ⟨hfree, hfits⟩

theorem choice_smallest (h : p.choice size timeline = some c) :
    p.Smallest (p.candidates size timeline) c :=
  ⟨List.argmin_mem h, fun _ hd =>
    List.le_of_mem_argmin (f := fun b => (p.block b).size) hd h⟩

theorem choice_eq_none : p.choice size timeline = none ↔ p.candidates size timeline = [] :=
  List.argmin_eq_none

/-! ## The searches -/

theorem own_eq (p : MemoryBlockPool) (size : Nat) (ht : timeline.isSome) : p.own size timeline
    = p.freeBlocks.filter fun b => p.timelineOf b = timeline ∧ size ≤ (p.block b).size := if_pos ht

theorem unused_eq (p : MemoryBlockPool) (size : Nat) : p.unused size
    = p.freeBlocks.filter fun b => p.timelineOf b = none ∧ size ≤ (p.block b).size := by
  simp [unused, timelineOf_none]

/-- A search within one timeline finds the first of the smallest blocks that a
scan of it would. -/
theorem Sorted.findInTimeline_argmin (hs : p.Sorted)
    (hbs : bs = p.freeBlocks.filter fun b => p.timelineOf b = timeline ∧ size ≤ (p.block b).size) :
    p.findInTimeline size timeline = bs.argmin fun b => (p.block b).size := by
  have hsizes : bs.Pairwise fun b c => (p.block b).size ≤ (p.block c).size := by
    have htimeline : ∀ b ∈ bs, p.timelineOf b = timeline := by
      intro b hb
      rw [hbs] at hb
      exact (of_decide_eq_true (List.mem_filter.mp hb).2).1
    exact hs.sizes (hbs ▸ List.filter_sublist) htimeline
  rw [hs.findInTimeline_eq, ← hbs, Sequence.argmin_sorted hsizes]

/-- **`find_suitable_block`** finds what the scan would choose of the blocks of the
timeline, else of those that nothing is pending on. -/
theorem Sorted.findSuitableBlock_eq (hs : p.Sorted) (size : Nat) (timeline : Option Timeline) :
    p.findSuitableBlock size timeline
      = (if p.own size timeline ≠ [] then p.own size timeline else p.unused size).argmin
          fun b => (p.block b).size := by
  have hunused := hs.findInTimeline_argmin (p.unused_eq size)
  cases timeline with
  | none =>
      -- with a null timeline the first search is the second
      rw [if_neg (by simp [own_null]), ← hunused, findSuitableBlock]
      cases p.findInTimeline size none <;> simp
  | some t =>
      have hsome : (some t).isSome := rfl
      have hown := hs.findInTimeline_argmin (p.own_eq size hsome)
      rw [findSuitableBlock, hown, hunused, if_pos hsome]
      by_cases hnil : p.own size (some t) = []
      · rw [if_neg (not_not.mpr hnil), hnil, List.argmin_nil]
      · rw [if_pos hnil]
        have hfound : (p.own size (some t)).argmin (fun b => (p.block b).size) ≠ none :=
          mt List.argmin_eq_none.mp hnil
        obtain ⟨b, hb⟩ := Option.ne_none_iff_exists'.mp hfound
        rw [hb]

section Searches

variable (hs : p.Sorted) (hsize : ∀ b ∈ p.freeBlocks, (p.block b).size ≤ sizeMax)

include hs hsize

/-- **The searches agree with the scan**: they find what it would choose. -/
theorem Sorted.searches_some (h : p.choice size timeline = some c) :
    p.findSuitableBlock size timeline = some c ∨
      p.findSuitableBlock size timeline = none ∧
        p.findForeignBlock size timeline = some (some c) := by
  rw [hs.findSuitableBlock_eq, hs.findForeignBlock_eq hsize]
  rw [choice, candidates] at h
  by_cases hown : p.own size timeline = []
  · rw [if_neg (not_not.mpr hown)] at h ⊢
    by_cases hunused : p.unused size = []
    · rw [if_neg (not_not.mpr hunused)] at h
      exact .inr ⟨by rw [hunused, List.argmin_nil], congrArg some h⟩
    · rw [if_pos hunused] at h
      exact .inl h
  · rw [if_pos hown] at h ⊢
    exact .inl h

/-- Where it has nothing to choose from, they find nothing. -/
theorem Sorted.searches_none (h : p.choice size timeline = none) :
    p.findSuitableBlock size timeline = none ∧ p.findForeignBlock size timeline = some none := by
  rw [hs.findSuitableBlock_eq, hs.findForeignBlock_eq hsize]
  rw [choice_eq_none, candidates] at h
  by_cases hown : p.own size timeline = []
  · rw [if_neg (not_not.mpr hown)] at h ⊢
    by_cases hunused : p.unused size = []
    · rw [if_neg (not_not.mpr hunused)] at h
      rw [hunused, h]
      exact ⟨rfl, rfl⟩
    · rw [if_pos hunused] at h
      exact absurd h hunused
  · rw [if_pos hown] at h
    exact absurd h hown

theorem Sorted.searches_iff : (p.findSuitableBlock size timeline = some c ∨
    p.findSuitableBlock size timeline = none ∧ p.findForeignBlock size timeline = some (some c)) ↔
      p.choice size timeline = some c := by
  constructor
  · intro h
    cases hc : p.choice size timeline with
    | none =>
        obtain ⟨hnone, hforeign⟩ := hs.searches_none hsize hc
        simp [hnone, hforeign] at h
    | some d =>
        rcases hs.searches_some hsize hc with hd | ⟨hnone, hd⟩
        · simpa [hd] using h
        · simpa [hnone, hd] using h
  · exact hs.searches_some hsize

end Searches

end MemoryBlockPool


namespace MemoryBlockAllocator

variable {cfg : Config} {env : Environment} {r : Nat} {k : Clock Timeline}
  {touched : HeapId → Nat → Command → Prop} {strict : Prop} {rest : List BlockId}
  {timeline : Option Timeline} {a u : MemoryBlockAllocator} {b c : BlockId}

/-! ## What is handed out -/

/-- **The choice of `c`**: `b` is its first `r` bytes, handed out, and what is
left of it is one free block with the same token right after that. -/
structure Chosen (r : Nat) (c : BlockId) (a : MemoryBlockAllocator) (b : BlockId)
    (u : MemoryBlockAllocator) : Prop where
  record : u.pool.block b =
    ⟨(a.pool.block c).pending, r, (a.pool.block c).heap, (a.pool.block c).offset⟩
  notFree : b ∉ u.pool.freeBlocks
  others : ∀ d ∈ a.pool.blocks, d ≠ c → d ∈ u.pool.blocks ∧ u.pool.block d = a.pool.block d ∧
    (d ∈ u.pool.freeBlocks ↔ d ∈ a.pool.freeBlocks)
  whole : (a.pool.block c).size = r → b = c ∧ u.pool.blocks = a.pool.blocks
  left : (a.pool.block c).size ≠ r → ∃ front behind, a.pool.blocks = front ++ c :: behind ∧
    u.pool.blocks = front ++ b :: c :: behind ∧ c ∈ u.pool.freeBlocks ∧
    u.pool.block c = ⟨(a.pool.block c).pending, (a.pool.block c).size - r,
      (a.pool.block c).heap, (a.pool.block c).offset + r⟩
  /-- The source is not asked. -/
  trace : ∃ hosts, (∀ e ∈ hosts, ∃ granted, e = Event.hostAllocate granted) ∧
    u.trace = .acquired b :: (hosts ++ a.trace)

/-- Handing out a block is choosing it. -/
theorem Sound.chosen (hs : Sound cfg k touched strict rest a) (h : HandedOut r c a b u) :
    Chosen r c a b u := by
  have hwf := hs.coherent.wellFormed
  have hfree := h.free
  have hc := hwf.freeSub c hfree
  have hnew : ∀ d ∈ a.pool.blocks, (a.pool.block c).size ≠ r → d ≠ b := by
    intro d hd hcut
    rw [h.block, MemoryBlockPool.handOut_cut hcut]
    exact hwf.nextBlock_ne hd
  constructor
  · rw [h.pool, h.block]
    exact MemoryBlockPool.handOut_record a.pool r c
  · intro hb
    rw [h.pool, MemoryBlockPool.handOut_free hwf hfree] at hb
    exact hb.2 h.block
  · intro d hd hdc
    rw [h.pool]
    obtain ⟨hmem, hblock⟩ := MemoryBlockPool.handOut_of_ne (r := r) hwf hfree hd hdc
    refine ⟨hmem, hblock, ?_⟩
    rw [MemoryBlockPool.handOut_free hwf hfree, ← h.block]
    apply and_iff_left
    by_cases hsize : (a.pool.block c).size = r
    · rw [h.block, MemoryBlockPool.handOut_whole hsize]
      exact hdc
    · exact hnew d hd hsize
  · intro hsize
    rw [h.pool, h.block, MemoryBlockPool.handOut_whole hsize]
    exact ⟨rfl, rfl⟩
  · intro hsize
    rw [h.pool]
    obtain ⟨front, behind, hl, hl', hblock⟩ :=
      MemoryBlockPool.handOut_rest hwf hfree h.fits hsize
    refine ⟨front, behind, hl, by rw [hl', h.block], ?_, hblock⟩
    rw [MemoryBlockPool.handOut_free hwf hfree, ← h.block]
    exact ⟨hfree, hnew c hc hsize⟩
  · exact h.trace

/-- Where a search finds a block, `acquire_block` hands that out, unless there
is no room for what is left of it. -/
theorem Sound.acquireBlock_found (hs : Sound cfg k touched strict rest a)
    (hc : c ∈ a.pool.freeBlocks) (hfits : r ≤ (a.pool.block c).size)
    (hfound : a.pool.findSuitableBlock r timeline = some c ∨
      a.pool.findSuitableBlock r timeline = none ∧
        a.pool.findForeignBlock r timeline = some (some c)) :
    wp (acquireBlock cfg env r timeline) (fun b u => HandedOut r c a b u)
      (fun _ _ => env.hostAllocate a.now = false) a := by
  have hchoose : wp (chooseBlock cfg env r timeline) (fun b t => b = c ∧ t = a)
      (fun _ _ => False) a := by
    simp only [chooseBlock, wp_bind, wp_get]
    rcases hfound with hfind | ⟨hfind, hforeign⟩
    · simp [hfind]
    · simp [hfind, hforeign]
  simp only [acquireBlock, wp_bind]
  refine wp_mono hchoose ?_ fun _ _ h => h.elim
  intro d t h
  obtain ⟨rfl, rfl⟩ := h
  exact wp_mono (cutTo_handOut hs hc hfits) (fun _ _ h => h) fun _ _ h => h.2.2

/-- So it does where the scan has something to choose from. -/
theorem Sound.acquireBlock_scan (hs : Sound cfg k touched strict rest a)
    (hne : a.pool.candidates r timeline ≠ []) :
    ∃ c, a.pool.Smallest (a.pool.candidates r timeline) c ∧
      wp (acquireBlock cfg env r timeline) (fun b u => HandedOut r c a b u)
        (fun _ _ => env.hostAllocate a.now = false) a := by
  have hwf := hs.coherent.wellFormed
  obtain ⟨c, hc⟩ := Option.ne_none_iff_exists'.mp (mt MemoryBlockPool.choice_eq_none.mp hne)
  have hleast := MemoryBlockPool.choice_smallest hc
  have hfound := hs.coherent.sorted.searches_some (fun b hb => hwf.size_le hb) hc
  obtain ⟨hfree, hfits⟩ := MemoryBlockPool.mem_candidates hleast.mem
  exact ⟨c, hleast, hs.acquireBlock_found hfree hfits hfound⟩

end MemoryBlockAllocator

namespace Session

variable {cfg : Config} {env : Environment} {s : Session} {a : MemoryBlockAllocator}

/-- The allocator as one of its functions may find or leave it on the way. -/
def Within (cfg : Config) (env : Environment) (s : Session) (a : MemoryBlockAllocator) : Prop :=
  ∃ cut, ReflTransGen (MemoryBlockAllocator.Internal cfg env True cut) s.alloc a

theorem Sound.within (hs : Sound cfg (Clock.always Timeline) False s) (h : Within cfg env s a) :
    MemoryBlockAllocator.Sound cfg (Clock.always Timeline) s.touched False s.rest a := by
  obtain ⟨cut, hrun⟩ := h
  exact (hs.alloc.run (.always env) False.elim hrun).1

/-- **Block choice equals a plain scan**, in every allocator some run leads to,
also within a call: `acquire_block` hands out the front of a smallest block
the scan chooses from, and goes to grow the pool only where there is none. -/
theorem block_choice (hrun : ReflTransGen (Step cfg env .any) Session.empty s)
    (hwithin : Within cfg env s a) (hhost : ∀ n, env.hostAllocate n = true)
    (r : Nat) (timeline : Option Timeline) :
    (a.pool.candidates r timeline ≠ [] →
      ∃ c b u, a.pool.Smallest (a.pool.candidates r timeline) c ∧
        MemoryBlockAllocator.acquireBlock cfg env r timeline a = (.ok b, u) ∧
        MemoryBlockAllocator.Chosen r c a b u) ∧
    (a.pool.candidates r timeline = [] →
      a.pool.findSuitableBlock r timeline = none ∧
      a.pool.findForeignBlock r timeline = some none) := by
  have ha := (Sound.reached hrun).within hwithin
  have hwf := ha.coherent.wellFormed
  constructor
  · intro hne
    obtain ⟨c, hleast, hacquire⟩ := ha.acquireBlock_scan hne
    cases hcall : MemoryBlockAllocator.acquireBlock cfg env r timeline a with
    | mk result u =>
        cases result with
        | ok b => exact ⟨c, b, u, hleast, rfl, ha.chosen (wp_returned hacquire hcall)⟩
        | error e =>
            have hrefused := wp_thrown hacquire hcall
            simp [hhost] at hrefused
  · intro hnil
    exact ha.coherent.sorted.searches_none (fun b hb => hwf.size_le hb)
      (MemoryBlockPool.choice_eq_none.mpr hnil)

/-- A kilobyte of a timeline is free, and half of it is asked for there. -/
theorem block_choice_recycled : ∃ c b u,
    recycledKilobyte.alloc.pool.Smallest
      (recycledKilobyte.alloc.pool.candidates 512 (some seventh.timeline)) c ∧
    MemoryBlockAllocator.acquireBlock .default .generous 512 (some seventh.timeline)
      recycledKilobyte.alloc = (.ok b, u) ∧
    MemoryBlockAllocator.Chosen 512 c recycledKilobyte.alloc b u :=
  (block_choice recycledKilobyte_reached ⟨0, .refl⟩ (fun _ => rfl) 512
    (some seventh.timeline)).1 (by decide)

end Session

end RexlibCuda
