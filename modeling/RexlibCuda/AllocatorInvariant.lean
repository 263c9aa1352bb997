import RexlibCuda.Lib.Runs
import RexlibCuda.AllocatorTrace
import RexlibCuda.PoolReset

/-! The invariant of `memory_block_allocator`, and the steps its functions are
made of. Besides the invariant of the pool it says who holds each block, what
the source is owed, and that the tokens kept with a block that is not handed
out cover every command that ever touched its bytes. -/

namespace RexlibCuda

open Completion

/-! ## What the pool keeps of the past -/

namespace MemoryBlockPool

/-- The pool `q` comes after `p`: names are only added, what a block or a heap
was named for stays, and the blocks of `rest` are as they were. -/
structure Evolves (rest : List BlockId) (p q : MemoryBlockPool) : Prop where
  nextBlock : p.nextBlock ≤ q.nextBlock
  nextHeap : p.nextHeap ≤ q.nextHeap
  blockHeap : ∀ b < p.nextBlock, (q.block b).heap = (p.block b).heap
  heap : ∀ h < p.nextHeap, q.heap h = p.heap h
  heaps : ∀ h ∈ q.heaps, h ∈ p.heaps ∨ p.nextHeap ≤ h
  block : ∀ b ∈ rest, q.block b = p.block b

variable {A : Nat} {strict : Prop} {G : Guard} {B rest : List BlockId}
  {p q : MemoryBlockPool} {b : BlockId}

theorem Evolves.refl : Evolves rest p p where
  nextBlock := Nat.le_refl _
  nextHeap := Nat.le_refl _
  blockHeap _ _ := rfl
  heap _ _ := rfl
  heaps _ h := .inl h
  block _ _ := rfl

theorem Evolves.inside (hev : Evolves rest p q) {h : HeapId} {x : Nat}
    (hin : h < p.nextHeap ∧ x < (p.heap h).size) : h < q.nextHeap ∧ x < (q.heap h).size :=
  ⟨Nat.lt_of_lt_of_le hin.1 hev.nextHeap, by rw [hev.heap h hin.1]; exact hin.2⟩

theorem Evolves.trans {o : MemoryBlockPool} (h : Evolves rest o p) (h' : Evolves rest p q) :
    Evolves rest o q where
  nextBlock := Nat.le_trans h.nextBlock h'.nextBlock
  nextHeap := Nat.le_trans h.nextHeap h'.nextHeap
  blockHeap b hb := by
    rw [h'.blockHeap b (Nat.lt_of_lt_of_le hb h.nextBlock), h.blockHeap b hb]
  heap g hg := by rw [h'.heap g (Nat.lt_of_lt_of_le hg h.nextHeap), h.heap g hg]
  heaps g hg := by
    rcases h'.heaps g hg with hg | hg
    · exact h.heaps g hg
    · exact .inr (Nat.le_trans h.nextHeap hg)
  block b hb := (h'.block b hb).trans (h.block b hb)

theorem Evolves.subset {rest' : List BlockId} (h : Evolves rest p q)
    (hsub : ∀ b ∈ rest', b ∈ rest) : Evolves rest' p q where
  nextBlock := h.nextBlock
  nextHeap := h.nextHeap
  blockHeap := h.blockHeap
  heap := h.heap
  heaps := h.heaps
  block b hb := h.block b (hsub b hb)

theorem Frame.evolves (h : Frame B p q) (hB : ∀ b ∈ rest, b ∉ B) : Evolves rest p q where
  nextBlock := Nat.le_of_eq h.nextBlock.symm
  nextHeap := Nat.le_of_eq h.nextHeap.symm
  blockHeap b _ := h.blockHeap b
  heap g _ := by rw [h.heap]
  heaps g hg := .inl (h.heaps ▸ hg)
  block b hb := h.block b (hB b hb)

theorem Accounted.partition_evolves (ha : p.Accounted rest) (hp : p.WellFormed A strict)
    (hb : b ∈ p.freeBlocks) (s₁ s₂ : Nat) : Evolves rest p (p.partitionBlock b s₁ s₂).2 where
  nextBlock := Nat.le_succ _
  nextHeap := Nat.le_refl _
  blockHeap c hc := by
    have hcn : c ≠ p.nextBlock := Nat.ne_of_lt hc
    show ((p.cutBlock b s₁ s₂).block c).heap = _
    by_cases hcb : c = b
    · subst hcb
      simp only [cutBlock, Function.update_of_ne hcn, Function.update_self]
    · rw [cutBlock_of_ne hcb hcn]
  heap _ _ := rfl
  heaps _ h := .inl h
  block c hc := by
    have hcb : c ≠ b := fun h => ha.not_free hp hc (h ▸ hb)
    exact partitionBlock_of_ne hp hcb (ha.mem hc)

theorem Accounted.register_evolves (ha : p.Accounted rest) (hp : p.WellFormed A strict)
    (heap : MemoryHeap) : Evolves rest p (p.registerHeap heap).2 where
  nextBlock := Nat.le_succ _
  nextHeap := Nat.le_succ _
  blockHeap c hc := congrArg MemoryBlock.heap (addHeap_of_ne (Nat.ne_of_lt hc))
  heap h hh := addHeap_heap_of_ne (Nat.ne_of_lt hh)
  heaps h hh := by
    have hh : h ∈ p.heaps ++ [p.nextHeap] := hh
    rcases List.mem_append.mp hh with hh | hh
    · exact .inl hh
    · exact .inr (Nat.le_of_eq (List.mem_singleton.mp hh).symm)
  block c hc := addHeap_of_ne (hp.nextBlock_ne (ha.mem hc))

theorem eraseHeap_evolves : Evolves rest p (p.eraseHeap b) where
  nextBlock := Nat.le_refl _
  nextHeap := Nat.le_refl _
  blockHeap _ _ := rfl
  heap _ _ := rfl
  heaps _ h := .inl (List.mem_of_mem_erase h)
  block _ _ := rfl

theorem acquire_evolves : Evolves rest p (p.acquire b) where
  nextBlock := Nat.le_refl _
  nextHeap := Nat.le_refl _
  blockHeap _ _ := rfl
  heap _ _ := rfl
  heaps _ h := .inl h
  block _ _ := rfl

end MemoryBlockPool

namespace MemoryBlockAllocator

open Relation (ReflTransGen)

/-! ## The steps -/

/-- **One step inside a function of the allocator**, up to the block it hands
out. `r` is what a block may be cut to. No command is waited for unless the
steps are `patient`. -/
inductive Internal (cfg : Config) (env : Environment) (patient : Prop) (r : Nat) :
    MemoryBlockAllocator → MemoryBlockAllocator → Prop
  /-- The outside was asked, and gave no memory. -/
  | asked {s : MemoryBlockAllocator} {e : Event} (answered : Answered env s.now e)
      (waits : e.IsWait → patient) :
      Internal cfg env patient r s (s.log e)
  /-- The source gave a region, which became a heap of the pool. -/
  | grew {s : MemoryBlockAllocator} {allocation size : Nat} (hosts : List Event)
      (quiet : ∀ e ∈ hosts, ∃ granted, e = .hostAllocate granted)
      (sized : 0 < size ∧ size < 2 ^ 64) (aligned : cfg.maxAlignment ∣ size) :
      Internal cfg env patient r s
        { s with
          pool := (s.pool.registerHeap
            ⟨allocation, alignCeil allocation cfg.maxAlignment, size⟩).2
          trace := hosts ++
            .sourceAllocate (regionBytes cfg size) (.region allocation) :: s.trace }
  /-- The source gave a region, which went straight back. -/
  | declined {s : MemoryBlockAllocator} {allocation bytes : Nat} (hosts : List Event)
      (quiet : ∀ e ∈ hosts, ∃ granted, e = .hostAllocate granted) :
      Internal cfg env patient r s
        { s with trace := .sourceDeallocate allocation bytes ::
            (hosts ++ .sourceAllocate bytes (.region allocation) :: s.trace) }
  /-- A block that is held back forgets tokens that are settled. -/
  | dropped {s : MemoryBlockAllocator} {before after : List PendingRelease} {b : BlockId}
      {tokens left : List CommandToken} (at_ : s.deferred = before ++ (b, tokens) :: after)
      (kept : ∀ t ∈ tokens, t ∈ left ∨ Settled s.trace t) :
      Internal cfg env patient r s { s with deferred := before ++ (b, left) :: after }
  /-- A block that is held back goes back to the pool with the one token that
  is not settled. -/
  | released {s : MemoryBlockAllocator} {before after : List PendingRelease} {b : BlockId}
      {tokens : List CommandToken} {token : CommandToken}
      (at_ : s.deferred = before ++ (b, tokens) :: after)
      (kept : ∀ t ∈ tokens, t = token ∨ Settled s.trace t) :
      Internal cfg env patient r s { s.release b token with deferred := before ++ after }
  /-- A free block is cut. -/
  | partitioned {s : MemoryBlockAllocator} {b : BlockId} {remainder : Nat}
      (free : b ∈ s.pool.freeBlocks) (sized : r + remainder = (s.pool.block b).size)
      (left : 0 < remainder) (aligned : cfg.maxAlignment ∣ r) :
      Internal cfg env patient r s { s with pool := (s.pool.partitionBlock b r remainder).2 }
  /-- The tokens of the free blocks are emptied once they are all settled. -/
  | reset {s : MemoryBlockAllocator}
      (settled : ∀ b ∈ s.pool.freeBlocks, Settled s.trace (s.pool.block b).pending) :
      Internal cfg env patient r s { s with pool := s.pool.resetPending }
  /-- A heap that is one free block with an empty token goes back. -/
  | destroyed {s : MemoryBlockAllocator} {b : BlockId} (free : b ∈ s.pool.freeBlocks)
      (empty : (s.pool.block b).pending = none) (whole : s.pool.isPartition b = false) :
      Internal cfg env patient r s
        (giveBack cfg (s.pool.heap (s.pool.block b).heap)
          ({ s with pool := s.pool.eraseHeap b }.log (.heapReleased (s.pool.block b).heap)))

/-! ## The invariant -/

/-- The region behind a heap of the pool. -/
def region (cfg : Config) (p : MemoryBlockPool) (h : HeapId) : Nat × Nat :=
  ((p.heap h).allocation, regionBytes cfg (p.heap h).size)

/-- What is known of a heap that died after `trace`. -/
structure Dead (k : Clock Timeline) (touched : HeapId → Nat → Command → Prop)
    (p : MemoryBlockPool) (trace : List Event) (h : HeapId) : Prop where
  below : h < p.nextHeap
  gone : h ∉ p.heaps
  complete : ∀ x c, touched h x c → Complete k trace.length c
  unheld : ∀ b ∈ holders trace, b < p.nextBlock ∧ (p.block b).heap ≠ h

/-- **The invariant of an allocator** that has the blocks of `rest` handed out
or lost, where `touched` tells which commands used which bytes. -/
structure Sound (cfg : Config) (k : Clock Timeline)
    (touched : HeapId → Nat → Command → Prop) (strict : Prop) (rest : List BlockId)
    (s : MemoryBlockAllocator) : Prop where
  coherent : s.pool.Coherent cfg.maxAlignment strict (ledger k touched s.now)
    (s.deferred.map Prod.fst ++ rest)
  held : ∀ d ∈ s.deferred, ∀ x, (s.pool.extent d.1).Has x →
    ∀ c, touched (s.pool.block d.1).heap x c → Covered k s.now d.2 c
  observed : ∀ c, Observed s.trace c → Complete k s.now c
  holders : (holders s.trace).Perm (s.deferred.map Prod.fst ++ rest)
  balanced : Balanced s.trace
  outstanding : (outstanding s.trace).Perm (s.pool.heaps.map (region cfg s.pool))
  inside : ∀ h x c, touched h x c → h < s.pool.nextHeap ∧ x < (s.pool.heap h).size
  dead : ∀ h trace, (.heapReleased h :: trace) <:+ s.trace → Dead k touched s.pool trace h
  died : ∀ h < s.pool.nextHeap, h ∈ s.pool.heaps ∨ .heapReleased h ∈ s.trace

section Sound

variable {cfg : Config} {env : Environment} {r : Nat} {k : Clock Timeline}
  {touched : HeapId → Nat → Command → Prop} {strict patient : Prop} {rest rest' : List BlockId}
  {s t : MemoryBlockAllocator} {b : BlockId} {q : MemoryBlockPool}

theorem Sound.empty (cfg : Config) (k : Clock Timeline) (strict : Prop) :
    Sound cfg k (fun _ _ _ => False) strict [] MemoryBlockAllocator.empty where
  coherent := .empty
  held _ h := nomatch h
  observed _ h := h.elim (nomatch ·) (nomatch ·)
  holders := .refl _
  balanced := trivial
  outstanding := .refl _
  inside _ _ _ h := h.elim
  dead _ _ h := by simp [MemoryBlockAllocator.empty] at h
  died _ h := nomatch h

/-- A block that is held back is accounted for in front of the others. -/
theorem Sound.deferred_accounted (hs : Sound cfg k touched strict rest s)
    {before after : List PendingRelease} {tokens : List CommandToken}
    (hat : s.deferred = before ++ (b, tokens) :: after) :
    s.pool.Accounted (b :: ((before ++ after).map Prod.fst ++ rest)) := by
  have hperm : (s.deferred.map Prod.fst ++ rest).Perm
      (b :: ((before ++ after).map Prod.fst ++ rest)) := by
    rw [hat]
    simp
  exact (hs.coherent.perm hperm).accounted

/-- So is one that is handed out. -/
theorem Sound.rest_accounted (hs : Sound cfg k touched strict rest s) (hb : b ∈ rest) :
    s.pool.Accounted (b :: (s.deferred.map Prod.fst ++ rest).erase b) := by
  have hperm := List.perm_cons_erase (List.mem_append_right (s.deferred.map Prod.fst) hb)
  exact (hs.coherent.perm hperm).accounted

theorem Dead.evolves {p : MemoryBlockPool} {trace : List Event} {h : HeapId}
    (hd : Dead k touched p trace h) (hev : p.Evolves rest q) : Dead k touched q trace h where
  below := Nat.lt_of_lt_of_le hd.below hev.nextHeap
  gone hh := (hev.heaps h hh).elim hd.gone fun hle => Nat.not_le.mpr hd.below hle
  complete := hd.complete
  unheld c hc := by
    obtain ⟨hlt, hne⟩ := hd.unheld c hc
    exact ⟨Nat.lt_of_lt_of_le hlt hev.nextBlock, by rwa [hev.blockHeap c hlt]⟩

theorem suffix_of_append (es : List Event) {a : Event} {trace l : List Event}
    (h : a :: l <:+ es ++ trace) (ha : a ∉ es) : a :: l <:+ trace := by
  induction es with
  | nil => exact h
  | cons e es ih =>
      rw [List.cons_append, List.suffix_cons_iff] at h
      rcases h with h | h
      · exact absurd (List.cons.inj h).1 (fun he => ha (he ▸ List.mem_cons_self))
      · exact ih h fun hmem => ha (List.mem_cons_of_mem e hmem)

theorem now_append (es : List Event) : s.now ≤ ({ s with trace := es ++ s.trace } :
    MemoryBlockAllocator).now := by
  simp [now]

/-- What the allocator merely sees happen. -/
theorem Sound.append (hs : Sound cfg k touched strict rest s) (es : List Event)
    (hholders : RexlibCuda.holders (es ++ s.trace) = RexlibCuda.holders s.trace)
    (houtstanding : (RexlibCuda.outstanding (es ++ s.trace)).Perm
      (RexlibCuda.outstanding s.trace))
    (hbalanced : Balanced (es ++ s.trace)) (hreleased : ∀ h, .heapReleased h ∉ es)
    (hobserved : ∀ c, Observed (es ++ s.trace) c →
      Observed s.trace c ∨ Complete k (es ++ s.trace).length c) :
    Sound cfg k touched strict rest { s with trace := es ++ s.trace } where
  coherent := hs.coherent.weaken fun _ _ _ => ledger_mono (now_append es)
  held d hd x hx c hc := (hs.held d hd x hx c hc).mono (now_append es)
  observed c hc := (hobserved c hc).elim (fun h => (hs.observed c h).mono (now_append es)) id
  holders := hholders ▸ hs.holders
  balanced := hbalanced
  outstanding := houtstanding.trans hs.outstanding
  inside := hs.inside
  dead h trace htr := hs.dead h trace (suffix_of_append es htr (hreleased h))
  died h hh := (hs.died h hh).imp_right (List.mem_append_right es)

theorem Sound.asked (hs : Sound cfg k touched strict rest s) (henv : Truthful k env) {e : Event}
    (h : Answered env s.now e) : Sound cfg k touched strict rest (s.log e) := by
  refine hs.append [e] h.holders (.of_eq h.outstanding) (h.balanced hs.balanced) ?_ ?_
  · intro g hg
    exact h.not_heapReleased g (List.mem_singleton.mp hg).symm
  · intro c hc
    exact h.observed henv hc

/-- A change of the pool alone. -/
theorem Sound.pool (hs : Sound cfg k touched strict rest s)
    (hcoh : q.Coherent cfg.maxAlignment strict (ledger k touched s.now)
      (s.deferred.map Prod.fst ++ rest))
    (hev : s.pool.Evolves (s.deferred.map Prod.fst) q)
    (hheaps : q.heaps = s.pool.heaps) (hnext : q.nextHeap = s.pool.nextHeap) :
    Sound cfg k touched strict rest { s with pool := q } where
  coherent := hcoh
  held d hd x hx c hc := by
    have hrec := hev.block d.1 (List.mem_map_of_mem hd)
    simp only [MemoryBlockPool.extent, hrec] at hx hc
    exact hs.held d hd x hx c hc
  observed := hs.observed
  holders := hs.holders
  balanced := hs.balanced
  outstanding := by
    refine hs.outstanding.trans (.of_eq ?_)
    rw [hheaps]
    refine List.map_congr_left fun h hh => ?_
    have hlt := hs.coherent.wellFormed.heapsFresh h hh
    simp only [region, hev.heap h hlt]
  inside h x c hc := hev.inside (hs.inside h x c hc)
  dead h trace htr := (hs.dead h trace htr).evolves hev
  died := by
    intro h hh
    rw [hnext] at hh
    rw [hheaps]
    exact hs.died h hh

/-- A block goes back to the pool, from those held back or from outside. -/
theorem Sound.release (hs : Sound cfg k touched strict rest s) {token : CommandToken}
    {deferred : List PendingRelease}
    (hperm : (s.deferred.map Prod.fst ++ rest).Perm (b :: (deferred.map Prod.fst ++ rest')))
    (hsub : ∀ d ∈ deferred, d ∈ s.deferred)
    (hg : ∀ x, (s.pool.extent b).Has x →
      ledger k touched s.now token (s.pool.block b).heap x) :
    Sound cfg k touched strict rest' { s.release b token with deferred } := by
  have hcoh := hs.coherent.perm hperm
  have hframe := s.pool.release_frame b token
  have hnd := hcoh.accounted.nodup hcoh.wellFormed
  have hb : ∀ c ∈ deferred.map Prod.fst ++ rest', c ∉ [b] := by
    intro c hc hcb
    exact (List.nodup_cons.mp hnd).1 (List.mem_singleton.mp hcb ▸ hc)
  have hev : s.pool.Evolves (deferred.map Prod.fst ++ rest') (s.pool.release b token) :=
    hframe.evolves hb
  have hnow : s.now ≤ (s.release b token).now := Nat.le_succ _
  have hmem : b ∈ RexlibCuda.holders s.trace :=
    (hs.holders.trans hperm).mem_iff.mpr List.mem_cons_self
  exact
    { coherent := by
        refine (hcoh.release ledger_lasting ?_).weaken fun _ _ _ => ledger_mono hnow
        intro x hx
        rw [MemoryBlockPool.extent_setPending] at hx
        rw [MemoryBlockPool.setPending_pending, MemoryBlockPool.setPending_heap]
        exact hg x hx
      held := by
        intro d hd x hx c hc
        have hrec := hev.block d.1 (List.mem_append_left _ (List.mem_map_of_mem hd))
        have hx : ((s.pool.release b token).extent d.1).Has x := hx
        simp only [MemoryBlockPool.extent, hrec] at hx
        refine (hs.held d (hsub d hd) x hx c ?_).mono hnow
        exact hrec ▸ hc
      observed := by
        intro c hc
        refine (hs.observed c ?_).mono hnow
        exact hc.imp (fun h => by simpa [MemoryBlockAllocator.release, log] using h)
          (fun h => by simpa [MemoryBlockAllocator.release, log] using h)
      holders := by
        -- the hand-out of the block is over
        show ((RexlibCuda.holders s.trace).erase b).Perm _
        have := List.Perm.erase b (hs.holders.trans hperm)
        rwa [List.erase_cons_head] at this
      balanced := ⟨hmem, hs.balanced⟩
      outstanding := by
        refine hs.outstanding.trans (.of_eq ?_)
        show _ = (s.pool.release b token).heaps.map (region cfg (s.pool.release b token))
        rw [hframe.heaps]
        refine List.map_congr_left fun h hh => ?_
        simp only [region, hframe.heap]
      inside := fun h x c hc => hev.inside (hs.inside h x c hc)
      dead := by
        intro h trace htr
        refine (hs.dead h trace (suffix_of_append [.released b] htr ?_)).evolves hev
        simp
      died := by
        intro h hh
        have hh : h < (s.pool.release b token).nextHeap := hh
        rw [hframe.nextHeap] at hh
        show h ∈ (s.pool.release b token).heaps ∨ _
        rw [hframe.heaps]
        exact (hs.died h hh).imp_right (List.mem_cons_of_mem _) }

/-- Tokens that are settled need not be kept. -/
theorem Sound.dropped (hs : Sound cfg k touched strict rest s)
    {before after : List PendingRelease} {tokens left : List CommandToken}
    (hat : s.deferred = before ++ (b, tokens) :: after)
    (hkept : ∀ t ∈ tokens, t ∈ left ∨ Settled s.trace t) :
    Sound cfg k touched strict rest { s with deferred := before ++ (b, left) :: after } := by
  have hfst : (before ++ (b, left) :: after).map Prod.fst = s.deferred.map Prod.fst := by
    simp [hat]
  exact
    { coherent := by
        show s.pool.Coherent _ _ _ ((before ++ (b, left) :: after).map Prod.fst ++ rest)
        rw [hfst]
        exact hs.coherent
      held := by
        intro d hd x hx c hc
        have hold : ∀ d' ∈ s.deferred, d'.1 = d.1 → Covered k s.now d'.2 c := by
          intro d' hd' heq
          rw [← heq] at hx hc
          exact hs.held d' hd' x hx c hc
        rcases List.mem_append.mp hd with hmem | hmem
        · exact hold d (by simp [hat, hmem]) rfl
        · rcases List.mem_cons.mp hmem with rfl | hmem
          · -- a token that was dropped is settled
            apply (hold (b, tokens) (by simp [hat]) rfl).exchange
            intro t ht e he
            rcases hkept t ht with ht | ht
            · exact .of_mem ht (Option.mem_def.mp he ▸ Covers.self e)
            · obtain ⟨f, hf, htl, hid⟩ := ht e he
              exact .inl ((hs.observed f hf).earlier htl hid)
          · exact hold d (by simp [hat, hmem]) rfl
      observed := hs.observed
      holders := by
        show (RexlibCuda.holders s.trace).Perm
          ((before ++ (b, left) :: after).map Prod.fst ++ rest)
        rw [hfst]
        exact hs.holders
      balanced := hs.balanced
      outstanding := hs.outstanding
      inside := hs.inside
      dead := hs.dead
      died := hs.died }

theorem Sound.released (hs : Sound cfg k touched strict rest s)
    {before after : List PendingRelease} {tokens : List CommandToken} {token : CommandToken}
    (hat : s.deferred = before ++ (b, tokens) :: after)
    (hkept : ∀ t ∈ tokens, t = token ∨ Settled s.trace t) :
    Sound cfg k touched strict rest { s.release b token with deferred := before ++ after } := by
  refine hs.release ?_ ?_ ?_
  · rw [hat]
    simp
  · intro d hd
    rw [hat]
    exact (List.mem_append.mp hd).elim (List.mem_append_left _)
      fun h => List.mem_append_right _ (List.mem_cons_of_mem _ h)
  · intro x hx c hc
    apply (hs.held (b, tokens) (by simp [hat]) x hx c hc).exchange
    intro t ht e he
    rcases hkept t ht with rfl | ht
    · exact .of_mem List.mem_cons_self (Option.mem_def.mp he ▸ Covers.self e)
    · obtain ⟨f, hf, htl, hid⟩ := ht e he
      exact .inl ((hs.observed f hf).earlier htl hid)

theorem Sound.partitioned (hs : Sound cfg k touched strict rest s) (hr : strict → 0 < r)
    {remainder : Nat} (hfree : b ∈ s.pool.freeBlocks)
    (hsize : r + remainder = (s.pool.block b).size) (hleft : 0 < remainder)
    (hal : cfg.maxAlignment ∣ r) :
    Sound cfg k touched strict rest
      { s with pool := (s.pool.partitionBlock b r remainder).2 } := by
  have hwf := hs.coherent.wellFormed
  have hal' : cfg.maxAlignment ∣ remainder := by
    have h := (hwf.aligned b (hwf.freeSub b hfree)).2
    rw [← hsize] at h
    exact (Nat.dvd_add_right hal).mp h
  have hev := hs.coherent.accounted.partition_evolves hwf hfree r remainder
  refine hs.pool ?_ (hev.subset fun c => List.mem_append_left _) rfl rfl
  exact hs.coherent.partitionBlock hwf hfree hsize hal hal' fun h => ⟨hr h, hleft⟩

theorem Sound.reset (hs : Sound cfg k touched strict rest s)
    (hsettled : ∀ b ∈ s.pool.freeBlocks, Settled s.trace (s.pool.block b).pending) :
    Sound cfg k touched strict rest { s with pool := s.pool.resetPending } := by
  have hwf := hs.coherent.wellFormed
  have hframe := MemoryBlockPool.resetPending_frame hwf
  have hev := hframe.evolves fun b hb => hs.coherent.accounted.not_free hwf hb
  refine hs.pool ?_ (hev.subset fun c => List.mem_append_left _) hframe.heaps hframe.nextHeap
  apply hs.coherent.resetPending ledger_lasting
  intro b hb x hx
  exact ledger_settled hs.observed (hsettled b hb) (hs.coherent.guarded b hb x hx)

theorem quiet_spec {hosts : List Event} (hquiet : ∀ e ∈ hosts, ∃ granted, e = .hostAllocate granted)
    (trace : List Event) :
    RexlibCuda.holders (hosts ++ trace) = RexlibCuda.holders trace ∧
      RexlibCuda.outstanding (hosts ++ trace) = RexlibCuda.outstanding trace ∧
      (Balanced (hosts ++ trace) ↔ Balanced trace) ∧
      (∀ h, .heapReleased h ∉ hosts) ∧
      ∀ c, Observed (hosts ++ trace) c → Observed trace c := by
  induction hosts with
  | nil => simp
  | cons e hosts ih =>
      obtain ⟨granted, rfl⟩ := hquiet e List.mem_cons_self
      obtain ⟨hh, ho, hb, hr, hobs⟩ := ih fun e he => hquiet e (List.mem_cons_of_mem _ he)
      refine ⟨hh, ho, hb, ?_, ?_⟩
      · intro h hmem
        rcases List.mem_cons.mp hmem with hmem | hmem
        · cases hmem
        · exact hr h hmem
      · intro c hc
        refine hobs c (hc.imp ?_ ?_)
        · intro h
          simpa using h
        · intro h
          simpa using h

/-- Host allocations change nothing. -/
theorem Sound.quiet (hs : Sound cfg k touched strict rest s) {hosts : List Event}
    (hquiet : ∀ e ∈ hosts, ∃ granted, e = .hostAllocate granted) :
    Sound cfg k touched strict rest { s with trace := hosts ++ s.trace } := by
  obtain ⟨hh, ho, hb, hr, hobs⟩ := quiet_spec hquiet s.trace
  exact hs.append hosts hh (.of_eq ho) (hb.mpr hs.balanced) hr fun c hc => .inl (hobs c hc)

/-- What the source is owed once a heap has joined the pool. -/
theorem region_addHeap {A : Nat} (hwf : s.pool.WellFormed A strict) (heap : MemoryHeap) :
    ((s.pool.heaps ++ [s.pool.nextHeap]).map (region cfg (s.pool.addHeap heap))).Perm
      ((heap.allocation, regionBytes cfg heap.size) :: s.pool.heaps.map (region cfg s.pool)) := by
  have hold : s.pool.heaps.map (region cfg (s.pool.addHeap heap))
      = s.pool.heaps.map (region cfg s.pool) := by
    refine List.map_congr_left fun h hh => ?_
    have hne := Nat.ne_of_lt (hwf.heapsFresh h hh)
    simp only [region, MemoryBlockPool.addHeap_heap_of_ne hne]
  have hnew : region cfg (s.pool.addHeap heap) s.pool.nextHeap
      = (heap.allocation, regionBytes cfg heap.size) := by
    simp only [region, MemoryBlockPool.addHeap_heap]
  rw [List.map_append, hold, List.map_singleton, hnew]
  exact List.perm_append_singleton _ _

/-- A region the source has given is a heap of the pool. -/
theorem Sound.grew (hs : Sound cfg k touched strict rest s) {allocation size : Nat}
    (hsize : 0 < size ∧ size < 2 ^ 64) (hal : cfg.maxAlignment ∣ size) :
    Sound cfg k touched strict rest
      { s with
        pool := (s.pool.registerHeap
          ⟨allocation, alignCeil allocation cfg.maxAlignment, size⟩).2
        trace := .sourceAllocate (regionBytes cfg size) (.region allocation) :: s.trace } := by
  have hwf := hs.coherent.wellFormed
  have hev := hs.coherent.accounted.register_evolves hwf
    ⟨allocation, alignCeil allocation cfg.maxAlignment, size⟩
  have hnow : s.now ≤ s.now + 1 := Nat.le_succ _
  exact
    { coherent := by
        refine (hs.coherent.registerHeap hwf hsize hal ?_).weaken fun _ _ _ => ledger_mono hnow
        -- nothing can have touched a heap that has only just been named
        intro x _ c hc
        exact absurd (hs.inside _ x c hc).1 (Nat.lt_irrefl _)
      held := by
        intro d hd x hx c hc
        have hrec := hev.block d.1 (List.mem_append_left _ (List.mem_map_of_mem hd))
        have hx : (MemoryBlockPool.extent _ d.1).Has x := hx
        simp only [MemoryBlockPool.extent, hrec] at hx hc
        exact (hs.held d hd x hx c hc).mono hnow
      observed := by
        intro c hc
        refine (hs.observed c ?_).mono hnow
        exact hc.imp (fun h => by simpa using h) (fun h => by simpa using h)
      holders := hs.holders
      balanced := hs.balanced
      outstanding := by
        show ((allocation, regionBytes cfg size) :: RexlibCuda.outstanding s.trace).Perm
          ((s.pool.heaps ++ [s.pool.nextHeap]).map (region cfg (s.pool.addHeap _)))
        exact (hs.outstanding.cons _).trans (region_addHeap hwf
          ⟨allocation, alignCeil allocation cfg.maxAlignment, size⟩).symm
      inside := fun h x c hc => hev.inside (hs.inside h x c hc)
      dead := by
        intro h trace htr
        refine (hs.dead h trace (suffix_of_append [_] htr ?_)).evolves hev
        simp
      died := by
        intro h hh
        rcases Nat.lt_succ_iff_lt_or_eq.mp hh with hh | rfl
        · rcases hs.died h hh with hh | hh
          · exact .inl (List.mem_append_left _ hh)
          · exact .inr (List.mem_cons_of_mem _ hh)
        · exact .inl (List.mem_append_right _ List.mem_cons_self) }

theorem Sound.declined (hs : Sound cfg k touched strict rest s) {allocation bytes : Nat}
    {hosts : List Event} (hquiet : ∀ e ∈ hosts, ∃ granted, e = .hostAllocate granted) :
    Sound cfg k touched strict rest
      { s with trace := .sourceDeallocate allocation bytes ::
          (hosts ++ .sourceAllocate bytes (.region allocation) :: s.trace) } := by
  obtain ⟨hh, ho, hb, hr, hobs⟩ :=
    quiet_spec hquiet (.sourceAllocate bytes (.region allocation) :: s.trace)
  have h := hs.append
    (.sourceDeallocate allocation bytes :: hosts ++ [.sourceAllocate bytes (.region allocation)])
    (by simpa [RexlibCuda.holders] using hh)
    (by simp [RexlibCuda.outstanding, ho]) (by simpa [Balanced] using hb.mpr hs.balanced)
    (by intro h; simpa using hr h)
    (by
      intro c hc
      refine .inl ?_
      have := hobs c (by simpa [Observed] using hc)
      simpa [Observed] using this)
  simpa using h

/-- A heap that is one free block with an empty token is done with, and nobody
has any of it. -/
theorem Sound.dies (hs : Sound cfg k touched strict rest s) (hfree : b ∈ s.pool.freeBlocks)
    (hempty : (s.pool.block b).pending = none) (hwhole : s.pool.isPartition b = false) :
    Dead k touched (s.pool.eraseHeap b) s.trace (s.pool.block b).heap := by
  have hwf := hs.coherent.wellFormed
  have hbb := hwf.freeSub b hfree
  obtain ⟨hoffset, hsize, hother, -⟩ := hwf.whole hbb hwhole
  obtain ⟨hheap, -, -⟩ := hwf.inside hbb
  exact
    { below := hwf.heapsFresh _ hheap
      gone := hwf.heapsNodup.not_mem_erase
      complete := by
        intro x c hc
        -- the block spans the heap, so its token speaks for every byte
        have hx : (s.pool.extent b).Has x := by
          have hlt := (hs.inside _ x c hc).2
          simp only [MemoryBlockPool.extent, Tiling.Extent.Has]
          omega
        have hcov := hs.coherent.guarded b hfree x hx c hc
        rw [hempty] at hcov
        exact covered_none.mp hcov
      unheld := by
        intro c hc
        have hheld := hs.holders.mem_iff.mp hc
        have hmem := hs.coherent.accounted.mem hheld
        have hcb : c ≠ b := by
          rintro rfl
          exact hs.coherent.accounted.not_free hwf hheld hfree
        exact ⟨hwf.fresh c hmem, hother c hmem hcb⟩ }

/-- A heap that is one free block with an empty token goes back to the source. -/
theorem Sound.destroyed (hs : Sound cfg k touched strict rest s) (hfree : b ∈ s.pool.freeBlocks)
    (hempty : (s.pool.block b).pending = none) (hwhole : s.pool.isPartition b = false) :
    Sound cfg k touched strict rest
      (giveBack cfg (s.pool.heap (s.pool.block b).heap)
        ({ s with pool := s.pool.eraseHeap b }.log (.heapReleased (s.pool.block b).heap))) := by
  have hwf := hs.coherent.wellFormed
  obtain ⟨hheap, -, -⟩ := hwf.inside (hwf.freeSub b hfree)
  have hev : s.pool.Evolves (s.deferred.map Prod.fst ++ rest) (s.pool.eraseHeap b) :=
    MemoryBlockPool.eraseHeap_evolves
  have hnow : s.now ≤ s.now + 2 := Nat.le_add_right _ _
  have hlen : ∀ c, Observed (.sourceDeallocate
      (s.pool.heap (s.pool.block b).heap).allocation
      (regionBytes cfg (s.pool.heap (s.pool.block b).heap).size) ::
        .heapReleased (s.pool.block b).heap :: s.trace) c → Observed s.trace c := by
    intro c hc
    exact hc.imp (fun h => by simpa using h) (fun h => by simpa using h)
  exact
    { coherent :=
        (hs.coherent.eraseHeap hwf hfree hwhole).weaken fun _ _ _ => ledger_mono hnow
      held := fun d hd x hx c hc => (hs.held d hd x hx c hc).mono hnow
      observed := fun c hc => (hs.observed c (hlen c hc)).mono hnow
      holders := hs.holders
      balanced := hs.balanced
      outstanding := by
        show ((RexlibCuda.outstanding s.trace).erase (region cfg s.pool (s.pool.block b).heap)).Perm
          ((s.pool.heaps.erase (s.pool.block b).heap).map (region cfg s.pool))
        have h := hs.outstanding.trans ((List.perm_cons_erase hheap).map (region cfg s.pool))
        have := List.Perm.erase (region cfg s.pool (s.pool.block b).heap) h
        rwa [List.map_cons, List.erase_cons_head] at this
      inside := hs.inside
      dead := by
        intro h trace htr
        have htr := suffix_of_append [.sourceDeallocate _ _] htr (by simp)
        rcases List.suffix_cons_iff.mp htr with heq | htr
        · -- the heap that dies now
          obtain ⟨hh, rfl⟩ := List.cons.inj heq
          obtain rfl : h = (s.pool.block b).heap := Event.heapReleased.inj hh
          exact hs.dies hfree hempty hwhole
        · exact (hs.dead h trace htr).evolves hev
      died := by
        intro h hh
        rcases hs.died h hh with hh | hh
        · by_cases heq : h = (s.pool.block b).heap
          · -- the heap that dies now is in the trace
            subst heq
            exact .inr (List.mem_cons_of_mem _ List.mem_cons_self)
          · exact .inl ((List.mem_erase_of_ne heq).mpr hh)
        · exact .inr (List.mem_cons_of_mem _ (List.mem_cons_of_mem _ hh)) }

/-- **Every step keeps the invariant.** -/
theorem Sound.internal (hs : Sound cfg k touched strict rest s) (henv : Truthful k env)
    (hr : strict → 0 < r) (h : Internal cfg env patient r s t) :
    Sound cfg k touched strict rest t := by
  cases h with
  | asked answered _ => exact hs.asked henv answered
  | grew hosts quiet sized aligned => exact (hs.grew sized aligned).quiet quiet
  | declined hosts quiet => exact hs.declined quiet
  | dropped at_ kept => exact hs.dropped at_ kept
  | released at_ kept => exact hs.released at_ kept
  | partitioned free sized left aligned => exact hs.partitioned hr free sized left aligned
  | reset settled => exact hs.reset settled
  | destroyed free empty whole => exact hs.destroyed free empty whole

/-- What comes after a step: the blocks that are handed out or lost are left
alone, and none is added to them. -/
structure Passes (rest : List BlockId) (s t : MemoryBlockAllocator) : Prop where
  evolves : s.pool.Evolves rest t.pool
  trace : s.trace <:+ t.trace
  lost : lostBlocks t.trace = lostBlocks s.trace

theorem Passes.now (h : Passes rest s t) : s.now ≤ t.now := h.trace.length_le

theorem quiet_lost {hosts : List Event} (hquiet : ∀ e ∈ hosts, ∃ granted, e = .hostAllocate granted)
    (trace : List Event) : lostBlocks (hosts ++ trace) = lostBlocks trace := by
  induction hosts with
  | nil => rfl
  | cons e hosts ih =>
      obtain ⟨granted, rfl⟩ := hquiet e List.mem_cons_self
      exact ih fun e he => hquiet e (List.mem_cons_of_mem _ he)

theorem Sound.passes (hs : Sound cfg k touched strict rest s) (h : Internal cfg env patient r s t) :
    Passes rest s t := by
  have hwf := hs.coherent.wellFormed
  have hacc := hs.coherent.accounted
  have hsub : ∀ b ∈ rest, b ∈ s.deferred.map Prod.fst ++ rest := fun b =>
    List.mem_append_right _
  cases h with
  | asked answered _ => exact ⟨.refl, List.suffix_cons .., answered.lostBlocks⟩
  | grew hosts quiet sized aligned =>
      refine ⟨(hacc.register_evolves hwf _).subset hsub, ?_, quiet_lost quiet _⟩
      exact (List.suffix_cons ..).trans (List.suffix_append ..)
  | declined hosts quiet =>
      refine ⟨.refl, ?_, quiet_lost quiet _⟩
      exact ((List.suffix_cons ..).trans (List.suffix_append ..)).trans (List.suffix_cons ..)
  | dropped at_ kept => exact ⟨.refl, List.suffix_rfl, rfl⟩
  | released at_ kept =>
      have hacc := hs.deferred_accounted at_
      refine ⟨(s.pool.release_frame _ _).evolves ?_, List.suffix_cons .., rfl⟩
      intro c hc hcb
      have hnd := hacc.nodup hwf
      rw [List.mem_singleton.mp hcb] at hc
      exact (List.nodup_cons.mp hnd).1 (List.mem_append_right _ hc)
  | partitioned free sized left aligned =>
      exact ⟨(hacc.partition_evolves hwf free _ _).subset hsub, List.suffix_rfl, rfl⟩
  | reset settled =>
      refine ⟨(MemoryBlockPool.resetPending_frame hwf).evolves ?_, List.suffix_rfl, rfl⟩
      exact fun b hb => hacc.not_free hwf (hsub b hb)
  | destroyed free empty whole =>
      refine ⟨MemoryBlockPool.eraseHeap_evolves, ?_, rfl⟩
      exact (List.suffix_cons ..).trans (List.suffix_cons ..)

theorem Passes.trans (h : Passes rest s t) {u : MemoryBlockAllocator} (h' : Passes rest t u) :
    Passes rest s u :=
  ⟨h.evolves.trans h'.evolves, h.trace.trans h'.trace, h'.lost.trans h.lost⟩

theorem Sound.run (hs : Sound cfg k touched strict rest s) (henv : Truthful k env)
    (hr : strict → 0 < r) (h : ReflTransGen (Internal cfg env patient r) s t) :
    Sound cfg k touched strict rest t ∧ Passes rest s t := by
  induction h with
  | refl => exact ⟨hs, .refl, List.suffix_rfl, rfl⟩
  | tail _ hstep ih =>
      obtain ⟨ht, hpasses⟩ := ih
      exact ⟨ht.internal henv hr hstep, hpasses.trans (ht.passes hstep)⟩

/-- What every step keeps, given the invariant, a run keeps. -/
theorem Sound.run_invariant {I : MemoryBlockAllocator → Prop}
    (hs : Sound cfg k touched strict rest s) (henv : Truthful k env) (hr : strict → 0 < r)
    (hstep : ∀ t u, Sound cfg k touched strict rest t → Internal cfg env patient r t u → I t → I u)
    (hrun : ReflTransGen (Internal cfg env patient r) s t) (h : I s) : I t := by
  induction hrun with
  | refl => exact h
  | tail hrun huv ih => exact hstep _ _ (hs.run henv hr hrun).1 huv ih

theorem Internal.waits (h : Internal cfg env patient r s t) :
    ∃ es, t.trace = es ++ s.trace ∧ ∀ e ∈ es, e.IsWait → patient := by
  have hquiet : ∀ hosts : List Event, (∀ e ∈ hosts, ∃ granted, e = Event.hostAllocate granted) →
      ∀ e ∈ hosts, e.IsWait → patient := by
    intro hosts hquiet e he hwait
    obtain ⟨granted, rfl⟩ := hquiet e he
    exact hwait.elim
  cases h with
  | @asked e answered waits => exact ⟨[e], rfl, by simpa using waits⟩
  | @grew allocation size hosts quiet sized aligned =>
      refine ⟨hosts ++ [.sourceAllocate (regionBytes cfg size) (.region allocation)], by simp, ?_⟩
      intro e he
      rcases List.mem_append.mp he with he | he
      · exact hquiet hosts quiet e he
      · rw [List.mem_singleton.mp he]
        exact False.elim
  | @declined allocation bytes hosts quiet =>
      refine ⟨.sourceDeallocate allocation bytes ::
        (hosts ++ [.sourceAllocate bytes (.region allocation)]), by simp, ?_⟩
      intro e he
      rcases List.mem_cons.mp he with rfl | he
      · exact False.elim
      · rcases List.mem_append.mp he with he | he
        · exact hquiet hosts quiet e he
        · rw [List.mem_singleton.mp he]
          exact False.elim
  | dropped at_ kept => exact ⟨[], rfl, by simp⟩
  | @released before after b tokens token at_ kept => exact ⟨[.released b], rfl, by simp [Event.IsWait]⟩
  | partitioned free sized left aligned => exact ⟨[], rfl, by simp⟩
  | reset settled => exact ⟨[], rfl, by simp⟩
  | destroyed free empty whole => exact ⟨[_, _], rfl, by simp [Event.IsWait]⟩

/-- Steps that are not patient wait for nothing. -/
theorem Internal.waits_run (h : ReflTransGen (Internal cfg env patient r) s t) :
    ∃ es, t.trace = es ++ s.trace ∧ ∀ e ∈ es, e.IsWait → patient := by
  induction h with
  | refl => exact ⟨[], rfl, by simp⟩
  | tail _ hstep ih =>
      obtain ⟨es, htrace, hes⟩ := ih
      obtain ⟨es', htrace', hes'⟩ := hstep.waits
      refine ⟨es' ++ es, by rw [htrace', htrace, List.append_assoc], ?_⟩
      intro e he
      exact (List.mem_append.mp he).elim (hes' e) (hes e)

end Sound

end MemoryBlockAllocator

end RexlibCuda
