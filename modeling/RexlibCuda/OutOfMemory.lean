import RexlibCuda.AllocatorSession

/-! When `memory_block_allocator::allocate` reports that there is no memory,
and when it waits. Here the host has memory for the bookkeeping and the
timelines answer; only the source may refuse. -/

namespace RexlibCuda

open Completion Prog Tiling

open Relation (ReflTransGen)

/-- Nothing but the source of the memory ever refuses. -/
structure Obliging (env : Environment) : Prop where
  hostAllocate : ∀ n, env.hostAllocate n = true
  isComplete : ∀ n c, (env.isComplete n c).isSome
  wait : ∀ n c, env.wait n c = true

namespace MemoryBlockAllocator

variable {cfg : Config} {env : Environment} {r : Nat} {k : Clock Timeline}
  {touched : HeapId → Nat → Command → Prop} {strict patient : Prop} {rest : List BlockId}
  {s t u : MemoryBlockAllocator} {b : BlockId}

section Obliging

variable (ho : Obliging env)

include ho

/-! ## What cannot throw -/

theorem hostAllocate_returns (s : MemoryBlockAllocator) : Returns (hostAllocate env) s := by
  rw [Returns, wp_hostAllocate, if_pos (ho.hostAllocate s.now)]
  trivial

theorem isComplete_returns (token : CommandToken) (s : MemoryBlockAllocator) :
    Returns (isComplete env token) s := by
  cases token with
  | none => exact .pure
  | some command =>
      obtain ⟨complete, hanswer⟩ := Option.isSome_iff_exists.mp (ho.isComplete s.now command)
      simp only [Returns, isComplete, wp_bind, wp_ask, hanswer, wp_pure]

theorem wait_returns (token : CommandToken) (s : MemoryBlockAllocator) :
    Returns (wait env token) s := by
  cases token with
  | none => exact .pure
  | some command =>
      simp only [Returns, wait, wp_bind, wp_ask, ho.wait, if_true, wp_pure]

theorem queryAll_returns (tokens : List CommandToken) (s : MemoryBlockAllocator) :
    Returns (queryAll env tokens) s := by
  induction tokens generalizing s with
  | nil => exact .pure
  | cons token tokens ih =>
      apply (isComplete_returns ho token s).bind
      intro _ t
      exact (ih t).bind fun _ _ => .pure

theorem dropLoop_returns (items : List PendingRelease) :
    ∀ (done : List PendingRelease) (s : MemoryBlockAllocator),
      Returns (dropLoop cfg env done items) s := by
  induction items with
  | nil => exact fun _ _ => .pure
  | cons item items ih =>
      intro done s
      obtain ⟨b, tokens⟩ := item
      have hflags : ∀ t, Returns (completionFlags cfg env tokens.length) t := by
        intro t
        unfold completionFlags
        split
        · exact hostAllocate_returns ho t
        · exact .pure
      have hdrop : Returns (dropCompleteTokens cfg env tokens) s := by
        apply (hflags s).bind
        intro _ t
        exact (queryAll_returns ho tokens t).bind fun _ _ => .pure
      apply hdrop.bind
      intro left t
      exact Returns.modify.bind fun _ u => ih _ u

theorem process_returns (s : MemoryBlockAllocator) : Returns (process cfg env) s :=
  (dropLoop_returns ho s.deferred [] s).bind fun _ _ => .modify

theorem waitAll_returns (s : MemoryBlockAllocator) : Returns (waitAll env) s := by
  refine Returns.forEach ?_ s.deferred s
  intro item t
  apply (Returns.forEach (wait_returns ho) item.2 t).bind
  exact fun _ _ => .modify

theorem trimLocked_returns (henv : Truthful k env) (hs : Sound cfg k touched strict rest s) :
    Returns (trimLocked cfg env) s := by
  have hwait : Tracks (Internal cfg env True 1) (waitAll env) _ s := waitAll_tracks trivial s
  rw [Returns, trimLocked, wp_bind]
  refine wp_mono ((waitAll_returns ho s).and hwait) ?_ fun _ _ h => h
  intro _ t ht
  have ht := (hs.run henv (fun _ => Nat.one_pos) ht.1).1
  obtain ⟨tokens, htokens, -⟩ := ht.pendingTokens
  have hpending : Returns (enumeratePending env) t := by
    simp only [Returns, enumeratePending, wp_bind, wp_get, htokens, wp_pure]
    exact Returns.forEach (fun _ => hostAllocate_returns ho) tokens t
  apply hpending.bind
  intro pending u
  apply (Returns.forEach (wait_returns ho) pending u).bind
  intro _ v
  exact Returns.modify.bind fun _ _ => trivial

theorem cutTo_returns (r : Nat) (b : BlockId) (s : MemoryBlockAllocator) :
    Returns (cutTo env r b) s := by
  show Returns (if sizeSub (s.pool.block b).size r > 0 then partitionBlock env b r _ else pure b) s
  split
  · exact (hostAllocate_returns ho s).bind fun _ _ => trivial
  · exact .pure

/-! ## What is left when no memory could be had -/

/-- The source has just refused a heap of `size` bytes, and nothing else has
changed. -/
def Refused (cfg : Config) (size : Nat) (s t : MemoryBlockAllocator) : Prop :=
  ∃ es, t = { s with
    trace := .sourceAllocate (regionBytes cfg size) .refused :: (es ++ s.trace) }

omit ho in
theorem Refused.sees (h : Refused cfg r t u) (hst : Sees s t) : Refused cfg r s u := by
  obtain ⟨es, rfl⟩ := hst
  obtain ⟨es', rfl⟩ := h
  exact ⟨es' ++ es, by simp⟩

omit ho in
theorem Refused.toSees (h : Refused cfg r s t) : Sees s t := by
  obtain ⟨es, rfl⟩ := h
  exact ⟨.sourceAllocate (regionBytes cfg r) .refused :: es, rfl⟩

theorem takeHeap_refused (size : Nat) (s : MemoryBlockAllocator) :
    wp (do
        let heap ← makeHeap cfg env size cfg.maxAlignment
        registerHeap cfg env (some heap))
      (fun _ _ => True) (fun e t => e = .badAlloc → Refused cfg size s t) s := by
  simp only [makeHeap, wp_bind, wp_hostAllocate, ho.hostAllocate, if_true, wp_ite, wp_throw,
    wp_ask]
  split
  · intro h
    cases h
  · generalize env.sourceAllocate _ _ = answer
    cases answer with
    | region allocation =>
        simp only [wp_pure, registerHeap, wp_bind, wp_tryCatch, wp_hostAllocate,
          ho.hostAllocate, if_true, wp_get, wp_modify]
    | refused => exact fun _ => ⟨[.hostAllocate true], rfl⟩
    | failed =>
        intro h
        cases h

/-- When `grow` finds no memory, the last it asked for was the least it could
do with. -/
theorem growLoop_refused {size : Nat} (fuel : Nat) :
    ∀ (heapSize : Nat) (s : MemoryBlockAllocator), size ≤ heapSize →
      wp (growLoop cfg env size fuel heapSize) (fun _ _ => True)
        (fun e t => e = .badAlloc → Refused cfg size s t) s := by
  induction fuel with
  | zero =>
      intro heapSize s hle h
      cases h
  | succ fuel ih =>
      intro heapSize s hle
      simp only [growLoop, wp_tryCatch]
      apply wp_mono (takeHeap_refused ho heapSize s) (fun _ _ h => h)
      intro e t hrefused
      cases e with
      | badAlloc =>
          show wp (if heapSize ≤ size then Prog.throw Exn.badAlloc else _) _ _ t
          split
          · -- what was refused was the least that would do
            rename_i hge
            obtain rfl : heapSize = size := Nat.le_antisymm hge hle
            exact hrefused
          · apply wp_mono (ih _ t (Nat.le_max_left _ _)) (fun _ _ h => h)
            intro e u h he
            exact (h he).sees (hrefused rfl).toSees
      | _ =>
          intro h
          cases h

theorem grow_refused {size : Nat} (hsize : size < 2 ^ 64) (hal : cfg.maxAlignment ∣ size)
    (s : MemoryBlockAllocator) :
    wp (grow cfg env size) (fun _ _ => True)
      (fun e t => e = .badAlloc → Refused cfg size s t) s :=
  growLoop_refused ho env.fuel _ s (getHeapSize_spec s.pool.getSize hsize hal).1

/-- **Nothing is left that could be handed out**: the pool of `s` has been
trimmed, nothing in it fits, and then the source refused what was asked for. -/
structure Exhausted (cfg : Config) (env : Environment) (r : Nat) (s a : MemoryBlockAllocator) :
    Prop where
  refused : ∃ n t, trim cfg env s = (.ok n, t) ∧ Refused cfg r t a
  deferred : a.deferred = []
  trimmed : a.pool.Trimmed
  fits : ∀ b ∈ a.pool.freeBlocks, (a.pool.block b).size < r

variable (henv : Truthful k env) (hr : strict → 0 < r) (hlt : r < 2 ^ 64)
  (hal : cfg.maxAlignment ∣ r) {timeline : Option Timeline}
  (hs : Sound cfg k touched strict rest s)

include henv hr hlt hal hs

theorem retry_exhausted :
    wp (retry cfg env r timeline) (fun _ _ => True)
      (fun e a => e = .badAlloc → Exhausted cfg env r s a) s := by
  have htrim : Tracks (Internal cfg env True r) (trimLocked cfg env) _ s :=
    trimLocked_tracks trivial hs henv hr
  have hreturns : Returns (trimLocked cfg env) s := trimLocked_returns ho henv hs
  have hcall := hreturns.and (wp_and (wp_run (trimLocked cfg env) s) htrim)
  simp only [retry, wp_bind, wp_get]
  refine wp_mono hcall ?_ fun _ _ h => h.elim
  intro n t h
  obtain ⟨hcall, hrun, hdeferred, htrimmed⟩ := h
  have ht := (hs.run henv hr hrun).1
  cases hfind : t.pool.findSuitableBlock r timeline with
  | some b => trivial
  | none =>
      apply wp_mono (grow_refused ho hlt hal t) (fun _ _ h => h)
      intro e a hrefused he
      have hrefused := hrefused he
      have hpool := hrefused.toSees.pool
      refine ⟨⟨n, t, hcall, hrefused⟩, ?_, ?_, ?_⟩
      · rw [hrefused.toSees.deferred, hdeferred]
      · rw [hpool]
        exact htrimmed
      · intro b hb
        rw [hpool] at hb ⊢
        exact ht.coherent.sorted.findSuitableBlock_none hfind hb (htrimmed.unbound b hb)

theorem chooseBlock_exhausted :
    wp (chooseBlock cfg env r timeline) (fun _ _ => True)
      (fun e a => e = .badAlloc → ∃ t, Refused cfg r s t ∧ Exhausted cfg env r t a) s := by
  apply hs.wp_chooseBlock
  · exact fun _ _ _ _ => trivial
  · intro _ _
    have hgrow : Tracks (Internal cfg env True r) (grow cfg env r) _ s := grow_tracks hlt hal
    apply wp_mono (wp_and hgrow (grow_refused ho hlt hal s)) (fun _ _ _ => trivial)
    intro e t h
    obtain ⟨hst, hrefused⟩ := h
    constructor
    · intro hbad
      apply wp_mono (retry_exhausted ho henv hr hlt hal (hs.run henv hr hst).1) fun _ _ h => h
      exact fun _ a h he => ⟨t, hrefused hbad, h he⟩
    · exact fun hne heq => absurd heq hne

/-- `allocate` reports that there is no memory only once nothing is left: the
least that would do was refused, and once more after a trim. -/
theorem allocate_exhausted {size alignment : Nat}
    (hsize : alignCeil (max size 1) cfg.maxAlignment = r) :
    wp (allocate cfg env size alignment timeline) (fun _ _ => True)
      (fun e a => e = .badAlloc → ∃ t u, process cfg env s = (.ok (), t) ∧ Refused cfg r t u
        ∧ Exhausted cfg env r u a) s := by
  apply hs.wp_allocate henv hr (P := fun t => process cfg env s = (.ok (), t))
  · intro _ what h
    cases h
  · exact wp_mono ((process_returns ho s).and (wp_run (process cfg env) s)) (fun _ _ h => h)
      fun _ _ h => h.elim
  · intro t (_ : ReflTransGen (Internal cfg env True r) s t) ht hprocessed
    simp only [hsize, acquireBlock, wp_bind]
    refine wp_mono (chooseBlock_exhausted ho henv hr hlt hal ht) ?_ ?_
    · intro b u _
      exact wp_mono (cutTo_returns ho r b u) (fun _ _ _ => trivial) fun _ _ h => h.elim
    · intro e a h he
      obtain ⟨u, hrefused, hexhausted⟩ := h he
      exact ⟨t, u, hprocessed, hrefused, hexhausted⟩

end Obliging

/-! ## Waiting -/

/-- Nothing is waited for as long as the source has not refused the least that
would do. -/
def Patience (cfg : Config) (r : Nat) (s t : MemoryBlockAllocator) : Prop :=
  ∃ es, t.trace = es ++ s.trace ∧
    (.sourceAllocate (regionBytes cfg r) .refused ∉ es → ∀ e ∈ es, ¬ e.IsWait)

theorem Patience.refl : Patience cfg r s s := ⟨[], rfl, by simp⟩

theorem Patience.trans (h : Patience cfg r s t) (h' : Patience cfg r t u) :
    Patience cfg r s u := by
  obtain ⟨es, htrace, hes⟩ := h
  obtain ⟨es', htrace', hes'⟩ := h'
  refine ⟨es' ++ es, by rw [htrace', htrace, List.append_assoc], ?_⟩
  intro hrefused e he
  rw [List.mem_append, not_or] at hrefused
  exact (List.mem_append.mp he).elim (hes' hrefused.1 e) (hes hrefused.2 e)

theorem Patience.run (h : ReflTransGen (Internal cfg env False r) s t) : Patience cfg r s t := by
  obtain ⟨es, htrace, hes⟩ := Internal.waits_run h
  exact ⟨es, htrace, fun _ => hes⟩

/-- Once the source has refused that much, everything goes. -/
theorem Patience.refused (h : Refused cfg r s t) (h' : t.trace <:+ u.trace) :
    Patience cfg r s u := by
  obtain ⟨es, rfl⟩ := h
  obtain ⟨es', htrace⟩ := h'
  refine ⟨es' ++ .sourceAllocate (regionBytes cfg r) .refused :: es, by simp [← htrace], ?_⟩
  intro hrefused
  simp at hrefused

section Patience

variable (ho : Obliging env) (henv : Truthful k env) (hr : strict → 0 < r) (hlt : r < 2 ^ 64)
  (hal : cfg.maxAlignment ∣ r) {timeline : Option Timeline}
  (hs : Sound cfg k touched strict rest s)

include ho henv hr hlt hal hs

theorem chooseBlock_patient :
    wp (chooseBlock cfg env r timeline) (fun _ t => Patience cfg r s t) (fun _ _ => True) s := by
  apply hs.wp_chooseBlock
  · exact fun _ _ _ _ => .refl
  · intro _ _
    have hgrow : Tracks (Internal cfg env False r) (grow cfg env r) _ s := grow_tracks hlt hal
    refine wp_mono (wp_and hgrow (grow_refused ho hlt hal s)) ?_ ?_
    · intro b t h
      exact .run h.1.1
    · intro e t h
      obtain ⟨hst, hrefused⟩ := h
      refine ⟨fun hbad => ?_, fun _ => trivial⟩
      have ht := (hs.run henv hr hst).1
      have hretry : Tracks (Internal cfg env True r) (retry cfg env r timeline) _ t :=
        retry_tracks ht henv hr hlt hal trivial
      refine wp_mono hretry ?_ fun _ _ _ => trivial
      intro b u h
      obtain ⟨htu, -⟩ := h
      exact .refused (hrefused hbad) (ht.run henv hr htu).2.trace

/-- `allocate` waits only once the source has refused the least that would do. -/
theorem allocate_patient {size alignment : Nat}
    (hsize : alignCeil (max size 1) cfg.maxAlignment = r) :
    wp (allocate cfg env size alignment timeline) (fun _ t => Patience cfg r s t)
      (fun _ _ => True) s := by
  apply hs.wp_allocate henv hr
  · exact fun _ _ => trivial
  · exact wp_mono (wp_run _ s) (fun _ _ _ => trivial) fun _ _ _ => trivial
  · intro t hst ht _
    simp only [hsize, acquireBlock, wp_bind, wp_modify, wp_pure]
    have hpatient : wp (chooseBlock cfg env r timeline) (fun _ u => Patience cfg r t u) _ t :=
      chooseBlock_patient ho henv hr hlt hal ht
    have hchoose := wp_and hpatient (chooseBlock_tracks ht henv hr hlt hal trivial)
    refine wp_mono hchoose ?_ fun _ _ _ => trivial
    intro b u h
    obtain ⟨htu, hrun, hfree, hfits⟩ := h
    have hu := (ht.run henv hr hrun).1
    have hcut : Tracks (Internal cfg env False r) (cutTo env r b) _ u :=
      cutTo_tracks hu hal hfree hfits
    refine wp_mono hcut ?_ fun _ _ _ => trivial
    intro c v h
    obtain ⟨huv, -⟩ := h
    have hacquired : Patience cfg r v (v.acquire c) :=
      ⟨[.acquired c], rfl, by simp [Event.IsWait]⟩
    exact (((Patience.run hst).trans htu).trans (.run huv)).trans hacquired

end Patience

/-! ## The loop of `grow` ends -/

theorem takeHeap_ends (size : Nat) (s : MemoryBlockAllocator) :
    wp (do
        let heap ← makeHeap cfg env size cfg.maxAlignment
        registerHeap cfg env (some heap))
      (fun _ _ => True) (fun e _ => e ≠ .diverged) s := by
  simp only [makeHeap, registerHeap, wp_bind, wp_tryCatch, wp_hostAllocate, wp_modify, wp_throw,
    wp_get, wp_ask, wp_ite, wp_pure]
  split
  · split
    · intro h
      cases h
    · generalize env.sourceAllocate _ _ = answer
      cases answer with
      | region allocation =>
          simp only [wp_pure]
          split
          · split
            · trivial
            · intro h
              cases h
          · intro h
            cases h
      | refused =>
          intro h
          cases h
      | failed =>
          intro h
          cases h
  · intro h
    cases h

/-- Half of a size, rounded up, is within half of the power of two above it. -/
theorem alignCeil_half_le {a n size : Nat} (ha : cfg.maxAlignment = 2 ^ a)
    (hsize : size < 2 ^ 64) (hle : size ≤ 2 ^ (a + (n + 1))) :
    alignCeil (size / 2) cfg.maxAlignment ≤ 2 ^ (a + n) := by
  have hmax := cfg.maxAlignment_le
  have hpow : 2 ^ (a + (n + 1)) = 2 * 2 ^ (a + n) := by
    rw [← Nat.add_assoc, Nat.pow_succ, Nat.mul_comm]
  have hceil := (cfg.le_alignCeil (x := size / 2) (by omega)).2
  apply Nat.le_of_lt_add_of_dvd (n := cfg.maxAlignment)
  · omega
  · exact cfg.alignCeil_dvd _
  · rw [ha]
    exact Nat.pow_dvd_pow 2 (Nat.le_add_right a n)

/-- Halving comes down to an alignment, which is the least there is to ask for. -/
theorem growLoop_ends {a size : Nat} (ha : cfg.maxAlignment = 2 ^ a)
    (hsize : cfg.maxAlignment ≤ size) (hlt : size < 2 ^ 64) (n : Nat) :
    ∀ (heapSize : Nat) (s : MemoryBlockAllocator), heapSize < 2 ^ 64 →
      (heapSize ≤ size ∨ heapSize ≤ 2 ^ (a + n)) →
      wp (growLoop cfg env size (n + 1) heapSize) (fun _ _ => True)
        (fun e _ => e ≠ .diverged) s := by
  induction n with
  | zero =>
      intro heapSize s hheap hle
      rw [growLoop, wp_tryCatch]
      apply wp_mono (takeHeap_ends heapSize s) (fun _ _ h => h)
      intro e t hend
      -- the least there is to ask for has been refused
      have hstop : heapSize ≤ size := hle.elim id fun h => by
        rw [Nat.add_zero, ← ha] at h
        omega
      cases e with
      | badAlloc =>
          simp only [if_pos hstop, wp_throw]
          intro h
          cases h
      | diverged => exact absurd rfl hend
      | _ =>
          intro h
          cases h
  | succ n ih =>
      intro heapSize s hheap hle
      rw [growLoop, wp_tryCatch]
      apply wp_mono (takeHeap_ends heapSize s) (fun _ _ h => h)
      intro e t hend
      cases e with
      | badAlloc =>
          by_cases hstop : heapSize ≤ size
          · simp only [if_pos hstop, wp_throw]
            intro h
            cases h
          · simp only [if_neg hstop]
            have hhalf := alignCeil_half_le ha hheap (hle.resolve_left hstop)
            have hceil := cfg.alignCeil_lt (heapSize / 2)
            exact ih _ t (Nat.max_lt.mpr ⟨hlt, hceil⟩) (by omega)
      | diverged => exact absurd rfl hend
      | _ =>
          intro h
          cases h

/-- **`grow` ends**: its loop takes no more than a round for each bit. -/
theorem grow_ends {size : Nat} (hsize : cfg.maxAlignment ≤ size) (hlt : size < 2 ^ 64)
    (hal : cfg.maxAlignment ∣ size) (hfuel : 65 ≤ env.fuel) (s : MemoryBlockAllocator) :
    wp (grow cfg env size) (fun _ _ => True) (fun e _ => e ≠ .diverged) s := by
  obtain ⟨a, -, ha⟩ := cfg.maxAlignment_pow
  obtain ⟨n, hn⟩ : ∃ n, env.fuel = n + 1 := ⟨env.fuel - 1, by omega⟩
  have hheap := (getHeapSize_spec s.pool.getSize hlt hal).2.1
  have hpow : 2 ^ 64 ≤ 2 ^ (a + n) := Nat.pow_le_pow_right (by decide) (by omega)
  simp only [grow, wp_bind, wp_get, hn]
  exact growLoop_ends ha hsize hlt n _ s hheap (.inr (by omega))

/-! ## Nothing is lost -/

theorem recycle_unlost (ho : Obliging env) (b : BlockId) (tokens : List CommandToken)
    (s : MemoryBlockAllocator) :
    lostBlocks (recycle env b tokens s).2.trace = lostBlocks s.trace := by
  unfold recycle
  split
  · rfl
  · rename_i hlen
    apply wp_final (P := fun t : MemoryBlockAllocator => lostBlocks t.trace = _)
    simp only [defer, if_neg hlen, wp_tryCatch, wp_bind, wp_hostAllocate, wp_modify,
      ho.hostAllocate, if_true]
    rfl

end MemoryBlockAllocator

namespace Session

variable {cfg : Config} {env : Environment} {C : Contract} {k : Clock Timeline} {strict : Prop}
  {s t : Session}

/-- Nothing is lost when there is memory for the bookkeeping. -/
theorem Sound.unlost (ho : Obliging env) (henv : Truthful k env)
    (hsize : strict → ∀ size, C.size size → 0 < alignCeil (max size 1) cfg.maxAlignment)
    (hs : Sound cfg k strict s) (h : Step cfg env C s t) :
    lostBlocks t.alloc.trace = lostBlocks s.alloc.trace := by
  cases h with
  | @allocated a b size alignment timeline promised returned =>
      have hr := fun h => hsize h size promised
      obtain ⟨u, hrun, -, -, rfl⟩ := hs.allocate_returned henv hr returned
      exact (hs.alloc.run henv hr hrun).2.lost
  | @threw a e size alignment timeline promised thrown =>
      have hr := fun h => hsize h size promised
      exact (hs.alloc.run henv hr (hs.allocate_threw henv hr thrown)).2.lost
  | recycled has promised => exact MemoryBlockAllocator.recycle_unlost ho ..
  | trimmed => exact (hs.alloc.run henv (fun _ => Nat.one_pos) (hs.trim_run henv)).2.lost
  | used c has => rfl
  | emptied has => rfl
  | asked answered => exact answered.lostBlocks

theorem run_unlost (ho : Obliging env) (henv : Truthful k env) (hC : C.Covers k)
    (hsize : strict → ∀ size, C.size size → 0 < alignCeil (max size 1) cfg.maxAlignment)
    (hrun : ReflTransGen (Step cfg env C) Session.empty s) : lostBlocks s.alloc.trace = [] := by
  induction hrun with
  | refl => rfl
  | tail hrun hstep ih =>
      have hs := (Sound.empty cfg k strict).run henv hsize hC hrun
      rw [hs.unlost ho henv hsize hstep, ih]

/-- **There really is no memory** for a request of `r` bytes when `a` is what
a session is left with. -/
structure OutOfMemory (cfg : Config) (env : Environment) (r : Nat) (s : Session)
    (a : MemoryBlockAllocator) : Prop where
  /-- Once what is held back had been looked through, the source refused exactly
  that much, and once more after a trim. -/
  refused : ∃ t u n v, MemoryBlockAllocator.process cfg env s.alloc = (.ok (), t)
    ∧ MemoryBlockAllocator.Refused cfg r t u
    ∧ MemoryBlockAllocator.trim cfg env u = (.ok n, v)
    ∧ MemoryBlockAllocator.Refused cfg r v a
  /-- Nothing is held back. -/
  deferred : a.deferred = []
  /-- Every heap that is left has a block that is handed out. -/
  owned : ∀ h ∈ a.pool.heaps, ∃ b ∈ s.out.map Prod.fst, (a.pool.block b).heap = h
  /-- No free block has a token to wait for. -/
  unbound : ∀ b ∈ a.pool.freeBlocks, (a.pool.block b).pending = none
  /-- Bytes in a row that are not handed out are fewer than that. -/
  short : ∀ h ∈ a.pool.heaps, ∀ lo len, lo + len ≤ (a.pool.heap h).size →
    (∀ x, lo ≤ x → x < lo + len → ∀ b ∈ s.out.map Prod.fst,
      (a.pool.block b).heap = h → ¬ (a.pool.extent b).Has x) → len < r

/-- **Running out of memory is real, and waiting is the last resort**, as long
as no request has wrapped when it was rounded up. -/
theorem out_of_memory (ho : Obliging env)
    (hrun : ReflTransGen (Step cfg env (.sized cfg)) Session.empty s)
    {size alignment : Nat} {timeline : Option Timeline}
    (hsize : size ≤ 2 ^ 64 - cfg.maxAlignment) :
    (∀ a, MemoryBlockAllocator.allocate cfg env size alignment timeline s.alloc
        = (.error .badAlloc, a) →
      OutOfMemory cfg env (alignCeil (max size 1) cfg.maxAlignment) s a) ∧
    (∀ b a, MemoryBlockAllocator.allocate cfg env size alignment timeline s.alloc = (.ok b, a) →
      MemoryBlockAllocator.Patience cfg (alignCeil (max size 1) cfg.maxAlignment) s.alloc a) := by
  have henv := Truthful.always env
  have hpos : True → ∀ size, (Contract.sized cfg).size size →
      0 < alignCeil (max size 1) cfg.maxAlignment := fun _ _ => Contract.sized_pos
  have hs := (Sound.empty cfg (Clock.always Timeline) True).run henv hpos (.always _) hrun
  have hr := fun h => hpos h size hsize
  have hlt := cfg.alignCeil_lt (max size 1)
  have hal := cfg.alignCeil_dvd (max size 1)
  constructor
  · intro a h
    obtain ⟨ha, hpasses⟩ := hs.alloc.run henv hr (hs.allocate_threw henv hr h)
    obtain ⟨t, u, hprocessed, hrefused, hexhausted⟩ := wp_thrown
      (MemoryBlockAllocator.allocate_exhausted ho henv hr hlt hal hs.alloc rfl) h rfl
    obtain ⟨n, v, htrim, hagain⟩ := hexhausted.refused
    have hlost := run_unlost ho henv (.always _) hpos hrun
    -- all that is not free is handed out
    have hout : ∀ b ∈ a.pool.blocks, b ∉ a.pool.freeBlocks → b ∈ s.out.map Prod.fst := by
      intro b hb hfree
      have hmem := ha.coherent.accounted.mem_iff.mp hb
      simpa [hexhausted.deferred, rest, hlost, hfree] using hmem
    have hwf := ha.coherent.wellFormed
    refine ⟨⟨t, u, n, v, hprocessed, hrefused, htrim, hagain⟩, hexhausted.deferred, ?_,
      hexhausted.trimmed.unbound, ?_⟩
    · intro h hh
      obtain ⟨b, hb, hfree, hheap⟩ := hexhausted.trimmed.owned h hh
      exact ⟨b, hout b hb hfree, hheap⟩
    · intro h hh lo len hin hnone
      by_cases hlen : len = 0
      · rw [hlen]
        exact hr trivial
      · -- bytes in a row that nobody has would lie in one free block
        obtain ⟨b, hb, hle⟩ := hexhausted.trimmed.merged.gap hwf hh (Nat.pos_of_ne_zero hlen) hin
          fun x hlo hhi b hb hheap hx => by
            by_contra hfree
            exact hnone x hlo hhi b (hout b hb hfree) hheap hx
        exact Nat.lt_of_le_of_lt hle (hexhausted.fits b hb)
  · intro b a h
    exact wp_returned (MemoryBlockAllocator.allocate_patient ho henv hr hlt hal hs.alloc rfl) h

/-- A source with memory for a single heap. -/
def singleHeap : Environment :=
  { Environment.generous with
    sourceAllocate := fun n _ => if n = 1 then .region (2 ^ 40) else .refused }

/-- A megabyte is handed out of that heap. One half of what is left of it is
free with a token, the other without. -/
def crowded : Session :=
  ((Session.empty.allocate .default singleHeap (1 <<< 20) 256 none).allocate .default singleHeap
    (1 <<< 19) 256 none).recycle singleHeap 2 [some ⟨⟨1, Int.one_ne_zero⟩, 7⟩]

theorem crowded_reached :
    ReflTransGen (Step .default singleHeap (.sized .default)) Session.empty crowded := by
  have hfirst : ReflTransGen (Step .default singleHeap (.sized .default)) Session.empty _ :=
    .single (allocate_step 256 none _ (by decide : 1 <<< 20 ≤ 2 ^ 64 - 256))
  have hsecond := hfirst.tail (allocate_step 256 none _ (by decide : 1 <<< 19 ≤ 2 ^ 64 - 256))
  exact hsecond.tail (recycle_step (by decide) fun _ _ => trivial)

/-- Two megabytes are not to be had: the token is waited for and the halves are
merged, but the heap cannot go. A megabyte is handed out after the same wait. -/
theorem out_of_memory_crowded : ∃ a b c,
    (crowded.alloc.pool.block 2).pending ≠ none ∧
    MemoryBlockAllocator.allocate .default singleHeap (2 <<< 20) 256 none crowded.alloc
      = (.error .badAlloc, a) ∧
    OutOfMemory .default singleHeap (2 <<< 20) crowded a ∧
    MemoryBlockAllocator.allocate .default singleHeap (1 <<< 20) 256 none crowded.alloc
      = (.ok b, c) ∧
    MemoryBlockAllocator.Patience .default (1 <<< 20) crowded.alloc c := by
  have ho : Obliging singleHeap := ⟨fun _ => rfl, fun _ _ => rfl, fun _ _ => rfl⟩
  have h := fun size => @out_of_memory .default singleHeap crowded ho crowded_reached size 256 none
  exact ⟨_, _, _, by decide, rfl, (h (2 <<< 20) (by decide)).1 _ rfl, rfl,
    (h (1 <<< 20) (by decide)).2 _ _ rfl⟩

/-- A megabyte, and a request that wraps, are handed out of one heap of two
megabytes. -/
def wrapped : Session :=
  (Session.empty.allocate .default singleHeap (1 <<< 20) 256 none).allocate .default singleHeap
    (2 ^ 64 - 1) 256 none

/-- The megabyte is given back. -/
def split : Session := wrapped.recycle singleHeap 1 []

theorem split_reached : ReflTransGen (Step .default singleHeap .any) Session.empty split := by
  have hfirst : Step .default singleHeap .any Session.empty _ :=
    allocate_step 256 none _ (by decide : 1 <<< 20 < 2 ^ 64)
  have hsecond : Step .default singleHeap .any _ wrapped :=
    allocate_step 256 none _ (by decide : 2 ^ 64 - 1 < 2 ^ 64)
  exact ((ReflTransGen.single hfirst).tail hsecond).tail
    (recycle_step (by decide) fun _ _ => trivial)

/-- **A block without a byte keeps apart** what would add up to two megabytes. -/
theorem out_of_memory_wrapped :
    Obliging singleHeap ∧
    ReflTransGen (Step .default singleHeap .any) Session.empty split ∧
    (MemoryBlockAllocator.allocate .default singleHeap (2 <<< 20) 256 none split.alloc).1
      = .error .badAlloc ∧
    ¬ OutOfMemory .default singleHeap (alignCeil (max (2 <<< 20) 1) 256) split
      (MemoryBlockAllocator.allocate .default singleHeap (2 <<< 20) 256 none split.alloc).2 := by
  refine ⟨⟨fun _ => rfl, fun _ _ => rfl, fun _ _ => rfl⟩, split_reached, rfl, ?_⟩
  intro h
  refine absurd (h.short 0 (by decide) 0 (2 <<< 20) (by decide) ?_) (by decide)
  intro x _ _ b hb _ hx
  obtain rfl : b = 2 := List.mem_singleton.mp hb
  have hempty : ((MemoryBlockAllocator.allocate .default singleHeap (2 <<< 20) 256 none
    split.alloc).2.pool.extent 2).size = 0 := rfl
  simp only [Extent.Has, hempty] at hx
  omega

end Session

end RexlibCuda
