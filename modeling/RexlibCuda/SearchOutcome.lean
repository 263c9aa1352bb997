import RexlibCuda.BlockChoice
import RexlibCuda.DeferredRelease
import RexlibCuda.HeapOwnership
import RexlibCuda.TrimOutcome

/-! What the searches of `allocate` will come to, told from the allocator before
the call and from what the outside is going to answer: which pool the first of
them look through, whether the pool can grow when they find nothing, and
whether there is room once it could not and has been trimmed. -/

namespace RexlibCuda

open Coalesce Completion Prog

open Relation (ReflTransGen)

namespace MemoryBlockAllocator

variable {cfg : Config} {env : Environment} {s t u : MemoryBlockAllocator}

/-! ## The pool that is searched -/

/-- Those of the tokens that are not answered to have finished when they are
asked one after the other from the moment `n` on, and the moment after that. -/
def unfinished (env : Environment) : Nat → List CommandToken → List CommandToken × Nat
  | n, [] => ([], n)
  | n, none :: tokens => unfinished env n tokens
  | n, some c :: tokens =>
      let (left, m) := unfinished env (n + 1) tokens
      (if env.isComplete n c = some true then left else some c :: left, m)

/-- The blocks that are held back, once all their tokens have been asked from
the moment `n` on, and the moment after that. More than a few answers take
memory, which is asked for first. -/
def askedAbout (cfg : Config) (env : Environment) :
    Nat → List PendingRelease → List PendingRelease × Nat
  | n, [] => ([], n)
  | n, (b, tokens) :: items =>
      let (left, m) :=
        unfinished env (if cfg.smallQueueCount < tokens.length then n + 1 else n) tokens
      let (lefts, l) := askedAbout cfg env m items
      ((b, left) :: lefts, l)

/-- The blocks that are held back and that at most one command still uses, each
with its token. -/
def goingBack (cfg : Config) (env : Environment) (s : MemoryBlockAllocator) : Returns :=
  ready (askedAbout cfg env s.now s.deferred).1

/-- **The pool a request searches**: that of `s`, to which those blocks have been
given back. -/
def searched (cfg : Config) (env : Environment) (s : MemoryBlockAllocator) : MemoryBlockPool :=
  s.pool.releaseAll (s.goingBack cfg env)

/-- The moment it does so. -/
def searchTime (cfg : Config) (env : Environment) (s : MemoryBlockAllocator) : Nat :=
  (askedAbout cfg env s.now s.deferred).2 + (s.goingBack cfg env).length

theorem queryAll_unfinished (tokens : List CommandToken) (s : MemoryBlockAllocator) :
    wp (queryAll env tokens)
      (fun complete t => Sees s t ∧ complete.length = tokens.length
        ∧ (((tokens.zip complete).filter fun x => !x.2).map Prod.fst, t.now)
          = unfinished env s.now tokens)
      (fun _ _ => True) s := by
  induction tokens generalizing s with
  | nil => exact ⟨.refl, rfl, rfl⟩
  | cons token tokens ih =>
      simp only [queryAll, wp_bind]
      cases token with
      | none =>
          simp only [isComplete, wp_pure]
          refine wp_mono (ih s) ?_ fun _ _ h => h
          intro complete t h
          obtain ⟨hst, hlen, hleft⟩ := h
          exact ⟨hst, by simp [hlen], by simpa [unfinished] using hleft⟩
      | some c =>
          simp only [isComplete, wp_bind, wp_ask]
          cases hanswer : env.isComplete s.now c with
          | none => trivial
          | some answer =>
              simp only [wp_pure]
              have hfirst : Sees s (s.log (.isComplete c (some answer))) := ⟨[_], rfl⟩
              have hnow : (s.log (.isComplete c (some answer))).now = s.now + 1 := rfl
              refine wp_mono (ih (s.log (.isComplete c (some answer)))) ?_ fun _ _ h => h
              intro complete t h
              obtain ⟨hst, hlen, hleft⟩ := h
              refine ⟨hfirst.trans hst, by simp [hlen], ?_⟩
              rw [hnow] at hleft
              cases answer <;> simp [unfinished, ← hleft, hanswer]

theorem dropCompleteTokens_unfinished (tokens : List CommandToken) (s : MemoryBlockAllocator) :
    wp (dropCompleteTokens cfg env tokens)
      (fun left t => Sees s t ∧ (left, t.now)
        = unfinished env (if cfg.smallQueueCount < tokens.length then s.now + 1 else s.now) tokens)
      (fun _ _ => True) s := by
  have hflags : wp (completionFlags cfg env tokens.length) (fun _ t => Sees s t ∧
      t.now = if cfg.smallQueueCount < tokens.length then s.now + 1 else s.now)
      (fun _ _ => True) s := by
    unfold completionFlags
    split
    · rw [wp_hostAllocate]
      split
      · exact ⟨⟨[.hostAllocate true], rfl⟩, rfl⟩
      · trivial
    · exact ⟨.refl, rfl⟩
  simp only [dropCompleteTokens, wp_bind]
  refine wp_mono hflags ?_ fun _ _ h => h
  intro _ t h
  obtain ⟨hst, hnow⟩ := h
  refine wp_mono (queryAll_unfinished tokens t) ?_ fun _ _ h => h
  intro complete u h
  obtain ⟨htu, hlen, hleft⟩ := h
  obtain ⟨-, -, -, hkept⟩ := compact_spec hlen tokens.length (Nat.le_refl _)
  refine ⟨hst.trans htu, ?_⟩
  rw [hkept, List.take_of_length_le (by simp), ← hnow]
  exact hleft

theorem dropLoop_askedAbout (items : List PendingRelease) :
    ∀ (done : List PendingRelease) (s : MemoryBlockAllocator), s.deferred = done ++ items →
      wp (dropLoop cfg env done items)
        (fun _ t => ∃ lefts, (lefts, t.now) = askedAbout cfg env s.now items ∧
          t.pool = s.pool ∧ t.deferred = done ++ lefts)
        (fun _ _ => True) s := by
  induction items with
  | nil =>
      intro done s hs
      exact ⟨[], rfl, rfl, hs⟩
  | cons item items ih =>
      intro done s hs
      obtain ⟨b, tokens⟩ := item
      simp only [dropLoop, wp_bind, wp_modify]
      refine wp_mono (dropCompleteTokens_unfinished tokens s) ?_ fun _ _ h => h
      intro left t h
      obtain ⟨hst, hleft⟩ := h
      refine wp_mono (ih (done ++ [(b, left)]) _ (by simp)) ?_ fun _ _ h => h
      intro _ u h
      obtain ⟨lefts, hlefts, hpool, hdeferred⟩ := h
      refine ⟨(b, left) :: lefts, ?_, hpool.trans hst.pool, by simpa using hdeferred⟩
      have hnow : now { t with deferred := done ++ (b, left) :: items } = t.now := rfl
      rw [hnow] at hlefts
      simp only [askedAbout, ← hleft, ← hlefts]

/-- **What `process` leaves**, once it returns. -/
theorem process_searched (s : MemoryBlockAllocator) :
    wp (process cfg env)
      (fun _ t => t.pool = s.searched cfg env ∧ t.now = s.searchTime cfg env ∧
        t.deferred = waiting (askedAbout cfg env s.now s.deferred).1)
      (fun _ _ => True) s := by
  simp only [process, wp_bind, wp_get, wp_modify]
  refine wp_mono (dropLoop_askedAbout s.deferred [] s rfl) ?_ fun _ _ h => h
  intro _ t h
  obtain ⟨lefts, hlefts, hpool, hdeferred⟩ := h
  have hitems : t.deferred = (askedAbout cfg env s.now s.deferred).1 := by
    rw [hdeferred, ← hlefts]
    rfl
  have hnow : t.now = (askedAbout cfg env s.now s.deferred).2 := by rw [← hlefts]
  simp only [removeReady_eq, releaseAll_eq, hitems]
  refine ⟨by rw [hpool]; rfl, ?_, trivial⟩
  rw [searchTime, ← hnow, goingBack]
  simp [now, Nat.add_comm]

/-! ## Growing for a large request -/

/-- **At the moment `n` there is no memory for a heap of `r` bytes**: the source
refuses it, or the host has none for the heap, its block or their entry. -/
def RefusesHeap (cfg : Config) (env : Environment) (r n : Nat) : Prop :=
  env.hostAllocate n = false ∨
    match env.sourceAllocate (n + 1) (regionBytes cfg r) with
    | .region _ => env.hostAllocate (n + 2) = false ∨ env.hostAllocate (n + 3) = false
    | .refused => True
    | .failed => False

theorem takeHeap_refuses (r : Nat) (s : MemoryBlockAllocator) :
    wp (do
        let heap ← makeHeap cfg env r cfg.maxAlignment
        registerHeap cfg env (some heap))
      (fun _ _ => ¬ RefusesHeap cfg env r s.now)
      (fun e _ => e = .badAlloc → RefusesHeap cfg env r s.now) s := by
  have hnow : ∀ (e : Event) (t : MemoryBlockAllocator), (t.log e).now = t.now + 1 := fun _ _ => rfl
  simp only [makeHeap, registerHeap, wp_bind, wp_hostAllocate, wp_ite, wp_throw, wp_ask,
    wp_tryCatch, wp_get, wp_modify, hnow, RefusesHeap, regionBytes]
  by_cases hhost : env.hostAllocate s.now = true
  · rw [if_pos hhost]
    split
    · intro h
      cases h
    · generalize env.sourceAllocate (s.now + 1) _ = answer
      cases answer with
      | region allocation =>
          simp only [wp_pure, hnow]
          by_cases hblock : env.hostAllocate (s.now + 2) = true
          · rw [if_pos hblock]
            by_cases hentry : env.hostAllocate (s.now + 3) = true
            · rw [if_pos hentry]
              simp [hhost, hblock, hentry]
            · rw [if_neg hentry]
              exact fun _ => .inr (.inr (Bool.not_eq_true _ ▸ hentry))
          · rw [if_neg hblock]
            exact fun _ => .inr (.inl (Bool.not_eq_true _ ▸ hblock))
      | refused => exact fun _ => .inr trivial
      | failed =>
          intro h
          cases h
  · rw [if_neg hhost]
    exact fun _ => .inl (Bool.not_eq_true _ ▸ hhost)

/-- **A large request grows the pool** at once, unless there is no memory for
its heap. -/
theorem grow_refuses {r : Nat} (hlarge : cfg.largeAllocation ≤ r) (s : MemoryBlockAllocator) :
    wp (grow cfg env r) (fun _ _ => ¬ RefusesHeap cfg env r s.now)
      (fun e _ => e = .badAlloc → RefusesHeap cfg env r s.now) s := by
  have hsize : getHeapSize cfg s.pool.getSize r = r := if_pos hlarge
  simp only [grow, wp_bind, wp_get, hsize]
  cases env.fuel with
  | zero =>
      intro h
      cases h
  | succ fuel =>
      simp only [growLoop, wp_tryCatch, le_refl, if_true]
      refine wp_mono (takeHeap_refuses r s) (fun _ _ h => h) ?_
      intro e t h
      cases e <;> exact h

/-- Where it finds nothing then, and returns nevertheless, it has trimmed the pool. -/
theorem chooseBlock_refused {r : Nat} (hlarge : cfg.largeAllocation ≤ r)
    {timeline : Option Timeline} (hfind : s.pool.findSuitableBlock r timeline = none)
    (hforeign : s.pool.findForeignBlock r timeline = some none)
    (hrefuses : RefusesHeap cfg env r s.now) :
    wp (chooseBlock cfg env r timeline)
      (fun _ _ => ∃ v n t, grow cfg env r s = (.error .badAlloc, v) ∧
        trimLocked cfg env v = (.ok n, t))
      (fun _ _ => True) s := by
  simp only [chooseBlock, wp_bind, wp_get, hfind, hforeign, wp_tryCatch]
  refine wp_mono (wp_and (grow_refuses hlarge s) (wp_run _ s)) ?_ ?_
  · intro _ _ h
    exact absurd hrefuses h.1
  · intro e v h
    obtain ⟨-, hgrow⟩ := h
    cases e with
    | badAlloc =>
        simp only [retry, wp_bind, wp_get]
        refine wp_mono (wp_run _ v) ?_ fun _ _ _ => trivial
        intro n t htrim
        exact wp_mono (wp_run _ t) (fun _ _ _ => ⟨v, n, t, hgrow, htrim⟩) fun _ _ _ => trivial
    | _ => trivial

end MemoryBlockAllocator

namespace MemoryBlockPool

variable {A r : Nat} {p q : MemoryBlockPool} {kept rest : List BlockId} {blocks : Returns}
  {b c : BlockId}

/-! ## Room once all that can be had back is back -/

/-- How a block is shown when all but those of `kept` are free, without tokens. -/
def shownAside (kept : List BlockId) (b : BlockId) : Option CommandToken :=
  if b ∈ kept then none else some none

/-- **What a pool looks like with nothing but the blocks of `kept` in use**: all
others are free, without tokens and merged. -/
def vacated (p : MemoryBlockPool) (kept : List BlockId) : List Cell :=
  coalesce Cell.joining (p.showing (shownAside kept))

/-- There is room for `r` bytes then, in a heap that one of these blocks keeps in
the pool. -/
def Roomy (p : MemoryBlockPool) (kept : List BlockId) (r : Nat) : Prop :=
  ∃ c ∈ p.vacated kept, c.free = true ∧ r ≤ c.size ∧ ∃ b ∈ kept, (p.block b).heap = c.heap

instance : Decidable (p.Roomy kept r) := inferInstanceAs (Decidable (∃ c ∈ p.vacated kept, _))

theorem marking_shownAside (h : ∀ b ∈ p.freeBlocks, b ∉ kept) :
    marking (fun _ => none) [] (shownAside kept) p = shownAside kept := by
  funext c
  by_cases hc : c ∈ p.freeBlocks
  · rw [marking_pos (.inr hc), shownAside, if_neg (h c hc)]
  · rw [marking_neg (by simpa using hc)]

/-- No block that is kept is free. -/
theorem Coherent.free_aside (h : p.Coherent A False noGuard rest) (hkept : kept ⊆ rest) :
    ∀ b ∈ p.freeBlocks, b ∉ kept :=
  fun _ hb hmem => h.accounted.not_free h.wellFormed (hkept hmem) hb

/-- Giving a block back changes nothing of that. -/
theorem Coherent.release_vacated (h : p.Coherent A False noGuard (b :: rest)) (hkept : kept ⊆ rest)
    (t : CommandToken) : (p.release b t).vacated kept = p.vacated kept := by
  have hb : b ∉ kept := fun hmem =>
    (List.nodup_cons.mp (h.accounted.nodup h.wellFormed)).1 (hkept hmem)
  have hafter := (h.release noGuard_lasting (t := t) fun _ _ => trivial).free_aside hkept
  have hbefore := h.free_aside (List.Subset.trans hkept (List.subset_cons_self b rest))
  have hshown : Function.update (shownAside kept) b (some none) = shownAside kept := by
    rw [← Function.update_eq_self b (shownAside kept), Function.update_idem, shownAside, if_neg hb]
  have hsame : coalesce Cell.joining ((p.release b t).showing
      (marking (fun _ => none) [] (shownAside kept) (p.release b t))) = _ :=
    release_coalesce .none h.wellFormed h.accounted
  rw [marking_shownAside hafter, marking_shownAside hbefore, hshown] at hsame
  exact hsame

theorem Coherent.releaseAll (h : p.Coherent A False noGuard (blocks.map Prod.fst ++ rest)) :
    (p.releaseAll blocks).Coherent A False noGuard rest := by
  induction blocks generalizing p with
  | nil => exact h
  | cons x blocks ih => exact ih (h.release noGuard_lasting fun _ _ => trivial)

theorem releaseAll_blockHeap (p : MemoryBlockPool) (blocks : Returns) (b : BlockId) :
    ((p.releaseAll blocks).block b).heap = (p.block b).heap := by
  induction blocks generalizing p with
  | nil => rfl
  | cons x blocks ih => exact (ih (p.release x.1 x.2)).trans ((p.release_frame x.1 x.2).blockHeap b)

theorem Coherent.releaseAll_vacated
    (h : p.Coherent A False noGuard (blocks.map Prod.fst ++ rest)) (hkept : kept ⊆ rest) :
    (p.releaseAll blocks).vacated kept = p.vacated kept := by
  induction blocks generalizing p with
  | nil => rfl
  | cons x blocks ih =>
      have hrest := ih (h.release noGuard_lasting (t := x.2) fun _ _ => trivial)
      exact hrest.trans
        (h.release_vacated (List.Subset.trans hkept (List.subset_append_right _ _)) x.2)

theorem Coherent.releaseAll_roomy (h : p.Coherent A False noGuard (blocks.map Prod.fst ++ rest))
    (hkept : kept ⊆ rest) : (p.releaseAll blocks).Roomy kept r ↔ p.Roomy kept r := by
  simp only [Roomy, h.releaseAll_vacated hkept, releaseAll_blockHeap]

/-- **`reset_pending`** leaves a pool looking like that, where only the blocks
that are kept are in use. -/
theorem Coherent.resetPending_cells (h : p.Coherent A False noGuard kept) :
    p.resetPending.cells = p.vacated kept := by
  have hreset := h.resetPending noGuard_lasting fun _ _ _ _ => trivial
  have htidy : p.resetPending.Tidy A kept :=
    ⟨hreset, (resetPending_merged h.wellFormed).coalesced⟩
  have hfree := hreset.free_aside (List.Subset.refl kept)
  have hshown : p.resetPending.cells = p.resetPending.showing (shownAside kept) := by
    rw [cells_eq_showing]
    apply showing_congr
    intro b hb
    rw [freeToken, shownAside]
    by_cases hbf : b ∈ p.resetPending.freeBlocks
    · rw [if_pos hbf, if_neg (hfree b hbf), resetPending_unbound h.wellFormed b hbf]
    · have hmem := (List.mem_append.mp (hreset.accounted.mem_iff.mp hb)).resolve_left hbf
      rw [if_neg hbf, if_pos hmem]
  have hsame : coalesce Cell.joining (p.resetPending.showing
      (marking (fun _ => none) [] (shownAside kept) p.resetPending)) = _ :=
    resetPending_coalesce h.wellFormed h.accounted
  rw [marking_shownAside hfree, marking_shownAside (h.free_aside (List.Subset.refl kept))] at hsame
  calc p.resetPending.cells = coalesce Cell.joining p.resetPending.cells :=
        htidy.coalesce_cells.symm
    _ = p.resetPending.vacated kept := by rw [hshown]; rfl
    _ = p.vacated kept := hsame

/-- What the loop of `release_unused_heaps` drops is of heaps that go. -/
theorem releaseUnusedLoop_keeps (bs : List BlockId) : ∀ (result : Nat) (q : MemoryBlockPool),
    q.heaps.Nodup →
      (releaseUnusedLoop bs result q).2.2.block = q.block ∧
      (releaseUnusedLoop bs result q).2.2.freeBlocks ⊆ q.freeBlocks ∧
      (releaseUnusedLoop bs result q).2.2.heaps ⊆ q.heaps ∧
      ∀ c ∈ q.freeBlocks, (q.block c).heap ∈ (releaseUnusedLoop bs result q).2.2.heaps →
        c ∈ (releaseUnusedLoop bs result q).2.2.freeBlocks := by
  induction bs with
  | nil => exact fun _ _ _ => ⟨rfl, List.Subset.refl _, List.Subset.refl _, fun _ hc _ => hc⟩
  | cons b bs ih =>
      intro result q hnd
      simp only [releaseUnusedLoop]
      split
      · exact ih result q hnd
      · obtain ⟨hblock, hfree, hheaps, hkept⟩ :=
          ih (sizeAdd result (q.heap (q.block b).heap).size) (q.eraseHeap b) (hnd.erase _)
        refine ⟨hblock, List.Subset.trans hfree (List.erase_subset ..),
          List.Subset.trans hheaps (List.erase_subset ..), ?_⟩
        intro c hc hheap
        by_cases hcb : c = b
        · -- the heap of the block has gone
          rw [hcb] at hheap
          exact absurd (hheaps hheap) (hnd.not_mem_erase)
        · exact hkept c ((List.mem_erase_of_ne hcb).mpr hc) hheap

end MemoryBlockPool

namespace MemoryBlockAllocator

variable {cfg : Config} {env : Environment} {k : Clock Timeline}
  {touched : HeapId → Nat → Command → Prop} {rest : List BlockId} {s : MemoryBlockAllocator}
  {r : Nat}

/-- The blocks that are held back, as `wait_all` gives them back. -/
def heldBack (s : MemoryBlockAllocator) : Returns := s.deferred.map fun item => (item.1, none)

theorem heldBack_fst (s : MemoryBlockAllocator) :
    s.heldBack.map Prod.fst = s.deferred.map Prod.fst := by
  simp [heldBack]

/-- What a trim that returns makes of the pool. -/
theorem Sound.trim_pool (hs : Sound cfg k touched False rest s) (henv : Truthful k env) :
    wp (trimLocked cfg env)
      (fun _ t => t.pool
        = (s.pool.releaseAll s.heldBack).resetPending.releaseUnusedHeaps.2.2)
      (fun _ _ => True) s := by
  have hwait : Tracks (Internal cfg env True 0) (waitAll env) _ s := waitAll_tracks trivial s
  have hspec : wp (waitAll env) _ _ s := waitAll_spec (Permanent.always env)
  simp only [trimLocked, wp_bind]
  refine wp_mono (wp_and hwait hspec) ?_ fun _ _ _ => trivial
  intro _ t h
  obtain ⟨⟨hrun, -⟩, es, hwaited⟩ := h
  have ht := (hs.run henv False.elim hrun).1
  have hpool : t.pool = s.pool.releaseAll s.heldBack := by
    rw [hwaited.state]
    rfl
  have henumerate : Tracks (Internal cfg env True 0) (enumeratePending env) _ t :=
    enumeratePending_tracks ht
  refine wp_mono henumerate ?_ fun _ _ _ => trivial
  intro tokens u h
  obtain ⟨-, htu, -⟩ := h
  have heach : Tracks (Internal cfg env True 0) (forEach (wait env) tokens) _ u :=
    waitEach_tracks trivial tokens u
  refine wp_mono heach ?_ fun _ _ _ => trivial
  intro _ v h
  obtain ⟨-, huv, -⟩ := h
  simp only [releaseUnusedHeaps, wp_bind, wp_get, wp_modify, wp_pure, destroyHeaps_pool]
  rw [(htu.trans huv).pool, hpool]

theorem askedAbout_blocks (n : Nat) (items : List PendingRelease) :
    (askedAbout cfg env n items).1.map Prod.fst = items.map Prod.fst := by
  induction items generalizing n with
  | nil => rfl
  | cons item items ih =>
      obtain ⟨b, tokens⟩ := item
      simp only [askedAbout, List.map_cons, ih]

theorem ready_waiting_perm (items : List PendingRelease) :
    ((ready items).map Prod.fst ++ (waiting items).map Prod.fst).Perm (items.map Prod.fst) := by
  have hready : (ready items).map Prod.fst
      = (items.filter fun item => item.2.length < 2).map Prod.fst := by
    simp [ready]
  have hwaiting : waiting items = items.filter fun item => !decide (item.2.length < 2) := by
    refine List.filter_congr fun item _ => ?_
    rw [← decide_not]
    exact decide_eq_decide.mpr Nat.not_lt.symm
  rw [hready, hwaiting, ← List.map_append]
  exact (List.filter_append_perm _ items).map Prod.fst

/-- What goes back before the first search changes nothing of the room there
would be. -/
theorem Sound.searched_roomy (hs : Sound cfg k touched False rest s) :
    (s.searched cfg env).Roomy rest r ↔ s.pool.Roomy rest r := by
  have hperm := ready_waiting_perm (askedAbout cfg env s.now s.deferred).1
  rw [askedAbout_blocks] at hperm
  have hcoh := hs.coherent.forget.perm (hperm.symm.append_right rest)
  rw [List.append_assoc] at hcoh
  exact hcoh.releaseAll_roomy (List.subset_append_right _ _)

end MemoryBlockAllocator

namespace Session

variable {cfg : Config} {env : Environment} {s : Session} {a : MemoryBlockAllocator} {n r : Nat}
  {timeline : Option Timeline} {c : BlockId}

section Trimmed

variable (hs : Sound cfg (Clock.always Timeline) False s)
  (h : MemoryBlockAllocator.trim cfg env s.alloc = (.ok n, a))

include hs h

theorem Sound.trim_coherent : a.pool.Coherent cfg.maxAlignment False
    (ledger (Clock.always Timeline) s.touched a.now) (a.deferred.map Prod.fst ++ s.rest) := by
  have hrun : ReflTransGen (MemoryBlockAllocator.Internal cfg env True MemoryBlockAllocator.uncut)
      s.alloc (MemoryBlockAllocator.trim cfg env s.alloc).2 :=
    MemoryBlockAllocator.trim_uncut trivial hs.alloc (.always env)
  rw [h] at hrun
  exact (hs.alloc.run (.always env) MemoryBlockAllocator.uncut_pos hrun).1.coherent

/-- What a trim that returns leaves free is of heaps with another block, which
is in use. -/
theorem Sound.trim_owned (hc : c ∈ a.pool.freeBlocks) : ∃ b ∈ s.rest, b ≠ c ∧ b ∈ a.pool.blocks ∧
    (a.pool.block b).heap = (a.pool.block c).heap := by
  have houtcome := hs.trim_returned h
  have hwf := (hs.trim_coherent h).wellFormed
  obtain ⟨b, hb, hheap⟩ := (houtcome.owned _).mp (hwf.inside (hwf.freeSub c hc)).1
  obtain ⟨hblocks, hfree, -⟩ := houtcome.unchanged b hb
  exact ⟨b, hb, fun hbc => hfree (hbc ▸ hc), hblocks, hheap⟩

/-- So a search finds no block that is all of its heap. -/
theorem Sound.trim_partition (hc : c ∈ a.pool.freeBlocks) : a.pool.isPartition c = true := by
  have hwf := (hs.trim_coherent h).wellFormed
  obtain ⟨b, -, hbc, hb, hheap⟩ := hs.trim_owned h hc
  exact (hwf.isPartition_iff (hwf.freeSub c hc)).mpr ⟨b, hb, hbc, hheap⟩

/-- **What a search finds once a trim has returned**: something just where there
is room for it. -/
theorem Sound.trim_finds (r : Nat) (timeline : Option Timeline) :
    (∃ c, a.pool.findSuitableBlock r timeline = some c) ↔ s.alloc.pool.Roomy s.rest r := by
  have houtcome := hs.trim_returned h
  -- what the pool was before the heaps that nobody needed went
  have hcoh : s.alloc.pool.Coherent cfg.maxAlignment False MemoryBlockPool.noGuard
      (s.alloc.heldBack.map Prod.fst ++ s.rest) := by
    rw [MemoryBlockAllocator.heldBack_fst]
    exact hs.alloc.coherent.forget
  have hpool := wp_returned (hs.alloc.trim_pool (.always env)) h
  have hroomy := hcoh.releaseAll_roomy (r := r) (List.Subset.refl s.rest)
  have hq := hcoh.releaseAll
  generalize s.alloc.pool.releaseAll s.alloc.heldBack = q at hpool hroomy hq
  have hframe := MemoryBlockPool.resetPending_frame hq.wellFormed
  have hwf : q.resetPending.WellFormed cfg.maxAlignment False := hq.wellFormed.resetPending
  obtain ⟨hblock, hfree, -, hkept⟩ := MemoryBlockPool.releaseUnusedLoop_keeps
    q.resetPending.freeBlocks 0 q.resetPending hwf.heapsNodup
  have hrecord : ∀ c, a.pool.block c = q.resetPending.block c := fun c => by
    rw [hpool]
    exact congrFun hblock c
  have hheap : ∀ c, (a.pool.block c).heap = (q.block c).heap := fun c =>
    (congrArg MemoryBlock.heap (hrecord c)).trans (hframe.blockHeap c)
  rw [← hroomy, MemoryBlockPool.Roomy, ← hq.resetPending_cells]
  constructor
  · rintro ⟨c, hc⟩
    obtain ⟨hcfree, hfits⟩ := MemoryBlockPool.findSuitableBlock_some hc
    obtain ⟨b, hb, -, -, hbheap⟩ := hs.trim_owned h hcfree
    rw [hpool] at hcfree
    have hcq : c ∈ q.resetPending.freeBlocks := hfree hcfree
    refine ⟨_, List.mem_map.mpr ⟨c, hwf.freeSub c hcq, rfl⟩, decide_eq_true hcq, ?_, b, hb, ?_⟩
    · rw [← hrecord]
      exact hfits
    · rw [← hheap, hbheap, hrecord]
  · rintro ⟨cell, hcell, hcfree, hfits, b, hb, hbheap⟩
    obtain ⟨c, -, rfl⟩ := List.mem_map.mp hcell
    have hstays : (q.resetPending.block c).heap ∈ a.pool.heaps :=
      (houtcome.owned _).mpr ⟨b, hb, (hheap b).trans hbheap⟩
    have hca : c ∈ a.pool.freeBlocks := by
      rw [hpool] at hstays ⊢
      exact hkept c (of_decide_eq_true hcfree) hstays
    rw [← Option.ne_none_iff_exists']
    intro hnone
    have hlt := (hs.trim_coherent h).sorted.findSuitableBlock_none hnone hca
      (houtcome.unbound c hca)
    rw [hrecord] at hlt
    exact Nat.not_le.mpr hlt hfits

end Trimmed

section Searches

variable (hs : Sound cfg (Clock.always Timeline) False s) {u : MemoryBlockAllocator}
  (hprocess : MemoryBlockAllocator.process cfg env s.alloc = (.ok (), u))

include hprocess in
/-- The searches look through that pool. -/
theorem process_pool : u.pool = s.alloc.searched cfg env ∧ u.now = s.alloc.searchTime cfg env :=
  have h := wp_returned (MemoryBlockAllocator.process_searched s.alloc) hprocess
  ⟨h.1, h.2.1⟩

include hprocess in
theorem process_run : ReflTransGen
    (MemoryBlockAllocator.Internal cfg env True MemoryBlockAllocator.uncut) s.alloc u := by
  have htracks : Tracks (MemoryBlockAllocator.Internal cfg env True MemoryBlockAllocator.uncut)
      (MemoryBlockAllocator.process cfg env) _ s.alloc :=
    MemoryBlockAllocator.process_tracks s.alloc
  exact (wp_returned htracks hprocess).1

include hs hprocess

theorem Sound.process_sorted : u.pool.Sorted ∧ ∀ b ∈ u.pool.freeBlocks,
    (u.pool.block b).size ≤ sizeMax := by
  have hu := (hs.alloc.run (.always env) MemoryBlockAllocator.uncut_pos (process_run hprocess)).1
  exact ⟨hu.coherent.sorted, fun b hb => hu.coherent.wellFormed.size_le hb⟩

/-- They find what the scan of it chooses. -/
theorem Sound.process_choice (r : Nat) (timeline : Option Timeline) (c : BlockId) :
    (u.pool.findSuitableBlock r timeline = some c ∨
      u.pool.findSuitableBlock r timeline = none ∧
        u.pool.findForeignBlock r timeline = some (some c)) ↔
      (s.alloc.searched cfg env).choice r timeline = some c := by
  obtain ⟨hsorted, hsizes⟩ := hs.process_sorted hprocess
  rw [← (process_pool hprocess).1]
  exact hsorted.searches_iff hsizes

/-- Where it has nothing to choose from, they find nothing. -/
theorem Sound.process_none (h : (s.alloc.searched cfg env).choice r timeline = none) :
    u.pool.findSuitableBlock r timeline = none ∧
      u.pool.findForeignBlock r timeline = some none := by
  obtain ⟨hsorted, hsizes⟩ := hs.process_sorted hprocess
  rw [← (process_pool hprocess).1] at h
  exact hsorted.searches_none hsizes h

/-- The search after a growth that was refused finds something just where there
is room in the pool, and then never a block that is all of its heap. -/
theorem Sound.refused_finds (hlt : r < 2 ^ 64) (hal : cfg.maxAlignment ∣ r)
    (timeline : Option Timeline) {v t : MemoryBlockAllocator}
    (hgrow : MemoryBlockAllocator.grow cfg env r u = (.error .badAlloc, v))
    (htrim : MemoryBlockAllocator.trimLocked cfg env v = (.ok n, t)) :
    ((∃ c, t.pool.findSuitableBlock r timeline = some c) ↔ s.alloc.pool.Roomy s.rest r) ∧
      ∀ c, t.pool.findSuitableBlock r timeline = some c → t.pool.isPartition c = true := by
  have htracks : Tracks (MemoryBlockAllocator.Internal cfg env True MemoryBlockAllocator.uncut)
      (MemoryBlockAllocator.grow cfg env r) _ u := MemoryBlockAllocator.grow_tracks hlt hal
  have hrun := (process_run hprocess).trans (wp_thrown htracks hgrow)
  have hs' := hs.inner (.always env) MemoryBlockAllocator.uncut_pos hrun
  have hlost := (hs.alloc.run (.always env) MemoryBlockAllocator.uncut_pos hrun).2.lost
  have hrest : rest { s with alloc := v } = s.rest := by rw [rest, hlost, rest]
  have hpool : v.pool = s.alloc.searched cfg env :=
    (wp_thrown (MemoryBlockAllocator.grow_grown r u) hgrow).trans (process_pool hprocess).1
  constructor
  · rw [hs'.trim_finds htrim, hrest, show (Session.alloc { s with alloc := v }).pool = _ from hpool,
      hs.alloc.searched_roomy]
  · intro c hc
    exact hs'.trim_partition htrim (MemoryBlockPool.findSuitableBlock_some hc).1

end Searches

end Session

end RexlibCuda
