import RexlibCuda.AllocatorInvariant
import RexlibCuda.PoolSearch

/-! The functions of `memory_block_allocator` are runs of the steps of
`AllocatorInvariant`, whether they return or throw. -/

namespace RexlibCuda

open Completion Prog

namespace MemoryBlockAllocator

open Relation (ReflTransGen)

variable {cfg : Config} {env : Environment} {r : Nat} {k : Clock Timeline}
  {touched : HeapId → Nat → Command → Prop} {strict patient : Prop} {rest : List BlockId}
  {s t u : MemoryBlockAllocator} {b : BlockId}

/-! ## Asking -/

/-- Nothing has changed but what has been seen. -/
def Sees (s t : MemoryBlockAllocator) : Prop := ∃ es, t = { s with trace := es ++ s.trace }

theorem Sees.refl : Sees s s := ⟨[], rfl⟩

theorem Sees.trans (h : Sees s t) (h' : Sees t u) : Sees s u := by
  obtain ⟨es, rfl⟩ := h
  obtain ⟨es', rfl⟩ := h'
  exact ⟨es' ++ es, by simp⟩

theorem Sees.log (s : MemoryBlockAllocator) (e : Event) : Sees s (s.log e) := ⟨[e], rfl⟩

theorem Sees.settled (h : Sees s t) {token : CommandToken} (hs : Settled s.trace token) :
    Settled t.trace token := by
  obtain ⟨es, rfl⟩ := h
  exact hs.append es

theorem Sees.pool (h : Sees s t) : t.pool = s.pool := by
  obtain ⟨es, rfl⟩ := h
  rfl

theorem Sees.deferred (h : Sees s t) : t.deferred = s.deferred := by
  obtain ⟨es, rfl⟩ := h
  rfl

@[simp] theorem wp_ask {α : Type} {answer : Nat → α} {event : α → Event}
    {Q : α → MemoryBlockAllocator → Prop} {E : Exn → MemoryBlockAllocator → Prop} :
    wp (ask answer event) Q E s ↔ Q (answer s.now) (s.log (event (answer s.now))) := Iff.rfl

/-- Asking is a step. -/
theorem ask_tracks {α : Type} {answer : Nat → α} {event : α → Event}
    (h : Answered env s.now (event (answer s.now)))
    (hwaits : (event (answer s.now)).IsWait → patient) :
    Tracks (Internal cfg env patient r) (ask answer event)
      (fun a t => a = answer s.now ∧ t = s.log (event a)) s :=
  ⟨.single (.asked h hwaits), rfl, rfl⟩

theorem hostAllocate_tracks :
    Tracks (Internal cfg env patient r) (hostAllocate env) (fun _ t => Sees s t) s := by
  refine (ask_tracks ?_ ?_).bind ?_
  · exact rfl
  · exact False.elim
  · intro granted t _ h
    obtain ⟨-, rfl⟩ := h
    cases granted with
    | true => exact .pure (.log s _)
    | false => exact .throw _

/-- A query that answers that the command has finished settles its token. -/
theorem isComplete_tracks (token : CommandToken) :
    Tracks (Internal cfg env patient r) (isComplete env token)
      (fun complete t => Sees s t ∧ (complete = true → Settled t.trace token)) s := by
  cases token with
  | none =>
      refine .pure ⟨.refl, fun _ c hc => ?_⟩
      cases hc
  | some command =>
      refine (ask_tracks ?_ ?_).bind ?_
      · exact rfl
      · exact False.elim
      · intro answer t _ h
        obtain ⟨-, rfl⟩ := h
        cases answer with
        | none => exact .throw _
        | some complete =>
            refine .pure ⟨.log s _, ?_⟩
            rintro rfl c hc
            obtain rfl : command = c := Option.some.inj hc
            exact ⟨command, .inl List.mem_cons_self, rfl, Nat.le_refl _⟩

/-- A wait that returns settles the token. -/
theorem wait_tracks (hp : patient) (token : CommandToken) :
    Tracks (Internal cfg env patient r) (wait env token)
      (fun _ t => Sees s t ∧ Settled t.trace token) s := by
  cases token with
  | none =>
      refine .pure ⟨.refl, fun c hc => ?_⟩
      cases hc
  | some command =>
      refine (ask_tracks ?_ fun _ => hp).bind ?_
      · exact rfl
      · intro returned t _ h
        obtain ⟨-, rfl⟩ := h
        cases returned with
        | false => exact .throw _
        | true =>
            refine .pure ⟨.log s _, ?_⟩
            intro c hc
            obtain rfl : command = c := Option.some.inj hc
            exact ⟨command, .inr List.mem_cons_self, rfl, Nat.le_refl _⟩

/-- Waiting for each token of a list settles them all. -/
theorem waitEach_tracks (hp : patient) (tokens : List CommandToken) (s : MemoryBlockAllocator) :
    Tracks (Internal cfg env patient r) (forEach (wait env) tokens)
      (fun _ t => Sees s t ∧ ∀ token ∈ tokens, Settled t.trace token) s := by
  induction tokens generalizing s with
  | nil => exact .pure ⟨.refl, by simp⟩
  | cons token tokens ih =>
      apply (wait_tracks hp token).bind
      intro _ t _ h
      obtain ⟨hst, htoken⟩ := h
      apply (ih t).mono
      intro _ u _ h
      obtain ⟨htu, htokens⟩ := h
      refine ⟨hst.trans htu, ?_⟩
      intro x hx
      rcases List.mem_cons.mp hx with rfl | hx
      · exact htu.settled htoken
      · exact htokens x hx

theorem hostAllocateEach_tracks {α : Type} (xs : List α) (s : MemoryBlockAllocator) :
    Tracks (Internal cfg env patient r) (forEach (fun _ => hostAllocate env) xs)
      (fun _ t => Sees s t) s := by
  induction xs generalizing s with
  | nil => exact .pure .refl
  | cons x xs ih =>
      apply hostAllocate_tracks.bind
      intro _ t _ hst
      exact (ih t).mono fun _ u _ htu => hst.trans htu

/-! ## What is held back -/

theorem queryAll_tracks (tokens : List CommandToken) (s : MemoryBlockAllocator) :
    Tracks (Internal cfg env patient r) (queryAll env tokens)
      (fun complete t => Sees s t ∧
        List.Forall₂ (fun token c => c = true → Settled t.trace token) tokens complete) s := by
  induction tokens generalizing s with
  | nil => exact .pure ⟨.refl, .nil⟩
  | cons token tokens ih =>
      apply (isComplete_tracks token).bind
      intro complete t _ h
      obtain ⟨hst, htoken⟩ := h
      apply (ih t).bind
      intro rest u _ h
      obtain ⟨htu, hrest⟩ := h
      exact .pure ⟨hst.trans htu, .cons (fun h => htu.settled (htoken h)) hrest⟩

/-- **The compaction keeps what has not finished**, in order. -/
theorem compact_spec {complete : List Bool} {tokens : List CommandToken}
    (hlen : complete.length = tokens.length) : ∀ n ≤ tokens.length,
      (compact complete tokens n).1 ≤ n
      ∧ (compact complete tokens n).2.length = tokens.length
      ∧ (∀ i, n ≤ i → (compact complete tokens n).2[i]? = tokens[i]?)
      ∧ (compact complete tokens n).2.take (compact complete tokens n).1
        = (((tokens.zip complete).take n).filter fun x => !x.2).map Prod.fst := by
  intro n
  induction n with
  | zero => exact fun _ => ⟨Nat.le_refl _, rfl, fun _ _ => rfl, rfl⟩
  | succ n ih =>
      intro hn
      obtain ⟨hkept, hlength, hsame, htake⟩ := ih (by omega)
      have hnth : (tokens.zip complete)[n]? = some (tokens[n], complete[n]) := by
        rw [List.getElem?_eq_getElem (by simp; omega)]
        simp
      have hgetD : complete.getD n false = complete[n] := by
        simp [List.getD_eq_getElem?_getD, List.getElem?_eq_getElem (by omega : n < complete.length)]
      have hmoved : (compact complete tokens n).2[n]? = some tokens[n] := by
        rw [hsame n (Nat.le_refl _), List.getElem?_eq_getElem]
      simp only [compact, hgetD, List.take_add_one, hnth, Option.toList_some, List.filter_append,
        List.map_append, ← htake]
      cases hc : complete[n] with
      | true =>
          -- the token is skipped
          simp only [if_true]
          refine ⟨by omega, hlength, fun i hi => hsame i (by omega), ?_⟩
          simp
      | false =>
          simp only [Bool.false_eq_true, if_false]
          by_cases hne : (compact complete tokens n).1 = n
          · -- none has been skipped yet, so it is in place
            simp only [hne, ne_eq, not_true_eq_false, if_false]
            refine ⟨Nat.le_refl _, hlength, fun i hi => hsame i (by omega), ?_⟩
            simp [List.take_add_one, hmoved]
          · -- it moves down behind those that were kept
            have hD : (compact complete tokens n).2.getD n none = tokens[n] := by
              simp [List.getD_eq_getElem?_getD, hmoved]
            simp only [ne_eq, hne, not_false_eq_true, if_true, hD]
            refine ⟨by omega, by simp [hlength], ?_, ?_⟩
            · intro i hi
              rw [List.getElem?_set_ne (by omega)]
              exact hsame i (by omega)
            · rw [List.take_add_one, List.take_set_of_le (Nat.le_refl _),
                List.getElem?_set_self (by omega)]
              simp

/-- What `drop_complete_tokens` drops is settled. -/
theorem dropCompleteTokens_tracks (tokens : List CommandToken) (s : MemoryBlockAllocator) :
    Tracks (Internal cfg env patient r) (dropCompleteTokens cfg env tokens)
      (fun left t => Sees s t ∧ ∀ token ∈ tokens, token ∈ left ∨ Settled t.trace token) s := by
  have hflags : Tracks (Internal cfg env patient r) (completionFlags cfg env tokens.length)
      (fun _ t => Sees s t) s := by
    unfold completionFlags
    split
    · exact hostAllocate_tracks
    · exact .pure .refl
  apply hflags.bind
  intro _ t _ hst
  apply (queryAll_tracks tokens t).bind
  intro complete u _ h
  obtain ⟨htu, hquery⟩ := h
  have hlen : complete.length = tokens.length := hquery.length_eq.symm
  obtain ⟨-, -, -, hleft⟩ := compact_spec hlen tokens.length (Nat.le_refl _)
  refine .pure ⟨hst.trans htu, ?_⟩
  intro token htoken
  rw [hleft, List.take_of_length_le (by simp)]
  obtain ⟨i, hi, rfl⟩ := List.mem_iff_getElem.mp htoken
  have hi' : i < complete.length := by omega
  cases hc : complete[i] with
  | true => exact .inr (hquery.get hi hi' hc)
  | false =>
      refine .inl (List.mem_map.mpr ⟨(tokens[i], complete[i]), ?_, rfl⟩)
      refine List.mem_filter.mpr ⟨?_, by simp [hc]⟩
      exact List.mem_iff_getElem.mpr ⟨i, by simp [hi, hi'], by simp⟩

theorem dropLoop_tracks (items : List PendingRelease) :
    ∀ (done : List PendingRelease) (s : MemoryBlockAllocator), s.deferred = done ++ items →
      Tracks (Internal cfg env patient r) (dropLoop cfg env done items) (fun _ _ => True) s := by
  induction items with
  | nil => exact fun _ _ _ => .pure trivial
  | cons item items ih =>
      intro done s hs
      obtain ⟨b, tokens⟩ := item
      apply (dropCompleteTokens_tracks tokens s).bind
      intro left t _ h
      obtain ⟨hst, hleft⟩ := h
      have ht : t.deferred = done ++ (b, tokens) :: items := hst.deferred.trans hs
      refine (Tracks.modify (Q := fun _ u => u.deferred = (done ++ [(b, left)]) ++ items)
        (.dropped ht hleft) (by simp)).bind ?_
      intro _ u _ hu
      exact ih _ u hu

theorem removeReady_deferred (items deferred : List PendingRelease) (s : MemoryBlockAllocator) :
    removeReady items { s with deferred }
      = ((removeReady items s).1, { (removeReady items s).2 with deferred }) := by
  induction items generalizing s with
  | nil => rfl
  | cons item items ih =>
      obtain ⟨b, tokens⟩ := item
      simp only [removeReady]
      split
      · exact ih (s.release b (tokens.headD none))
      · rw [ih s]

/-- The `std::remove_if` of `process` gives back what is ready one by one. -/
theorem removeReady_run (items : List PendingRelease) :
    ∀ (before : List PendingRelease) (s : MemoryBlockAllocator), s.deferred = before ++ items →
      ReflTransGen (Internal cfg env patient r) s
        { (removeReady items s).2 with deferred := before ++ (removeReady items s).1 } := by
  induction items with
  | nil =>
      intro before s hs
      rw [removeReady, ← hs]
  | cons item items ih =>
      intro before s hs
      obtain ⟨b, tokens⟩ := item
      simp only [removeReady]
      split
      · rename_i hready
        -- the one token there may be is the one the block is left with
        have hkept : ∀ t ∈ tokens, t = tokens.headD none ∨ Settled s.trace t := by
          intro t ht
          match tokens, hready, ht with
          | [token], _, ht => exact .inl (List.mem_singleton.mp ht)
        have hrun := ih before { s.release b (tokens.headD none) with deferred := before ++ items }
          rfl
        rw [removeReady_deferred] at hrun
        exact .head (.released hs hkept) hrun
      · have hrun := ih (before ++ [(b, tokens)]) s (by simp [hs])
        simpa using hrun

theorem process_tracks (s : MemoryBlockAllocator) :
    Tracks (Internal cfg env patient r) (process cfg env) (fun _ _ => True) s := by
  refine .get_bind ?_
  apply (dropLoop_tracks s.deferred [] s rfl).bind
  intro _ t _ _
  exact ⟨removeReady_run t.deferred [] t rfl, trivial⟩

/-- `wait_all` leaves nothing held back when it returns. -/
theorem waitAll_tracks (hp : patient) (s : MemoryBlockAllocator) :
    Tracks (Internal cfg env patient r) (waitAll env) (fun _ t => t.deferred = []) s := by
  refine .get_bind ?_
  refine Tracks.forEach (I := fun items (t : MemoryBlockAllocator) => t.deferred = items) ?_
    s.deferred s rfl
  intro item items t ht
  apply (waitEach_tracks hp item.2 t).bind
  intro _ u _ h
  obtain ⟨htu, hsettled⟩ := h
  have hu : u.deferred = [] ++ item :: items := htu.deferred.trans ht
  refine .modify ?_ (by simp [hu])
  have hstep : Internal cfg env patient r u { u.release item.1 none with deferred := [] ++ items } :=
    .released hu fun x hx => .inr (hsettled x hx)
  simpa [hu] using hstep

/-! ## Giving heaps back -/

theorem Sound.pendingTokens (hs : Sound cfg k touched strict rest s) :
    ∃ tokens, s.pool.pendingTokens = some tokens ∧
      Latest (s.pool.freeBlocks.map fun b => (s.pool.block b).pending) tokens :=
  hs.coherent.sorted.pendingTokens_latest fun _ hb => hs.coherent.wellFormed.size_le hb

theorem enumeratePending_tracks (hs : Sound cfg k touched strict rest s) :
    Tracks (Internal cfg env patient r) (enumeratePending env)
      (fun tokens t => Sees s t ∧ ∀ b ∈ s.pool.freeBlocks,
        ∀ c ∈ (s.pool.block b).pending, ∃ token ∈ tokens, Covers token c) s := by
  obtain ⟨tokens, htokens, hlatest⟩ := hs.pendingTokens
  refine .get_bind ?_
  simp only [htokens]
  apply (hostAllocateEach_tracks tokens s).bind
  intro _ t _ hst
  refine .pure ⟨hst, fun b hb c hc => ?_⟩
  exact hlatest.covers (List.mem_map.mpr ⟨b, hb, hc⟩)

theorem releaseUnusedLoop_heap (bs : List BlockId) (result : Nat) (q : MemoryBlockPool) :
    (MemoryBlockPool.releaseUnusedLoop bs result q).2.2.heap = q.heap := by
  induction bs generalizing result q with
  | nil => rfl
  | cons b bs ih =>
      simp only [MemoryBlockPool.releaseUnusedLoop]
      split
      · exact ih result q
      · exact ih _ (q.eraseHeap b)

/-- `release_unused_heaps` lets one heap die after the other. -/
theorem releaseUnusedLoop_run (bs : List BlockId) : ∀ (result : Nat) (s : MemoryBlockAllocator),
    bs.Nodup → (∀ b ∈ bs, b ∈ s.pool.freeBlocks) →
    (∀ b ∈ bs, (s.pool.block b).pending = none) →
    ReflTransGen (Internal cfg env patient r) s
      (destroyHeaps cfg (MemoryBlockPool.releaseUnusedLoop bs result s.pool).2.1
        { s with pool := (MemoryBlockPool.releaseUnusedLoop bs result s.pool).2.2 }) := by
  induction bs with
  | nil => exact fun _ _ _ _ _ => .refl
  | cons b bs ih =>
      intro result s hnd hfree hempty
      obtain ⟨hb, hnd⟩ := List.nodup_cons.mp hnd
      simp only [MemoryBlockPool.releaseUnusedLoop]
      split
      · exact ih result s hnd (fun c hc => hfree c (List.mem_cons_of_mem b hc))
          fun c hc => hempty c (List.mem_cons_of_mem b hc)
      · rename_i hwhole
        have hstep : Internal cfg env patient r s _ := .destroyed (hfree b List.mem_cons_self)
          (hempty b List.mem_cons_self) (Bool.not_eq_true _ ▸ hwhole)
        refine .head hstep ?_
        have hrun := ih (sizeAdd result (s.pool.heap (s.pool.block b).heap).size)
          (giveBack cfg (s.pool.heap (s.pool.block b).heap)
            ({ s with pool := s.pool.eraseHeap b }.log (.heapReleased (s.pool.block b).heap)))
          hnd ?_ ?_
        rotate_left
        · intro c hc
          have hcb : c ≠ b := fun h => hb (h ▸ hc)
          exact (List.mem_erase_of_ne hcb).mpr (hfree c (List.mem_cons_of_mem b hc))
        · exact fun c hc => hempty c (List.mem_cons_of_mem b hc)
        -- the regions of heaps that die are looked up once the loop is over
        have hheap := releaseUnusedLoop_heap bs
          (sizeAdd result (s.pool.heap (s.pool.block b).heap).size) (s.pool.eraseHeap b)
        simp only [destroyHeaps, List.foldl_cons, log, giveBack, hheap] at hrun ⊢
        exact hrun

@[simp] theorem destroyHeaps_pool (heaps : List HeapId) (s : MemoryBlockAllocator) :
    (destroyHeaps cfg heaps s).pool = s.pool := by
  induction heaps generalizing s with
  | nil => rfl
  | cons h heaps ih => exact ih _

@[simp] theorem destroyHeaps_deferred (heaps : List HeapId) (s : MemoryBlockAllocator) :
    (destroyHeaps cfg heaps s).deferred = s.deferred := by
  induction heaps generalizing s with
  | nil => rfl
  | cons h heaps ih => exact ih _

/-- `trim_locked`, when it returns, has drained what was held back and left
nothing that could be given back. -/
theorem trimLocked_tracks (hp : patient) (hs : Sound cfg k touched strict rest s)
    (henv : Truthful k env) (hr : strict → 0 < r) :
    Tracks (Internal cfg env patient r) (trimLocked cfg env)
      (fun _ t => t.deferred = [] ∧ t.pool.Trimmed) s := by
  apply (waitAll_tracks hp s).bind
  intro _ t hst ht
  have hs := (hs.run henv hr hst).1
  apply (enumeratePending_tracks hs).bind
  intro tokens u htu h
  obtain ⟨htu', hcover⟩ := h
  apply (waitEach_tracks hp tokens u).bind
  intro _ v huv h
  obtain ⟨huv', hsettled⟩ := h
  have hseen : Sees t v := htu'.trans huv'
  have hreset : Internal cfg env patient r v { v with pool := v.pool.resetPending } := by
    refine .reset ?_
    -- a wait for the latest token of a timeline settles the earlier ones
    intro b hb c hc
    rw [hseen.pool] at hb hc
    obtain ⟨token, htoken, d, hd, htl, hid⟩ := hcover b hb c hc
    obtain ⟨e, he, htl', hid'⟩ := hsettled token htoken d hd
    exact ⟨e, he, htl'.trans htl, Nat.le_trans hid hid'⟩
  refine (Tracks.modify (Q := fun _ w => w = { v with pool := v.pool.resetPending })
    hreset rfl).bind ?_
  rintro - w - rfl
  -- every free block now carries an empty token
  have hv := ((hs.run henv hr htu).1.run henv hr huv).1
  have hw := hv.internal henv hr hreset
  have hwf : v.pool.resetPending.WellFormed cfg.maxAlignment strict := hw.coherent.wellFormed
  have hunbound := MemoryBlockPool.resetPending_unbound hv.coherent.wellFormed
  have hrun : ReflTransGen (Internal cfg env patient r) { v with pool := v.pool.resetPending } _ :=
    releaseUnusedLoop_run v.pool.resetPending.freeBlocks 0 _ hwf.freeNodup (fun b hb => hb)
      hunbound
  refine ⟨hrun, ?_, ?_⟩
  · show (destroyHeaps cfg _ _).deferred = []
    rw [destroyHeaps_deferred]
    exact hseen.deferred.trans ht
  · show (destroyHeaps cfg _ _).pool.Trimmed
    rw [destroyHeaps_pool]
    exact MemoryBlockPool.resetPending_trimmed hv.coherent.wellFormed hwf

/-! ## Growing -/

theorem wp_hostAllocate {Q : Unit → MemoryBlockAllocator → Prop}
    {E : Exn → MemoryBlockAllocator → Prop} :
    wp (hostAllocate env) Q E s ↔
      if env.hostAllocate s.now then Q () (s.log (.hostAllocate true))
      else E .badAlloc (s.log (.hostAllocate false)) := by
  simp only [hostAllocate, wp_bind, wp_ask, wp_ite]
  cases env.hostAllocate s.now <;> simp

/-- A region of the source becomes a heap of the pool or goes straight back. -/
theorem registerHeap_tracks {allocation size : Nat} (hsize : 0 < size ∧ size < 2 ^ 64)
    (hal : cfg.maxAlignment ∣ size)
    (ht : t = s.log (.sourceAllocate (regionBytes cfg size) (.region allocation))) :
    wp (registerHeap cfg env (some ⟨allocation, alignCeil allocation cfg.maxAlignment, size⟩))
      (fun b u => ReflTransGen (Internal cfg env patient r) s u ∧
        b ∈ u.pool.freeBlocks ∧ (u.pool.block b).size = size)
      (fun _ u => ReflTransGen (Internal cfg env patient r) s u) t := by
  subst ht
  have hdeclined : ∀ hosts : List Event, (∀ e ∈ hosts, ∃ granted, e = .hostAllocate granted) →
      Internal cfg env patient r s { s with trace := .sourceDeallocate allocation (regionBytes cfg size) ::
        (hosts ++ .sourceAllocate (regionBytes cfg size) (.region allocation) :: s.trace) } :=
    fun hosts hquiet => .declined hosts hquiet
  simp only [registerHeap, wp_bind, wp_tryCatch, wp_hostAllocate, wp_modify, wp_throw, wp_get,
    wp_pure]
  -- the host may have no memory for the block, or for the entry of the map
  split
  · split
    · refine ⟨.single (.grew [.hostAllocate true, .hostAllocate true] (by simp) hsize hal), ?_, ?_⟩
      · exact MemoryBlockPool.mem_insertFree.mpr (.inl rfl)
      · exact congrArg MemoryBlock.size MemoryBlockPool.addHeap_block
    · exact .single (hdeclined [.hostAllocate false, .hostAllocate true] (by simp))
  · exact .single (hdeclined [.hostAllocate false] (by simp))

/-- One round of `grow`. -/
theorem takeHeap_tracks {size : Nat} (hsize : size < 2 ^ 64) (hal : cfg.maxAlignment ∣ size) :
    Tracks (Internal cfg env patient r)
      (do
        let heap ← makeHeap cfg env size cfg.maxAlignment
        registerHeap cfg env (some heap))
      (fun b t => b ∈ t.pool.freeBlocks ∧ (t.pool.block b).size = size) s := by
  unfold Tracks
  simp only [makeHeap, wp_bind]
  have hhost : Tracks (Internal cfg env patient r) (hostAllocate env) (fun _ t => Sees s t) s :=
    hostAllocate_tracks
  refine wp_mono hhost ?_ fun _ _ h => h
  intro _ t h
  obtain ⟨hst, -⟩ := h
  rw [wp_ite]
  split
  · -- an empty heap is refused before the source is asked
    exact hst
  · rename_i hzero
    simp only [wp_bind, wp_ask]
    cases hanswer : env.sourceAllocate t.now (sizeAdd size (padding cfg cfg.maxAlignment)) with
    | region allocation =>
        show wp (registerHeap cfg env (some ⟨allocation, _, size⟩)) _ _ (t.log _)
        exact wp_mono (registerHeap_tracks (s := t) (r := r) ⟨by omega, hsize⟩ hal rfl)
          (fun b u h => ⟨hst.trans h.1, h.2⟩) (fun e u h => hst.trans h)
    | refused => exact hst.tail (.asked trivial False.elim)
    | failed => exact hst.tail (.asked trivial False.elim)

theorem getHeapSize_spec (poolSize : Nat) {size : Nat} (hsize : size < 2 ^ 64)
    (hal : cfg.maxAlignment ∣ size) :
    size ≤ getHeapSize cfg poolSize size ∧ getHeapSize cfg poolSize size < 2 ^ 64 ∧
      cfg.maxAlignment ∣ getHeapSize cfg poolSize size := by
  unfold getHeapSize
  split
  · exact ⟨Nat.le_refl _, hsize, hal⟩
  · refine ⟨Nat.le_max_right _ _, Nat.max_lt.mpr ⟨cfg.alignCeil_lt _, hsize⟩, ?_⟩
    rcases Nat.le_total (alignCeil (min (max (max poolSize size) cfg.minHeap) cfg.maxHeap)
      cfg.maxAlignment) size with h | h
    · rw [Nat.max_eq_right h]
      exact hal
    · rw [Nat.max_eq_left h]
      exact cfg.alignCeil_dvd _

/-- `grow`, when it returns, has a free block that is big enough. -/
theorem growLoop_tracks {size : Nat} (hsize : size < 2 ^ 64) (hal : cfg.maxAlignment ∣ size)
    (fuel : Nat) : ∀ (heapSize : Nat) (s : MemoryBlockAllocator),
      size ≤ heapSize → heapSize < 2 ^ 64 → cfg.maxAlignment ∣ heapSize →
      Tracks (Internal cfg env patient r) (growLoop cfg env size fuel heapSize)
        (fun b t => b ∈ t.pool.freeBlocks ∧ size ≤ (t.pool.block b).size) s := by
  induction fuel with
  | zero => exact fun _ _ _ _ _ => .throw _
  | succ fuel ih =>
      intro heapSize s hle hlt hdvd
      refine Tracks.tryCatch ?_ ?_
      · apply (takeHeap_tracks hlt hdvd).mono
        intro b t _ h
        obtain ⟨hfree, hblock⟩ := h
        exact ⟨hfree, by omega⟩
      · intro e t _
        cases e with
        | badAlloc =>
            show Tracks _ (if heapSize ≤ size then Prog.throw Exn.badAlloc else _) _ t
            split
            · exact .throw _
            · -- half of it is still enough, and still aligned
              have hceil := cfg.alignCeil_lt (heapSize / 2)
              apply ih _ t (Nat.le_max_left _ _) (Nat.max_lt.mpr ⟨hsize, hceil⟩)
              rcases Nat.le_total size (alignCeil (heapSize / 2) cfg.maxAlignment) with h | h
              · rw [Nat.max_eq_right h]
                exact cfg.alignCeil_dvd _
              · rw [Nat.max_eq_left h]
                exact hal
        | invalidArgument what => exact .throw _
        | outOfRange what => exact .throw _
        | error => exact .throw _
        | diverged => exact .throw _

theorem grow_tracks {size : Nat} (hsize : size < 2 ^ 64) (hal : cfg.maxAlignment ∣ size) :
    Tracks (Internal cfg env patient r) (grow cfg env size)
      (fun b t => b ∈ t.pool.freeBlocks ∧ size ≤ (t.pool.block b).size) s := by
  refine .get_bind ?_
  obtain ⟨hle, hlt, hdvd⟩ := getHeapSize_spec s.pool.getSize hsize hal
  exact growLoop_tracks hsize hal env.fuel _ s hle hlt hdvd

/-! ## Allocating -/

section Allocate

variable (hs : Sound cfg k touched strict rest s)

section Choose

variable (henv : Truthful k env) {size : Nat} {timeline : Option Timeline}
  (hr : strict → 0 < r) (hlt : size < 2 ^ 64) (hal : cfg.maxAlignment ∣ size)

include hs henv hr hlt hal

theorem retry_tracks (hp : patient) :
    Tracks (Internal cfg env patient r) (retry cfg env size timeline)
      (fun b t => b ∈ t.pool.freeBlocks ∧ size ≤ (t.pool.block b).size) s := by
  apply (trimLocked_tracks hp hs henv hr).bind
  rintro - t - -
  refine .get_bind ?_
  cases hfind : t.pool.findSuitableBlock size timeline with
  | some b => exact .pure (MemoryBlockPool.findSuitableBlock_some hfind)
  | none => exact grow_tracks hlt hal

omit henv hr hlt hal in
/-- A rule for the block `acquire_block` settles on: a search finds it, or the
pool has to grow, and once more if that fails for want of memory. -/
theorem Sound.wp_chooseBlock {Q : BlockId → MemoryBlockAllocator → Prop}
    {E : Exn → MemoryBlockAllocator → Prop}
    (hfound : ∀ b ∈ s.pool.freeBlocks, size ≤ (s.pool.block b).size →
      s.pool.findSuitableBlock size timeline = some b ∨
        s.pool.findSuitableBlock size timeline = none ∧
          s.pool.findForeignBlock size timeline = some (some b) → Q b s)
    (hgrow : s.pool.findSuitableBlock size timeline = none →
      s.pool.findForeignBlock size timeline = some none →
      wp (grow cfg env size) Q (fun e t =>
        (e = .badAlloc → wp (retry cfg env size timeline) Q E t) ∧ (e ≠ .badAlloc → E e t)) s) :
    wp (chooseBlock cfg env size timeline) Q E s := by
  simp only [chooseBlock, wp_bind, wp_get]
  cases hfind : s.pool.findSuitableBlock size timeline with
  | some b =>
      obtain ⟨hfree, hfits⟩ := MemoryBlockPool.findSuitableBlock_some hfind
      exact hfound b hfree hfits (.inl hfind)
  | none =>
      have hwf := hs.coherent.wellFormed
      have hforeign := hs.coherent.sorted.findForeignBlock_eq (fun b hb => hwf.size_le hb) size timeline
      simp only [hforeign]
      cases hfound' : (s.pool.foreign size timeline).argmin fun c => (s.pool.block c).size with
      | some b =>
          obtain ⟨hfree, -, -, hfits⟩ := MemoryBlockPool.mem_foreign.mp (List.argmin_mem hfound')
          exact hfound b hfree hfits (.inr ⟨hfind, by rw [hforeign, hfound']⟩)
      | none =>
          simp only [wp_tryCatch]
          apply wp_mono (hgrow hfind (by rw [hforeign, hfound'])) fun _ _ h => h
          intro e t h
          cases e with
          | badAlloc => exact h.1 rfl
          | invalidArgument what => exact h.2 (by simp)
          | outOfRange what => exact h.2 (by simp)
          | error => exact h.2 (by simp)
          | diverged => exact h.2 (by simp)

theorem chooseBlock_tracks (hp : patient) :
    Tracks (Internal cfg env patient r) (chooseBlock cfg env size timeline)
      (fun b t => b ∈ t.pool.freeBlocks ∧ size ≤ (t.pool.block b).size) s := by
  apply hs.wp_chooseBlock
  · exact fun b hfree hfits _ => ⟨.refl, hfree, hfits⟩
  · intro _ _
    apply wp_mono (grow_tracks hlt hal) fun _ _ h => h
    intro e t hst
    refine ⟨fun _ => ?_, fun _ => hst⟩
    have hretry : Tracks (Internal cfg env patient r) (retry cfg env size timeline) _ t :=
      retry_tracks (hs.run henv hr hst).1 henv hr hlt hal hp
    exact wp_mono hretry (fun _ _ h => ⟨hst.trans h.1, h.2⟩) fun _ _ h => hst.trans h

end Choose

include hs

/-- The block is cut to what was asked for. -/
theorem cutTo_tracks (hal : cfg.maxAlignment ∣ r) (hb : b ∈ s.pool.freeBlocks)
    (hsize : r ≤ (s.pool.block b).size) :
    Tracks (Internal cfg env patient r) (cutTo env r b)
      (fun b t => b ∈ t.pool.freeBlocks ∧ (t.pool.block b).size = r) s := by
  have hwf := hs.coherent.wellFormed
  have hin := (hwf.inside (hwf.freeSub b hb)).2.2
  have hrem : sizeSub (s.pool.block b).size r = (s.pool.block b).size - r :=
    sizeSub_of_le hsize (by omega)
  refine .get_bind ?_
  simp only [hrem]
  split
  · rename_i hleft
    apply hostAllocate_tracks.bind
    rintro - t - hst
    refine .get_bind ?_
    have hpool := hst.pool
    have hstep : Internal cfg env patient r t { t with
        pool := (t.pool.partitionBlock b r ((s.pool.block b).size - r)).2 } := by
      refine .partitioned ?_ ?_ hleft hal
      · rw [hpool]
        exact hb
      · rw [hpool]
        omega
    refine (Tracks.modify (Q := fun _ u => u = { t with
      pool := (t.pool.partitionBlock b r ((s.pool.block b).size - r)).2 }) hstep rfl).bind ?_
    rintro - u - rfl
    obtain ⟨hfirst, hrec⟩ :=
      MemoryBlockPool.partitionBlock_first t.pool b r ((s.pool.block b).size - r)
    exact .pure ⟨hfirst, congrArg MemoryBlock.size hrec⟩
  · -- nothing is left over
    exact .pure ⟨hb, by omega⟩

end Allocate

/-- A rule for `allocate`: it refuses its arguments, `process` throws, or a block
is acquired from what `process` leaves. -/
theorem Sound.wp_allocate (hs : Sound cfg k touched strict rest s) (henv : Truthful k env)
    (hr : strict → 0 < r) {size alignment : Nat} {timeline : Option Timeline}
    {P : MemoryBlockAllocator → Prop} {Q : BlockId → MemoryBlockAllocator → Prop}
    {E : Exn → MemoryBlockAllocator → Prop}
    (hrefused : ¬ (hasSingleBit alignment = true ∧ alignment ≤ cfg.maxAlignment) →
      ∀ what, E (.invalidArgument what) s)
    (hprocess : wp (process cfg env) (fun _ t => P t) E s)
    (hacquire : ∀ t, ReflTransGen (Internal cfg env patient r) s t →
      Sound cfg k touched strict rest t → P t →
      wp (acquireBlock cfg env (alignCeil (max size 1) cfg.maxAlignment) timeline) Q E t) :
    wp (allocate cfg env size alignment timeline) Q E s := by
  unfold allocate
  split
  · rename_i hbit
    apply hrefused
    intro ⟨hsingle, _⟩
    simp [hsingle] at hbit
  · split
    · rename_i hbig
      apply hrefused
      intro ⟨_, hle⟩
      omega
    · have htracks : Tracks (Internal cfg env patient r) (process cfg env) (fun _ _ => True) s :=
        process_tracks s
      rw [wp_bind]
      apply wp_mono (wp_and hprocess htracks) ?_ fun _ _ h => h.1
      intro _ t ⟨hP, hst, _⟩
      exact hacquire t hst (hs.run henv hr hst).1 hP

/-- **What `allocate` does**: it takes steps, whether it returns or throws, and
then hands out a free block of exactly the rounded size. -/
theorem allocate_spec (hp : patient) (size alignment : Nat) (timeline : Option Timeline)
    (hs : Sound cfg k touched strict rest s) (henv : Truthful k env)
    (hr : strict → 0 < alignCeil (max size 1) cfg.maxAlignment) :
    wp (allocate cfg env size alignment timeline)
      (fun b u => ∃ t,
        ReflTransGen (Internal cfg env patient (alignCeil (max size 1) cfg.maxAlignment)) s t ∧
        b ∈ t.pool.freeBlocks ∧
        (t.pool.block b).size = alignCeil (max size 1) cfg.maxAlignment ∧ u = t.acquire b)
      (fun _ u =>
        ReflTransGen (Internal cfg env patient (alignCeil (max size 1) cfg.maxAlignment)) s u) s := by
  have hlt := cfg.alignCeil_lt (max size 1)
  have hal := cfg.alignCeil_dvd (max size 1)
  apply hs.wp_allocate henv hr
  · exact fun _ _ => .refl
  · exact process_tracks s
  · intro t hst ht _
    simp only [acquireBlock, wp_bind]
    refine wp_mono (chooseBlock_tracks ht henv hr hlt hal hp) ?_ fun _ _ h => hst.trans h
    intro b u h
    obtain ⟨htu, hfree, hsize⟩ := h
    have hu := (ht.run henv hr htu).1
    have hcut : Tracks (Internal cfg env patient _) (cutTo env _ b) _ u :=
      cutTo_tracks hu hal hfree hsize
    refine wp_mono hcut ?_ ?_
    · intro c v h
      exact ⟨v, (hst.trans htu).trans h.1, h.2.1, h.2.2, rfl⟩
    · intro e v huv
      exact (hst.trans htu).trans huv

end MemoryBlockAllocator

end RexlibCuda
