import RexlibCuda.AllocatorSession

/-! When `memory_block_allocator` gives heaps back to their source, and what is
left of a `trim` that a wait put an end to. -/

namespace RexlibCuda

open Completion Prog

open Relation (ReflTransGen)

namespace MemoryBlockAllocator

variable {cfg : Config} {env : Environment} {k : Clock Timeline}
  {touched : HeapId → Nat → Command → Prop} {strict : Prop} {rest : List BlockId}
  {s t u : MemoryBlockAllocator}

/-! ## What a trim that fails leaves behind -/

/-- No heap went back on the way from `s` to `t`, and no free block that had a
token to wait for was touched. -/
structure Keeps (s t : MemoryBlockAllocator) : Prop where
  heaps : t.pool.heaps = s.pool.heaps
  trace : ∃ es, t.trace = es ++ s.trace ∧ ∀ h, .heapReleased h ∉ es
  tokens : ∀ b ∈ s.pool.freeBlocks, (s.pool.block b).pending ≠ none →
    b ∈ t.pool.freeBlocks ∧ t.pool.block b = s.pool.block b

theorem Keeps.refl : Keeps s s :=
  ⟨rfl, ⟨[], rfl, by simp⟩, fun _ hb _ => ⟨hb, rfl⟩⟩

theorem Keeps.trans (h : Keeps s t) (h' : Keeps t u) : Keeps s u where
  heaps := h'.heaps.trans h.heaps
  trace := by
    obtain ⟨es, htrace, hes⟩ := h.trace
    obtain ⟨es', htrace', hes'⟩ := h'.trace
    refine ⟨es' ++ es, by rw [htrace', htrace, List.append_assoc], ?_⟩
    intro g hg
    exact (List.mem_append.mp hg).elim (hes' g) (hes g)
  tokens b hb ht := by
    obtain ⟨hfree, hrec⟩ := h.tokens b hb ht
    obtain ⟨hfree', hrec'⟩ := h'.tokens b hfree (by rw [hrec]; exact ht)
    exact ⟨hfree', hrec'.trans hrec⟩

theorem Keeps.log {e : Event} (he : ∀ h, e ≠ .heapReleased h) : Keeps s (s.log e) where
  heaps := rfl
  trace := ⟨[e], rfl, fun h hmem => he h (List.mem_singleton.mp hmem).symm⟩
  tokens _ hb _ := ⟨hb, rfl⟩

/-- What was thrown comes of a wait that failed, or of the host having no
memory. -/
def Blamed (e : Exn) (es : List Event) : Prop :=
  (∃ c, .wait c false ∈ es) ∨ e = .badAlloc ∧ .hostAllocate false ∈ es

/-- A trim has failed with `e`, and left things as they were. -/
structure Fails (s : MemoryBlockAllocator) (e : Exn) (t : MemoryBlockAllocator) : Prop where
  keeps : Keeps s t
  blamed : ∃ es, t.trace = es ++ s.trace ∧ Blamed e es

theorem Keeps.fails {e : Exn} (h : Keeps s t) (h' : Fails t e u) : Fails s e u := by
  refine ⟨h.trans h'.keeps, ?_⟩
  obtain ⟨es, htrace, -⟩ := h.trace
  obtain ⟨es', htrace', hblamed⟩ := h'.blamed
  refine ⟨es' ++ es, by simp [htrace, htrace'], ?_⟩
  apply hblamed.imp
  · intro h
    obtain ⟨c, hc⟩ := h
    exact ⟨c, List.mem_append_left es hc⟩
  · exact And.imp_right (List.mem_append_left es)

theorem hostAllocate_keeps (s : MemoryBlockAllocator) :
    wp (hostAllocate env) (fun _ t => Keeps s t) (Fails s) s := by
  rw [wp_hostAllocate]
  split
  · exact .log (by simp)
  · exact ⟨.log (by simp), [.hostAllocate false], rfl, .inr ⟨rfl, by simp⟩⟩

theorem wait_keeps (token : CommandToken) (s : MemoryBlockAllocator) :
    wp (wait env token) (fun _ t => Keeps s t) (Fails s) s := by
  cases token with
  | none => exact .refl
  | some command =>
      simp only [wait, wp_bind, wp_ask, wp_ite, wp_pure, wp_throw]
      cases env.wait s.now command with
      | true => exact .log (by simp)
      | false => exact ⟨.log (by simp), [.wait command false], rfl, .inl ⟨command, by simp⟩⟩

/-- A loop whose rounds all keep things keeps them. -/
theorem forEach_keeps {α : Type} {body : α → Action Unit}
    (hbody : ∀ x s, wp (body x) (fun _ t => Keeps s t) (Fails s) s)
    (xs : List α) (s : MemoryBlockAllocator) :
    wp (forEach body xs) (fun _ t => Keeps s t) (Fails s) s := by
  induction xs generalizing s with
  | nil => exact .refl
  | cons x xs ih =>
      show wp (body x >>= fun _ => forEach body xs) _ _ s
      rw [wp_bind]
      refine wp_mono (hbody x s) ?_ fun _ _ h => h
      intro _ t hst
      exact wp_mono (ih t) (fun _ _ h => hst.trans h) (fun _ _ h => hst.fails h)

/-- The blocks `wait_all` gives back carry no token, so they merge with none
that does. -/
theorem waitAll_keeps (henv : Truthful k env) (hs : Sound cfg k touched False rest s) :
    wp (waitAll env) (fun _ t => Keeps s t) (Fails s) s := by
  have hloop : ∀ (items : List PendingRelease) (s : MemoryBlockAllocator), s.deferred = items →
      Sound cfg k touched False rest s →
      wp (forEach
        (fun item => do
          forEach (wait env) item.2
          modify fun s => { s.release item.1 none with deferred := s.deferred.tail }) items)
        (fun _ t => Keeps s t) (Fails s) s := by
    intro items
    induction items with
    | nil => exact fun _ _ _ => .refl
    | cons item items ih =>
        intro s hitems hs
        have hwait : Tracks (Internal cfg env True 0) (forEach (wait env) item.2) _ s :=
          waitEach_tracks trivial item.2 s
        simp only [forEach, wp_bind, wp_modify]
        refine wp_mono (wp_and hwait (forEach_keeps wait_keeps item.2 s)) ?_ fun _ _ h => h.2
        intro _ t h
        obtain ⟨⟨hrun, hsees, hsettled⟩, hst⟩ := h
        have ht := (hs.run henv False.elim hrun).1
        have htitems : t.deferred = [] ++ item :: items := hsees.deferred.trans hitems
        have hstep : Internal cfg env True 0 t
            { t.release item.1 none with deferred := [] ++ items } :=
          .released htitems fun x hx => .inr (hsettled x hx)
        have htail : t.deferred.tail = [] ++ items := by simp [htitems]
        rw [htail]
        -- a block without a token merges with none that has one
        have hrelease : Keeps t { t.release item.1 none with deferred := [] ++ items } := by
          have hcoh := ht.coherent
          rw [htitems] at hcoh
          refine ⟨(t.pool.release_frame item.1 none).heaps, ⟨[.released item.1], rfl,
            by simp⟩, ?_⟩
          intro b hb htoken
          apply MemoryBlockPool.release_keeps hcoh.accounted hcoh.wellFormed hb
          simpa [CommandToken.getTimeline_eq_none] using htoken
        have hrest := ih _ rfl (ht.internal henv False.elim hstep)
        have hsu := hst.trans hrelease
        exact wp_mono hrest (fun _ _ h => hsu.trans h) (fun _ _ h => hsu.fails h)
  exact hloop s.deferred s rfl hs

/-- The pool is what `reset_pending` and `release_unused_heaps` leave of that of
`s`, and `n` is what the latter returned. -/
structure GaveHeaps (cfg : Config) (s : MemoryBlockAllocator) (n : Nat)
    (t : MemoryBlockAllocator) : Prop where
  bytes : n = s.pool.resetPending.releaseUnusedHeaps.1
  final : t = destroyHeaps cfg s.pool.resetPending.releaseUnusedHeaps.2.1
    { s with pool := s.pool.resetPending.releaseUnusedHeaps.2.2 }

/-- **A trim that throws has given no heap back**, and has emptied the token of
no block that was free. One that returns had come so far without that, too. -/
theorem trimLocked_keeps (henv : Truthful k env) (hs : Sound cfg k touched False rest s) :
    wp (trimLocked cfg env)
      (fun n t => ∃ v, Keeps s v ∧ ReflTransGen (Internal cfg env True 0) s v ∧
        GaveHeaps cfg v n t)
      (Fails s) s := by
  have hwait : Tracks (Internal cfg env True 0) (waitAll env) _ s := waitAll_tracks trivial s
  simp only [trimLocked, wp_bind]
  refine wp_mono (wp_and hwait (waitAll_keeps henv hs)) ?_ fun _ _ h => h.2
  intro _ t h
  obtain ⟨⟨hrun, -⟩, hst⟩ := h
  have ht := (hs.run henv False.elim hrun).1
  have hpending : wp (enumeratePending env) (fun _ u => Keeps t u) (Fails t) t := by
    obtain ⟨tokens, htokens, -⟩ := ht.pendingTokens
    simp only [enumeratePending, wp_bind, wp_get, htokens, wp_pure]
    exact forEach_keeps (fun _ s => hostAllocate_keeps s) tokens t
  have henumerate : Tracks (Internal cfg env True 0) (enumeratePending env) _ t :=
    enumeratePending_tracks ht
  refine wp_mono (wp_and henumerate hpending) ?_ fun _ _ h => hst.fails h.2
  intro tokens u h
  obtain ⟨⟨hrun', -⟩, htu⟩ := h
  have heach : Tracks (Internal cfg env True 0) (forEach (wait env) tokens) _ u :=
    waitEach_tracks trivial tokens u
  refine wp_mono (wp_and heach (forEach_keeps wait_keeps tokens u)) ?_
    fun _ _ h => (hst.trans htu).fails h.2
  -- from here on nothing throws
  intro _ v h
  obtain ⟨⟨hrun'', -⟩, huv⟩ := h
  simp only [releaseUnusedHeaps, wp_bind, wp_get, wp_modify, wp_pure]
  exact ⟨v, (hst.trans htu).trans huv, (hrun.trans hrun').trans hrun'', rfl, rfl⟩

end MemoryBlockAllocator

namespace Session

variable {cfg : Config} {env : Environment} {k : Clock Timeline} {s : Session}

/-- What is known of the heaps that have gone back, and of a trim that fails. -/
structure ReleasesSafely (cfg : Config) (env : Environment) (k : Clock Timeline) (s : Session) :
    Prop where
  /-- When a heap went back, all that ever touched it had finished. -/
  complete : ∀ h trace, (.heapReleased h :: trace) <:+ s.alloc.trace →
    ∀ x c, s.touched h x c → Complete k trace.length c
  /-- None of its blocks was handed out, held back or lost. -/
  unheld : ∀ h trace, (.heapReleased h :: trace) <:+ s.alloc.trace →
    ∀ b ∈ holders trace, (s.alloc.pool.block b).heap ≠ h
  /-- These are all the heaps the pool does not have any more. -/
  gone : ∀ h < s.alloc.pool.nextHeap,
    h ∈ s.alloc.pool.heaps ∨ .heapReleased h ∈ s.alloc.trace
  trim : ∀ e a, MemoryBlockAllocator.trim cfg env s.alloc = (.error e, a) → s.alloc.Keeps a

/-- **A heap goes back only once nobody can be using it.** -/
theorem heap_release_safe (henv : Truthful k env)
    (hrun : ReflTransGen (Step cfg env (.covering k)) Session.empty s) :
    ReleasesSafely cfg env k s := by
  have hs := (Sound.empty cfg k False).run henv False.elim (Contract.covering_covers k) hrun
  exact
    { complete := fun h trace htr => (hs.alloc.dead h trace htr).complete
      unheld := fun h trace htr b hb => ((hs.alloc.dead h trace htr).unheld b hb).2
      gone := hs.alloc.died
      trim := fun e a h =>
        (wp_thrown (MemoryBlockAllocator.trimLocked_keeps henv hs.alloc) h).keeps }

/-- A block is used by a command, given back with its token, and its heap goes
back once the command has been waited for. -/
theorem heap_release_safe_trim : ∃ s, ReleasesSafely .default tickingEnvironment ticking s ∧
    .heapReleased 0 ∈ s.alloc.trace := by
  have hallocate : Step .default tickingEnvironment (.covering ticking) Session.empty
      (Session.empty.allocate .default tickingEnvironment 1000 256 none) :=
    allocate_step 256 none _ (by decide : 1000 < 2 ^ 64)
  have hused := @Step.used .default tickingEnvironment (.covering ticking) _ [] [] 1 []
    ⟨⟨1, by decide⟩, 7⟩ (show (Session.empty.allocate .default tickingEnvironment 1000 256
      none).out = [(1, [])] from rfl)
  have hcovers : ∀ n, (Contract.covering ticking).tokens n [⟨⟨1, by decide⟩, 7⟩]
      [some ⟨⟨1, by decide⟩, 7⟩] := by
    intro n c hc
    rw [List.mem_singleton.mp hc]
    exact .of_mem List.mem_cons_self (Covers.self _)
  have hrun := ((ReflTransGen.single hallocate).tail hused).tail
    (@Step.recycled .default tickingEnvironment (.covering ticking) _ [] [] 1 _ _ rfl (hcovers _))
  exact ⟨_, heap_release_safe ticking_truthful (hrun.tail .trimmed), by decide⟩

end Session

end RexlibCuda
