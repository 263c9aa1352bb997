import RexlibCuda.LeftAlone
import RexlibCuda.Lib.TwoRuns
import RexlibCuda.PoolBlindness

/-! The token of a block that is handed out is invisible to its allocator: two
allocators that differ in such tokens only do the same, and end up differing in
nothing else. -/

namespace RexlibCuda

open Completion Prog

open Relation (ReflTransGen)

namespace MemoryBlockAllocator

open MemoryBlockPool (Alike)

variable {cfg : Config} {env : Environment} {B B' : Set BlockId} {s s' : MemoryBlockAllocator}
  {b : BlockId}

/-- **The allocators are the same** but for the tokens of blocks of `B` that are
not free. -/
structure SameBut (B : Set BlockId) (s s' : MemoryBlockAllocator) : Prop where
  pool : Alike B s.pool s'.pool
  deferred : s'.deferred = s.deferred
  trace : s'.trace = s.trace

namespace SameBut

theorem refl (B : Set BlockId) (s : MemoryBlockAllocator) : SameBut B s s := ⟨.refl B _, rfl, rfl⟩

theorem mono (h : SameBut B s s') (hB : B ⊆ B') : SameBut B' s s' :=
  ⟨h.pool.mono hB, h.deferred, h.trace⟩

theorem log (h : SameBut B s s') (e : Event) : SameBut B (s.log e) (s'.log e) :=
  ⟨h.pool, h.deferred, congrArg (e :: ·) h.trace⟩

theorem acquire (h : SameBut B s s') (b : BlockId) : SameBut B (s.acquire b) (s'.acquire b) :=
  ⟨h.pool.acquire b, h.deferred, (h.log (.acquired b)).trace⟩

theorem release (h : SameBut B s s') (b : BlockId) (t : CommandToken) :
    SameBut (B \ {b}) (s.release b t) (s'.release b t) :=
  ⟨h.pool.release b t, h.deferred, (h.log (.released b)).trace⟩

theorem withDeferred (h : SameBut B s s') (deferred : List PendingRelease) :
    SameBut B { s with deferred } { s' with deferred } := ⟨h.pool, rfl, h.trace⟩

theorem withPool (h : SameBut B s s') {p q : MemoryBlockPool} (hpool : Alike B p q) :
    SameBut B { s with pool := p } { s' with pool := q } := ⟨hpool, h.deferred, h.trace⟩

theorem of_diff (h : SameBut (B \ {b}) s s') : SameBut B s s' := h.mono Set.sdiff_subset

end SameBut

/-- Both are asked alike, and go on alike. -/
abbrev Twin (B : Set BlockId) {α : Type} (x x' : Action α) (s s' : MemoryBlockAllocator) : Prop :=
  Agree (SameBut B) (fun _ => SameBut B) x x' s s'

/-! ## Asking -/

theorem ask_twin {α : Type} (answer : Nat → α) (event : α → Event) (h : SameBut B s s') :
    Twin B (ask answer event) (ask answer event) s s' := by
  have hnow : s'.now = s.now := congrArg List.length h.trace
  apply Agree.intro
  · simp only [ask, hnow]
  · simp only [ask, hnow]
    exact h.log _

theorem hostAllocate_twin (h : SameBut B s s') :
    Twin B (hostAllocate env) (hostAllocate env) s s' := by
  apply (ask_twin _ _ h).bind
  intro granted t t' ht
  split
  · exact .pure () ht
  · exact .throw _ ht

theorem isComplete_twin (token : CommandToken) (h : SameBut B s s') :
    Twin B (isComplete env token) (isComplete env token) s s' := by
  cases token with
  | none => exact .pure true h
  | some command =>
      apply (ask_twin _ _ h).bind
      intro answer t t' ht
      cases answer with
      | none => exact .throw _ ht
      | some complete => exact .pure complete ht

theorem wait_twin (token : CommandToken) (h : SameBut B s s') :
    Twin B (wait env token) (wait env token) s s' := by
  cases token with
  | none => exact .pure () h
  | some command =>
      apply (ask_twin _ _ h).bind
      intro returned t t' ht
      split
      · exact .pure () ht
      · exact .throw _ ht

theorem queryAll_twin (tokens : List CommandToken) : ∀ s s', SameBut B s s' →
    Twin B (queryAll env tokens) (queryAll env tokens) s s' := by
  induction tokens with
  | nil => exact fun s s' h => .pure [] h
  | cons token tokens ih =>
      intro s s' h
      apply (isComplete_twin token h).bind
      intro complete t t' ht
      apply (ih t t' ht).bind
      exact fun rest u u' hu => .pure _ hu

/-! ## What is held back -/

theorem dropCompleteTokens_twin (tokens : List CommandToken) (h : SameBut B s s') :
    Twin B (dropCompleteTokens cfg env tokens) (dropCompleteTokens cfg env tokens) s s' := by
  have hflags : Twin B (completionFlags cfg env tokens.length)
      (completionFlags cfg env tokens.length) s s' := by
    unfold completionFlags
    split
    · exact hostAllocate_twin h
    · exact .pure () h
  apply hflags.bind
  intro _ t t' ht
  apply (queryAll_twin tokens t t' ht).bind
  exact fun complete u u' hu => .pure _ hu

theorem dropLoop_twin (items : List PendingRelease) : ∀ (done : List PendingRelease) s s',
    SameBut B s s' → Twin B (dropLoop cfg env done items) (dropLoop cfg env done items) s s' := by
  induction items with
  | nil => exact fun done s s' h => .pure () h
  | cons item items ih =>
      intro done s s' h
      obtain ⟨b, tokens⟩ := item
      apply (dropCompleteTokens_twin tokens h).bind
      intro left t t' ht
      refine (Agree.modify (ht.withDeferred (done ++ (b, left) :: items))).bind ?_
      exact fun _ u u' hu => ih _ u u' hu

theorem removeReady_twin (items : List PendingRelease) : ∀ s s', SameBut B s s' →
    (removeReady items s').1 = (removeReady items s).1 ∧
      SameBut B (removeReady items s).2 (removeReady items s').2 := by
  induction items with
  | nil => exact fun s s' h => ⟨rfl, h⟩
  | cons item items ih =>
      intro s s' h
      obtain ⟨b, tokens⟩ := item
      simp only [removeReady]
      split
      · exact ih _ _ (h.release b _).of_diff
      · obtain ⟨hstays, hrest⟩ := ih s s' h
        exact ⟨congrArg ((b, tokens) :: ·) hstays, hrest⟩

theorem process_twin (h : SameBut B s s') : Twin B (process cfg env) (process cfg env) s s' := by
  apply Agree.get_bind
  rw [h.deferred]
  apply (dropLoop_twin s.deferred [] s s' h).bind
  intro _ t t' ht
  apply Agree.modify
  obtain ⟨hstays, hrest⟩ := removeReady_twin t.deferred t t' ht
  rw [ht.deferred]
  exact ⟨hrest.pool, hstays, hrest.trace⟩

theorem waitAll_twin (h : SameBut B s s') : Twin B (waitAll env) (waitAll env) s s' := by
  apply Agree.get_bind
  rw [h.deferred]
  apply Agree.forEach _ _ _ _ h
  intro item t t' ht
  have hwaits : Twin B (forEach (wait env) item.2) (forEach (wait env) item.2) t t' :=
    Agree.forEach (fun token u u' hu => wait_twin token hu) item.2 t t' ht
  apply hwaits.bind
  intro _ u u' hu
  apply Agree.modify
  rw [hu.deferred]
  exact ((hu.release item.1 none).of_diff).withDeferred _

theorem defer_twin (b : BlockId) (tokens : List CommandToken) (h : SameBut B s s') :
    Twin B (defer env b tokens) (defer env b tokens) s s' := by
  unfold defer
  split
  · exact .throw _ h
  · apply (hostAllocate_twin h).bind
    intro _ t t' ht
    apply (hostAllocate_twin ht).bind
    intro _ u u' hu
    apply Agree.modify
    rw [hu.deferred]
    exact hu.withDeferred _

/-! ## Trimming -/

theorem destroyHeaps_twin (heaps : List HeapId) : ∀ s s', SameBut B s s' →
    SameBut B (destroyHeaps cfg heaps s) (destroyHeaps cfg heaps s') := by
  induction heaps with
  | nil => exact fun s s' h => h
  | cons g heaps ih =>
      intro s s' h
      have hheap : s'.pool.heap g = s.pool.heap g := congrFun h.pool.heap g
      apply ih
      simp only [giveBack, hheap]
      exact (h.log _).log _

theorem releaseUnusedHeaps_twin (h : SameBut B s s') :
    Twin B (releaseUnusedHeaps cfg) (releaseUnusedHeaps cfg) s s' := by
  obtain ⟨hbytes, hgiven, hpool⟩ := h.pool.releaseUnusedHeaps
  apply Agree.intro
  · exact congrArg Except.ok hbytes
  · show SameBut B (destroyHeaps cfg s.pool.releaseUnusedHeaps.2.1 _)
      (destroyHeaps cfg s'.pool.releaseUnusedHeaps.2.1 _)
    rw [hgiven]
    exact destroyHeaps_twin _ _ _ (h.withPool hpool)

theorem enumeratePending_twin (h : SameBut B s s') :
    Twin B (enumeratePending env) (enumeratePending env) s s' := by
  apply Agree.get_bind
  rw [h.pool.pendingTokens]
  split
  · exact .throw _ h
  · apply (Agree.forEach (fun _ t t' ht => hostAllocate_twin ht) _ s s' h).bind
    exact fun _ t t' ht => .pure _ ht

theorem trimLocked_twin (h : SameBut B s s') :
    Twin B (trimLocked cfg env) (trimLocked cfg env) s s' := by
  apply (waitAll_twin h).bind
  intro _ t t' ht
  apply (enumeratePending_twin ht).bind
  intro pending u u' hu
  apply (Agree.forEach (fun token v v' hv => wait_twin token hv) pending u u' hu).bind
  intro _ v v' hv
  apply (Agree.modify (hv.withPool hv.pool.resetPending)).bind
  exact fun _ w w' hw => releaseUnusedHeaps_twin hw

/-! ## Growing -/

theorem makeHeap_twin (size alignment : Nat) (h : SameBut B s s') :
    Twin B (makeHeap cfg env size alignment) (makeHeap cfg env size alignment) s s' := by
  apply (hostAllocate_twin h).bind
  intro _ t t' ht
  split
  · exact .throw _ ht
  · apply (ask_twin _ _ ht).bind
    intro answer u u' hu
    cases answer with
    | region allocation => exact .pure _ hu
    | refused => exact .throw _ hu
    | failed => exact .throw _ hu

theorem registerHeap_twin (heap : MemoryHeap) (h : SameBut B s s') :
    Twin B (registerHeap cfg env (some heap)) (registerHeap cfg env (some heap)) s s' := by
  have hhost : Twin B (do hostAllocate env; hostAllocate env)
      (do hostAllocate env; hostAllocate env) s s' :=
    (hostAllocate_twin h).bind fun _ t t' ht => hostAllocate_twin ht
  refine (hhost.tryCatch ?_).bind ?_
  · intro e t t' ht
    exact (Agree.modify (ht.log _)).bind fun _ u u' hu => .throw e hu
  · intro _ t t' ht
    apply Agree.get_bind
    obtain ⟨hblock, hpool⟩ := ht.pool.registerHeap heap
    rw [hblock]
    exact (Agree.modify (ht.withPool hpool)).bind fun _ u u' hu => .pure _ hu

theorem growLoop_twin (size : Nat) (fuel : Nat) : ∀ (heapSize : Nat) s s', SameBut B s s' →
    Twin B (growLoop cfg env size fuel heapSize) (growLoop cfg env size fuel heapSize) s s' := by
  induction fuel with
  | zero => exact fun _ s s' h => .throw _ h
  | succ fuel ih =>
      intro heapSize s s' h
      have htake : Twin B
          (do
            let heap ← makeHeap cfg env heapSize cfg.maxAlignment
            registerHeap cfg env (some heap))
          (do
            let heap ← makeHeap cfg env heapSize cfg.maxAlignment
            registerHeap cfg env (some heap)) s s' :=
        (makeHeap_twin _ _ h).bind fun heap t t' ht => registerHeap_twin heap ht
      apply htake.tryCatch
      intro e t t' ht
      cases e with
      | badAlloc =>
          show Twin B (if heapSize ≤ size then _ else _) (if heapSize ≤ size then _ else _) t t'
          split
          · exact .throw _ ht
          · exact ih _ t t' ht
      | _ => exact .throw _ ht

theorem grow_twin (size : Nat) (h : SameBut B s s') :
    Twin B (grow cfg env size) (grow cfg env size) s s' := by
  apply Agree.get_bind
  rw [show s'.pool.getSize = s.pool.getSize from h.pool.size]
  exact growLoop_twin _ _ _ _ _ h

/-! ## Allocating -/

theorem retry_twin (size : Nat) (timeline : Option Timeline) (h : SameBut B s s') :
    Twin B (retry cfg env size timeline) (retry cfg env size timeline) s s' := by
  apply (trimLocked_twin h).bind
  intro _ t t' ht
  apply Agree.get_bind
  rw [ht.pool.findSuitableBlock]
  split
  · exact .pure _ ht
  · exact grow_twin size ht

theorem chooseBlock_twin (size : Nat) (timeline : Option Timeline) (h : SameBut B s s') :
    Twin B (chooseBlock cfg env size timeline) (chooseBlock cfg env size timeline) s s' := by
  apply Agree.get_bind
  rw [h.pool.findSuitableBlock, h.pool.findForeignBlock]
  split
  · exact .pure _ h
  · split
    · exact .throw _ h
    · exact .pure _ h
    · apply (grow_twin size h).tryCatch
      intro e t t' ht
      cases e with
      | badAlloc => exact retry_twin size timeline ht
      | _ => exact .throw _ ht

/-- The block that is cut has to be free. -/
theorem partitionBlock_twin (firstSize secondSize : Nat) (hb : b ∈ s.pool.freeBlocks)
    (h : SameBut B s s') :
    Twin B (partitionBlock env b firstSize secondSize) (partitionBlock env b firstSize secondSize)
      s s' := by
  have hpool : wp (hostAllocate env) (fun _ t => t.pool = s.pool) (fun _ _ => True) s := by
    rw [wp_hostAllocate]
    split
    · rfl
    · trivial
  apply (hostAllocate_twin h).bind_of hpool
  intro _ t t' hpool ht
  apply Agree.get_bind
  obtain ⟨hfirst, hcut⟩ := ht.pool.partitionBlock (hpool ▸ hb) firstSize secondSize
  rw [hfirst]
  exact (Agree.modify (ht.withPool hcut)).bind fun _ u u' hu => .pure _ hu

theorem cutTo_twin (size : Nat) (hb : b ∈ s.pool.freeBlocks) (h : SameBut B s s') :
    Twin B (cutTo env size b) (cutTo env size b) s s' := by
  apply Agree.get_bind
  rw [h.pool.free hb]
  show Twin B (if sizeSub (s.pool.block b).size size > 0 then _ else _)
    (if sizeSub (s.pool.block b).size size > 0 then _ else _) s s'
  split
  · exact partitionBlock_twin _ _ hb h
  · exact .pure b h

section Sound

variable {k : Clock Timeline} {touched : HeapId → Nat → Command → Prop} {rest : List BlockId}

/-- **Both allocate alike**, and the block they hand out comes with the same
token. -/
theorem allocate_agree (hs : Sound cfg k touched False rest s) (henv : Truthful k env)
    (size alignment : Nat) (timeline : Option Timeline) (h : SameBut B s s') :
    Agree (SameBut B) (fun b => SameBut (B \ {b})) (allocate cfg env size alignment timeline)
      (allocate cfg env size alignment timeline) s s' := by
  unfold allocate
  split
  · exact .throw _ h
  · split
    · exact .throw _ h
    · have hlt := cfg.alignCeil_lt (max size 1)
      have hal := cfg.alignCeil_dvd (max size 1)
      have hprocess : Tracks (Internal cfg env True 1) (process cfg env) (fun _ _ => True) s :=
        process_tracks s
      have hsound : wp (process cfg env) (fun _ t => Sound cfg k touched False rest t)
          (fun _ _ => True) s :=
        wp_mono hprocess (fun _ t ht => (hs.run henv False.elim ht.1).1) fun _ _ _ => trivial
      apply (process_twin h).bind_of hsound
      intro _ t t' ht' ht
      -- what is chosen is free, so that both cut it alike
      have hchoose : Tracks (Internal cfg env True 1) (chooseBlock cfg env _ timeline) _ t :=
        chooseBlock_tracks ht' henv False.elim hlt hal trivial
      have hchosen : wp (chooseBlock cfg env (alignCeil (max size 1) cfg.maxAlignment) timeline)
          (fun b u => Sound cfg k touched False rest u ∧ b ∈ u.pool.freeBlocks ∧
            alignCeil (max size 1) cfg.maxAlignment ≤ (u.pool.block b).size)
          (fun _ _ => True) t :=
        wp_mono hchoose (fun _ u hu => ⟨(ht'.run henv False.elim hu.1).1, hu.2⟩)
          fun _ _ _ => trivial
      apply (chooseBlock_twin _ timeline ht).bind_of hchosen
      rintro b u u' ⟨hu', hb, hfits⟩ hu
      -- what it is cut to is free, and so are the tokens of both the same
      have hcut : Tracks (Internal cfg env True _) (cutTo env _ b) _ u :=
        cutTo_tracks hu' hal hb hfits
      have hfree : wp (cutTo env (alignCeil (max size 1) cfg.maxAlignment) b)
          (fun c v => c ∈ v.pool.freeBlocks) (fun _ _ => True) u :=
        wp_mono hcut (fun _ _ hv => hv.2.1) fun _ _ _ => trivial
      apply (cutTo_twin _ hb hu).bind_of hfree
      intro c v v' hc hv
      have hsame : SameBut (B \ {c}) v v' := { hv with pool := hv.pool.diff_free hc }
      exact (Agree.modify (hsame.acquire c)).bind fun _ w w' hw => .pure c hw

theorem allocate_twin (hs : Sound cfg k touched False rest s) (henv : Truthful k env)
    (size alignment : Nat) (timeline : Option Timeline) (h : SameBut B s s') :
    Twin B (allocate cfg env size alignment timeline) (allocate cfg env size alignment timeline)
      s s' :=
  (allocate_agree hs henv size alignment timeline h).mono (fun _ _ h => h) fun _ _ _ h => h.of_diff

end Sound

/-- **Both take a block back alike**, whatever its token was. -/
theorem recycle_twin (b : BlockId) (tokens : List CommandToken) (h : SameBut B s s') :
    Twin B (recycle env b tokens) (recycle env b tokens) s s' := by
  unfold recycle
  split
  · exact .modify (h.release b _).of_diff
  · apply (defer_twin b tokens h).tryCatch
    intro e t t' ht
    exact .modify (ht.log _)

/-! ## Tokens that are set from outside -/

/-- `memory_block::set_pending`, by whoever has the block. -/
def setToken (b : BlockId) (token : CommandToken) (s : MemoryBlockAllocator) :
    MemoryBlockAllocator :=
  { s with pool := s.pool.setPending b token }

theorem SameBut.setToken (h : SameBut B s s') (hb : b ∉ s.pool.freeBlocks)
    (token token' : CommandToken) :
    SameBut (insert b B) (s.setToken b token) (s'.setToken b token') :=
  ⟨h.pool.tamper hb token token', h.deferred, h.trace⟩

theorem SameBut.self (hb : b ∉ s.pool.freeBlocks) (token : CommandToken) :
    SameBut {b} s (s.setToken b token) := ⟨.self hb token, rfl, rfl⟩

/-- What differs in the token of a block only has that token set. -/
theorem SameBut.eq_setToken (h : SameBut {b} s s') :
    s' = s.setToken b (s'.pool.block b).pending := by
  obtain ⟨hpool, hdeferred, htrace⟩ := h
  cases s' with
  | mk pool deferred trace =>
      simp only at hpool hdeferred htrace
      rw [hdeferred, htrace]
      exact congrArg (fun pool => { s with pool }) hpool.eq_setPending

/-- **Setting the token of `b` before `x` or after it comes to the same.** -/
def Commutes {α : Type} (b : BlockId) (token : CommandToken) (x : Action α)
    (s : MemoryBlockAllocator) : Prop :=
  x (s.setToken b token) = ((x s).1, (x s).2.setToken b token)

/-- It does for a program that does not look at the token and leaves the block
as it is. -/
theorem Commutes.of_twin {α : Type} {x : Action α} {token : CommandToken}
    (hx : Twin {b} x x s (s.setToken b token))
    (hkept : (x (s.setToken b token)).2.pool.block b = (s.setToken b token).pool.block b) :
    Commutes b token x s := by
  have hpending : ((x (s.setToken b token)).2.pool.block b).pending = token := by
    rw [hkept]
    exact MemoryBlockPool.setPending_pending
  have hfinal := hx.final.eq_setToken
  rw [hpending] at hfinal
  rw [Commutes, ← hfinal, ← hx.result]

/-- **The token of the block is invisible** to the allocator, whatever it is
asked to do and whatever the token is set to. -/
structure Invisible (cfg : Config) (env : Environment) (s : MemoryBlockAllocator) (b : BlockId)
    (token : CommandToken) : Prop where
  allocate : ∀ size alignment timeline,
    Commutes b token (MemoryBlockAllocator.allocate cfg env size alignment timeline) s
  trim : Commutes b token (MemoryBlockAllocator.trim cfg env) s
  recycle : ∀ c tokens, c ≠ b → Commutes b token (MemoryBlockAllocator.recycle env c tokens) s
  /-- It is as good as not set at all where the block itself is recycled. -/
  itself : ∀ tokens, Twin {b} (MemoryBlockAllocator.recycle env b tokens)
    (MemoryBlockAllocator.recycle env b tokens) s (s.setToken b token)

end MemoryBlockAllocator

namespace Session

open MemoryBlockAllocator (SameBut Twin Invisible)

variable {cfg : Config} {env : Environment} {B : Set BlockId} {s t t' : Session} {b : BlockId}

theorem Sound.handed_not_free (hs : Sound cfg (Clock.always Timeline) False s)
    (hb : b ∈ s.out.map Prod.fst) : b ∉ s.alloc.pool.freeBlocks := by
  have hcoh := hs.alloc.coherent
  exact hcoh.accounted.not_free hcoh.wellFormed
    (List.mem_append_right _ (List.mem_append_left _ hb))

theorem Sound.invisible (hs : Sound cfg (Clock.always Timeline) False s)
    (hb : b ∈ s.out.map Prod.fst) (token : CommandToken) : Invisible cfg env s.alloc b token := by
  have hset := hs.setPending hb token
  have hself := SameBut.self (hs.handed_not_free hb) token
  have hrest : b ∈ s.out.map Prod.fst ++ lostBlocks s.alloc.trace := List.mem_append_left _ hb
  constructor
  · intro size alignment timeline
    apply MemoryBlockAllocator.Commutes.of_twin
    · exact MemoryBlockAllocator.allocate_twin hs.alloc (.always env) size alignment timeline hself
    · exact ((hset.allocate_leftAlone size alignment timeline).out b hrest fun _ h => by cases h).record
  · apply MemoryBlockAllocator.Commutes.of_twin
    · exact MemoryBlockAllocator.trimLocked_twin hself
    · have hleft : OthersLeftAlone cfg env _ .trim _ := hset.run_leftAlone (hset.trim_run (.always env))
      exact (hleft.out b hrest fun _ h => by cases h).record
  · intro c tokens hcb
    apply MemoryBlockAllocator.Commutes.of_twin
    · exact MemoryBlockAllocator.recycle_twin c tokens hself
    · exact (MemoryBlockAllocator.recycle_frame env c tokens _).block b (by simpa using hcb.symm)
  · exact fun tokens => MemoryBlockAllocator.recycle_twin b tokens hself

/-! ## Two runs -/

/-- Two runs that make the same calls from `start` on. In between, each sets the
tokens of blocks that are handed out as it likes; those of `B` have been, since
they were handed out. -/
inductive Lockstep (cfg : Config) (env : Environment) (start : Session) :
    Set BlockId → Session → Session → Prop
  | start : Lockstep cfg env start ∅ start start
  | allocated {B : Set BlockId} {t t' : Session} {size alignment : Nat}
      {timeline : Option Timeline} (promised : size < 2 ^ 64)
      (before : Lockstep cfg env start B t t') :
      Lockstep cfg env start
        (B \ {b | (MemoryBlockAllocator.allocate cfg env size alignment timeline t.alloc).1 = .ok b})
        (t.allocate cfg env size alignment timeline) (t'.allocate cfg env size alignment timeline)
  | recycled {B : Set BlockId} {t t' : Session} {front back : List (BlockId × List Command)}
      {b : BlockId} {commands : List Command} {tokens : List CommandToken}
      (has : t.out = front ++ (b, commands) :: back)
      (before : Lockstep cfg env start B t t') :
      Lockstep cfg env start B
        { t with
          alloc := (MemoryBlockAllocator.recycle env b tokens t.alloc).2
          out := front ++ back }
        { t' with
          alloc := (MemoryBlockAllocator.recycle env b tokens t'.alloc).2
          out := front ++ back }
  | trimmed {B : Set BlockId} {t t' : Session} (before : Lockstep cfg env start B t t') :
      Lockstep cfg env start B
        { t with alloc := (MemoryBlockAllocator.trim cfg env t.alloc).2 }
        { t' with alloc := (MemoryBlockAllocator.trim cfg env t'.alloc).2 }
  | used {B : Set BlockId} {t t' : Session} {front back : List (BlockId × List Command)}
      {b : BlockId} {commands : List Command} {c : Command}
      (has : t.out = front ++ (b, commands) :: back)
      (before : Lockstep cfg env start B t t') :
      Lockstep cfg env start B
        { t with
          out := front ++ (b, c :: commands) :: back
          uses := t.alloc.pool.useOf b c :: t.uses }
        { t' with
          out := front ++ (b, c :: commands) :: back
          uses := t'.alloc.pool.useOf b c :: t'.uses }
  /-- The two need not set the same token. -/
  | tampered {B : Set BlockId} {t t' : Session} {b : BlockId} {token token' : CommandToken}
      (has : b ∈ t.out.map Prod.fst) (before : Lockstep cfg env start B t t') :
      Lockstep cfg env start (insert b B)
        { t with alloc := t.alloc.setToken b token }
        { t' with alloc := t'.alloc.setToken b token' }
  | asked {B : Set BlockId} {t t' : Session} {e : Event} (answered : Answered env t.alloc.now e)
      (before : Lockstep cfg env start B t t') :
      Lockstep cfg env start B
        { t with alloc := t.alloc.log e } { t' with alloc := t'.alloc.log e }

/-- **The two are the same** but for the tokens of blocks of `B`. -/
structure Paired (cfg : Config) (B : Set BlockId) (t t' : Session) : Prop where
  sound : Sound cfg (Clock.always Timeline) False t
  alloc : SameBut B t.alloc t'.alloc
  out : t'.out = t.out
  uses : t'.uses = t.uses

/-- What is handed out in both is the same, and comes with the same token. -/
theorem Paired.allocated (h : Paired cfg B t t') {size : Nat} (alignment : Nat)
    (timeline : Option Timeline) (promised : size < 2 ^ 64) :
    Paired cfg
      (B \ {b | (MemoryBlockAllocator.allocate cfg env size alignment timeline t.alloc).1 = .ok b})
      (t.allocate cfg env size alignment timeline)
      (t'.allocate cfg env size alignment timeline) := by
  have hstep : Step cfg env .any t _ := allocate_step alignment timeline t promised
  have hsound := h.sound.step (.always env) False.elim (.always .any) hstep
  have hagree : Agree (SameBut B) (fun b => SameBut (B \ {b}))
      (MemoryBlockAllocator.allocate cfg env size alignment timeline) _ t.alloc t'.alloc :=
    MemoryBlockAllocator.allocate_agree h.sound.alloc (.always env) size alignment timeline h.alloc
  obtain ⟨hresult, hreturned, hthrown⟩ := hagree
  unfold allocate at hsound ⊢
  cases hrun : MemoryBlockAllocator.allocate cfg env size alignment timeline t.alloc with
  | mk result a =>
      cases hrun' : MemoryBlockAllocator.allocate cfg env size alignment timeline t'.alloc with
      | mk result' a' =>
          simp only [hrun, hrun'] at hsound hresult hreturned hthrown ⊢
          subst hresult
          cases result' with
          | ok b =>
              have hsame := hreturned b rfl
              have hsub : B \ {b} ⊆ B \ {c | (Except.ok b : Except Exn BlockId) = .ok c} := by
                rintro c ⟨hc, hcb⟩
                exact ⟨hc, fun heq => hcb (Except.ok.inj heq).symm⟩
              have hrecord : a'.pool.block b = a.pool.block b := hsame.pool.block (.inl (by simp))
              exact ⟨hsound, hsame.mono hsub, by simp only [hrecord, h.out], h.uses⟩
          | error e =>
              have hsub : B ⊆ B \ {c | (Except.error e : Except Exn BlockId) = .ok c} :=
                fun c hc => ⟨hc, nofun⟩
              exact ⟨hsound, (hthrown e rfl).mono hsub, h.out, h.uses⟩

/-- **All along, the two are the same** but for the tokens that have been set. -/
theorem Lockstep.paired (h : Lockstep cfg env s B t t')
    (hs : Sound cfg (Clock.always Timeline) False s) : Paired cfg B t t' := by
  have hstep : ∀ {u v : Session}, Sound cfg (Clock.always Timeline) False u →
      Step cfg env .any u v → Sound cfg (Clock.always Timeline) False v :=
    fun hu huv => hu.step (.always env) False.elim (.always .any) huv
  induction h with
  | start => exact ⟨hs, .refl ∅ s.alloc, rfl, rfl⟩
  | allocated promised _ ih => exact ih.allocated _ _ promised
  | recycled has _ ih =>
      exact
        { sound := hstep ih.sound (.recycled has trivial)
          alloc := (MemoryBlockAllocator.recycle_twin _ _ ih.alloc).final
          out := rfl
          uses := ih.uses }
  | trimmed _ ih =>
      exact
        { sound := hstep ih.sound .trimmed
          alloc := (MemoryBlockAllocator.trimLocked_twin ih.alloc).final
          out := ih.out
          uses := ih.uses }
  | @used B t t' front back b commands c has _ ih =>
      have huse : t'.alloc.pool.useOf b c = t.alloc.pool.useOf b c := by
        obtain ⟨hsize, hheap, hoffset⟩ := ih.alloc.pool.layout b
        simp only [MemoryBlockPool.useOf, hsize, hheap, hoffset]
      exact
        { sound := hstep ih.sound (.used c has)
          alloc := ih.alloc
          out := rfl
          uses := by rw [huse, ih.uses] }
  | tampered has _ ih =>
      exact
        { sound := ih.sound.setPending has _
          alloc := ih.alloc.setToken (ih.sound.handed_not_free has) _ _
          out := ih.out
          uses := ih.uses }
  | asked answered _ ih =>
      exact
        { sound := hstep ih.sound (.asked answered)
          alloc := ih.alloc.log _
          out := ih.out
          uses := ih.uses }

/-- **Every call is answered alike**, and leaves the two the same but for those
tokens. The block that is handed out comes with the same token. -/
structure SameCalls (cfg : Config) (env : Environment) (B : Set BlockId)
    (s s' : MemoryBlockAllocator) : Prop where
  allocate : ∀ size alignment timeline, Agree (SameBut B) (fun b => SameBut (B \ {b}))
    (MemoryBlockAllocator.allocate cfg env size alignment timeline)
    (MemoryBlockAllocator.allocate cfg env size alignment timeline) s s'
  trim : Twin B (MemoryBlockAllocator.trim cfg env) (MemoryBlockAllocator.trim cfg env) s s'
  recycle : ∀ b tokens, Twin B (MemoryBlockAllocator.recycle env b tokens)
    (MemoryBlockAllocator.recycle env b tokens) s s'

theorem Paired.sameCalls (h : Paired cfg B t t') : SameCalls cfg env B t.alloc t'.alloc where
  allocate size alignment timeline :=
    MemoryBlockAllocator.allocate_agree h.sound.alloc (.always env) size alignment timeline h.alloc
  trim := MemoryBlockAllocator.trimLocked_twin h.alloc
  recycle b tokens := MemoryBlockAllocator.recycle_twin b tokens h.alloc

/-- **The token of a block that is handed out is invisible.** Setting it before
a call or after it comes to the same, and two runs that differ in such tokens
only stay the same everywhere else. The tokens that have been set may be any. -/
theorem token_invisible (hrun : ReflTransGen (Step cfg env .any) Session.empty s) :
    (∀ b ∈ s.out.map Prod.fst, ∀ token, Invisible cfg env s.alloc b token) ∧
    ∀ B t t', Lockstep cfg env s B t t' →
      (∀ b ∈ t.out.map Prod.fst, ∀ token, Invisible cfg env t.alloc b token) ∧
      SameBut B t.alloc t'.alloc ∧ t'.out = t.out ∧ SameCalls cfg env B t.alloc t'.alloc := by
  have hs := Sound.reached hrun
  constructor
  · exact fun b hb token => hs.invisible hb token
  · intro B t t' h
    have hpaired := h.paired hs
    refine ⟨fun b hb token => hpaired.sound.invisible hb token, ?_⟩
    exact ⟨hpaired.alloc, hpaired.out, hpaired.sameCalls⟩

/-- A kilobyte is handed out next to free memory that a command still uses. -/
theorem token_invisible_recycled :
    Invisible .default .generous recycledKilobyte.alloc 2 (some seventh) ∧
    SameCalls .default .generous {2} (recycledKilobyte.alloc.setToken 2 none)
      (recycledKilobyte.alloc.setToken 2 (some seventh)) := by
  have hset : Lockstep .default .generous recycledKilobyte (insert 2 ∅)
      { recycledKilobyte with alloc := recycledKilobyte.alloc.setToken 2 none }
      { recycledKilobyte with alloc := recycledKilobyte.alloc.setToken 2 (some seventh) } :=
    .tampered (by decide) .start
  obtain ⟨hcalls, hruns⟩ := token_invisible recycledKilobyte_reached
  obtain ⟨-, -, -, hsame⟩ := hruns _ _ _ hset
  exact ⟨hcalls 2 (by decide) (some seventh), by simpa using hsame⟩

end Session

end RexlibCuda
