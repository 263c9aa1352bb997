import RexlibCuda.AllocatorRuns

/-! Runs of `memory_block_allocator` with its callers: who has been handed
which block, and which commands have used it. What the callers promise is a
parameter of the runs. -/

namespace RexlibCuda

open Completion Prog

open Relation (ReflTransGen)

namespace MemoryBlockAllocator

variable {cfg : Config} {env : Environment} {k : Clock Timeline}
  {touched touched' : HeapId → Nat → Command → Prop} {strict : Prop} {rest rest' : List BlockId}
  {s : MemoryBlockAllocator} {b : BlockId} {tokens : List CommandToken}

/-! ## Blocks that change hands -/

/-- The order in which the blocks outside are listed does not matter. -/
theorem Sound.perm (hs : Sound cfg k touched strict rest s) (h : rest.Perm rest') :
    Sound cfg k touched strict rest' s where
  coherent := hs.coherent.perm (h.append_left _)
  held := hs.held
  observed := hs.observed
  holders := hs.holders.trans (h.append_left _)
  balanced := hs.balanced
  outstanding := hs.outstanding
  inside := hs.inside
  dead := hs.dead
  died := hs.died

/-- A free block is handed out. -/
theorem Sound.acquire (hs : Sound cfg k touched strict rest s) (hb : b ∈ s.pool.freeBlocks) :
    Sound cfg k touched strict (b :: rest) (s.acquire b) := by
  have hnow : s.now ≤ (s.acquire b).now := Nat.le_succ _
  have hperm : (b :: (s.deferred.map Prod.fst ++ rest)).Perm
      (s.deferred.map Prod.fst ++ b :: rest) := List.perm_middle.symm
  have hnew : b ∉ RexlibCuda.holders s.trace := by
    intro h
    exact hs.coherent.accounted.not_free hs.coherent.wellFormed (hs.holders.mem_iff.mp h) hb
  have hev : s.pool.Evolves rest (s.pool.acquire b) := MemoryBlockPool.acquire_evolves
  exact
    { coherent := ((hs.coherent.acquire hb).perm hperm).weaken fun _ _ _ => ledger_mono hnow
      held := fun d hd x hx c hc => (hs.held d hd x hx c hc).mono hnow
      observed := by
        intro c hc
        refine (hs.observed c ?_).mono hnow
        exact hc.imp (fun h => by simpa [MemoryBlockAllocator.acquire, log] using h)
          (fun h => by simpa [MemoryBlockAllocator.acquire, log] using h)
      holders := (hs.holders.cons b).trans hperm
      balanced := ⟨hnew, hs.balanced⟩
      outstanding := hs.outstanding
      inside := hs.inside
      dead := fun h trace htr => by
        exact (hs.dead h trace (suffix_of_append [.acquired b] htr (by simp))).evolves hev
      died := fun h hh => (hs.died h hh).imp_right (List.mem_cons_of_mem _) }

/-- A block that is handed out is held back, with tokens that cover all that
touched it. -/
theorem Sound.defer (hs : Sound cfg k touched strict (b :: rest) s)
    (hcover : ∀ x, (s.pool.extent b).Has x → ∀ c, touched (s.pool.block b).heap x c →
      Covered k s.now tokens c) :
    Sound cfg k touched strict rest { s with deferred := s.deferred ++ [(b, tokens)] } := by
  have hperm : (s.deferred.map Prod.fst ++ b :: rest).Perm
      ((s.deferred ++ [(b, tokens)]).map Prod.fst ++ rest) := by simp
  exact
    { coherent := hs.coherent.perm hperm
      held := by
        intro d hd
        rcases List.mem_append.mp hd with hd | hd
        · exact hs.held d hd
        · rw [List.mem_singleton.mp hd]
          exact hcover
      observed := hs.observed
      holders := hs.holders.trans hperm
      balanced := hs.balanced
      outstanding := hs.outstanding
      inside := hs.inside
      dead := hs.dead
      died := hs.died }

/-- That a block is lost is only noted. -/
theorem Sound.lost (hs : Sound cfg k touched strict rest s) (b : BlockId) :
    Sound cfg k touched strict rest (s.log (.lost b)) := by
  apply hs.append [.lost b] rfl (.refl _) hs.balanced (by simp)
  intro c hc
  exact .inl (hc.imp (fun h => by simpa using h) (fun h => by simpa using h))

/-- The token of a block that is handed out is nobody's concern. -/
theorem Sound.setPending (hs : Sound cfg k touched strict rest s) (hb : b ∈ rest)
    (token : CommandToken) :
    Sound cfg k touched strict rest { s with pool := s.pool.setPending b token } := by
  have hwf := hs.coherent.wellFormed
  have hacc := hs.coherent.accounted
  have hfree : b ∉ s.pool.freeBlocks := hacc.not_free hwf (List.mem_append_right _ hb)
  have hother : ∀ c ∈ s.pool.freeBlocks, (s.pool.setPending b token).block c = s.pool.block c := by
    intro c hc
    exact MemoryBlockPool.setPending_of_ne fun hcb => hfree (hcb ▸ hc)
  have hnd := hacc.nodup hwf
  refine hs.pool ⟨hwf.setPending, hs.coherent.sorted.congr rfl hother, ?_, hacc⟩ ?_ rfl rfl
  · intro c hc
    exact (hs.coherent.guarded c hc).congr (hother c hc)
  · apply (MemoryBlockPool.Frame.setPending (B := [b]) List.mem_cons_self).evolves
    intro c hc hcb
    rw [List.mem_singleton.mp hcb] at hc
    exact (List.nodup_append.mp hnd).2.2 b hc b hb rfl

/-- A command touches bytes of a block that is not in the pool. -/
theorem Sound.touch (hs : Sound cfg k touched strict rest s) (hb : b ∈ rest)
    (htouched : ∀ h x c, touched' h x c → touched h x c ∨
      h = (s.pool.block b).heap ∧ (s.pool.extent b).Has x) :
    Sound cfg k touched' strict rest s := by
  have hwf := hs.coherent.wellFormed
  have hacc := hs.coherent.accounted
  have hbb : b ∈ s.pool.blocks := hacc.mem (List.mem_append_right _ hb)
  -- no byte of another block is among those touched
  have hold : ∀ c ∈ s.pool.blocks, c ≠ b → ∀ x, (s.pool.extent c).Has x →
      ∀ d, touched' (s.pool.block c).heap x d → touched (s.pool.block c).heap x d := by
    intro c hc hcb x hx d hd
    rcases htouched _ x d hd with h | ⟨hheap, hx'⟩
    · exact h
    · exact absurd hx' (hwf.apart hc hbb hcb hheap hx)
  have hheap : ∀ h x c, touched' h x c → touched h x c ∨ h ∈ s.pool.heaps ∧
      h < s.pool.nextHeap ∧ x < (s.pool.heap h).size := by
    intro h x c hc
    apply (htouched h x c hc).imp_right
    rintro ⟨rfl, hx⟩
    obtain ⟨hh, hle, -⟩ := hwf.inside hbb
    simp only [MemoryBlockPool.extent, Tiling.Extent.Has] at hx
    exact ⟨hh, hwf.heapsFresh _ hh, by omega⟩
  exact
    { coherent :=
        { wellFormed := hwf
          sorted := hs.coherent.sorted
          guarded := by
            intro c hc x hx d hd
            have hcb : c ≠ b := by
              rintro rfl
              exact hacc.not_free hwf (List.mem_append_right _ hb) hc
            exact hs.coherent.guarded c hc x hx d (hold c (hwf.freeSub c hc) hcb x hx d hd)
          accounted := hacc }
      held := by
        intro e he x hx d hd
        have hmem : e.1 ∈ s.deferred.map Prod.fst := List.mem_map_of_mem he
        have hcb : e.1 ≠ b := fun h =>
          (List.nodup_append.mp (hacc.nodup hwf)).2.2 e.1 hmem b hb h
        refine hs.held e he x hx d (hold e.1 ?_ hcb x hx d hd)
        exact hacc.mem (List.mem_append_left _ hmem)
      observed := hs.observed
      holders := hs.holders
      balanced := hs.balanced
      outstanding := hs.outstanding
      inside := by
        intro h x c hc
        rcases hheap h x c hc with hc | ⟨-, hin⟩
        · exact hs.inside h x c hc
        · exact hin
      dead := by
        intro h trace htr
        have hd := hs.dead h trace htr
        refine ⟨hd.below, hd.gone, fun x c hc => ?_, hd.unheld⟩
        rcases hheap h x c hc with hc | ⟨hh, -⟩
        · exact hd.complete x c hc
        · exact absurd hh hd.gone
      died := hs.died }

/-- **What `recycle` does**: it gives the block back, holds it back, or loses
it for want of host memory. -/
theorem recycle_spec (env : Environment) (b : BlockId) (tokens : List CommandToken)
    (s : MemoryBlockAllocator) :
    (tokens.length < 2 ∧ (recycle env b tokens s).2 = s.release b (tokens.headD none)) ∨
      ∃ hosts, (∀ e ∈ hosts, ∃ granted, e = Event.hostAllocate granted) ∧
        ((recycle env b tokens s).2 = { s with
            deferred := s.deferred ++ [(b, tokens)], trace := hosts ++ s.trace } ∨
          (recycle env b tokens s).2 =
            ({ s with trace := hosts ++ s.trace } : MemoryBlockAllocator).log (.lost b)) := by
  unfold recycle
  split
  · rename_i hlen
    exact .inl ⟨hlen, rfl⟩
  · rename_i hlen
    refine .inr (wp_final (P := fun t => ∃ hosts,
      (∀ e ∈ hosts, ∃ granted, e = Event.hostAllocate granted) ∧
        (t = { s with deferred := s.deferred ++ [(b, tokens)], trace := hosts ++ s.trace } ∨
          t = ({ s with trace := hosts ++ s.trace } : MemoryBlockAllocator).log (.lost b))) ?_)
    simp only [MemoryBlockAllocator.defer, if_neg hlen, wp_tryCatch, wp_bind, wp_hostAllocate,
      wp_modify]
    split
    · split
      · exact ⟨[.hostAllocate true, .hostAllocate true], by simp, .inl rfl⟩
      · exact ⟨[.hostAllocate false, .hostAllocate true], by simp, .inr rfl⟩
    · exact ⟨[.hostAllocate false], by simp, .inr rfl⟩

/-- No block but the one that is given back changes. -/
theorem recycle_frame (env : Environment) (b : BlockId) (tokens : List CommandToken)
    (s : MemoryBlockAllocator) :
    MemoryBlockPool.Frame [b] s.pool (recycle env b tokens s).2.pool := by
  rcases recycle_spec env b tokens s with ⟨-, hfinal⟩ | ⟨hosts, -, hfinal | hfinal⟩
  · rw [hfinal]
    exact s.pool.release_frame b _
  · rw [hfinal]
    exact .refl
  · rw [hfinal]
    exact .refl

end MemoryBlockAllocator

/-- A command that used the bytes of a block that was handed out. -/
structure Use where
  heap : HeapId
  offset : Nat
  size : Nat
  command : Command

/-- The command touched this byte of the heap. -/
def Use.Touches (u : Use) (h : HeapId) (x : Nat) : Prop :=
  u.heap = h ∧ u.offset ≤ x ∧ x < u.offset + u.size

/-- The bytes of its heap that a block stands for were used by the command. -/
def MemoryBlockPool.useOf (p : MemoryBlockPool) (b : BlockId) (c : Command) : Use :=
  ⟨(p.block b).heap, (p.block b).offset, (p.block b).size, c⟩

/-- An allocator and its callers. -/
structure Session where
  alloc : MemoryBlockAllocator
  /-- The blocks that are handed out. With each, the command of the token it
  was handed out with, and those that have used it since. -/
  out : List (BlockId × List Command)
  /-- Every use there has ever been. -/
  uses : List Use

/-- What the callers promise: which sizes they ask for, and which tokens they
give a block back with at a moment, for the commands that go with it. -/
structure Contract where
  size : Nat → Prop
  tokens : Nat → List Command → List CommandToken → Prop

/-- The tokens a block is given back with cover the commands that go with it. -/
def Contract.Covers (C : Contract) (k : Clock Timeline) : Prop :=
  ∀ n commands tokens, C.tokens n commands tokens → ∀ c ∈ commands, Covered k n tokens c

/-- Nothing has to be covered where commands take no time. -/
theorem Contract.Covers.always (C : Contract) : C.Covers (Clock.always Timeline) :=
  fun _ _ _ _ _ _ => .inl trivial

/-- The callers promise nothing but to give back what they were handed, once. -/
def Contract.any : Contract where
  size n := n < 2 ^ 64
  tokens _ _ _ := True

/-- They promise besides that no size they ask for wraps when it is rounded up. -/
def Contract.sized (cfg : Config) : Contract where
  size n := n ≤ 2 ^ 64 - cfg.maxAlignment
  tokens _ _ _ := True

/-- The callers give a block back with tokens that cover the commands that have
to be waited for: the one of the token it was handed out with, and those that
have used it since. -/
def Contract.covering (k : Clock Timeline) : Contract where
  size n := n < 2 ^ 64
  tokens n commands tokens := ∀ c ∈ commands, Covered k n tokens c

theorem Contract.covering_covers (k : Clock Timeline) : (Contract.covering k).Covers k :=
  fun _ _ _ h => h

theorem Contract.sized_pos {cfg : Config} {size : Nat} (h : (Contract.sized cfg).size size) :
    0 < alignCeil (max size 1) cfg.maxAlignment := by
  have hmax := cfg.maxAlignment_le
  have hsize : size ≤ 2 ^ 64 - cfg.maxAlignment := h
  have hceil := cfg.le_alignCeil (x := max size 1) (by omega)
  omega

namespace Session

/-- Nothing has happened. -/
def empty : Session := ⟨.empty, [], []⟩

/-- The commands that touched a byte. -/
def touched (s : Session) (h : HeapId) (x : Nat) (c : Command) : Prop :=
  ∃ u ∈ s.uses, u.Touches h x ∧ u.command = c

/-- One call, or something that happens between calls. -/
inductive Step (cfg : Config) (env : Environment) (C : Contract) : Session → Session → Prop
  /-- `allocate` returns. -/
  | allocated {s : Session} {a : MemoryBlockAllocator} {b : BlockId} {size alignment : Nat}
      {timeline : Option Timeline} (promised : C.size size)
      (returned : MemoryBlockAllocator.allocate cfg env size alignment timeline s.alloc
        = (.ok b, a)) :
      Step cfg env C s { s with
        alloc := a
        out := (b, (a.pool.block b).pending.toList) :: s.out }
  /-- `allocate` throws. -/
  | threw {s : Session} {a : MemoryBlockAllocator} {e : Exn} {size alignment : Nat}
      {timeline : Option Timeline} (promised : C.size size)
      (thrown : MemoryBlockAllocator.allocate cfg env size alignment timeline s.alloc
        = (.error e, a)) :
      Step cfg env C s { s with alloc := a }
  /-- A block that is handed out is given back. -/
  | recycled {s : Session} {before after : List (BlockId × List Command)} {b : BlockId}
      {commands : List Command} {tokens : List CommandToken}
      (has : s.out = before ++ (b, commands) :: after)
      (promised : C.tokens s.alloc.now commands tokens) :
      Step cfg env C s { s with
        alloc := (MemoryBlockAllocator.recycle env b tokens s.alloc).2
        out := before ++ after }
  /-- `trim` returns or throws. -/
  | trimmed {s : Session} :
      Step cfg env C s { s with alloc := (MemoryBlockAllocator.trim cfg env s.alloc).2 }
  /-- A command uses a block that is handed out. -/
  | used {s : Session} {before after : List (BlockId × List Command)} {b : BlockId}
      {commands : List Command} (c : Command)
      (has : s.out = before ++ (b, commands) :: after) :
      Step cfg env C s { s with
        out := before ++ (b, c :: commands) :: after
        uses := s.alloc.pool.useOf b c :: s.uses }
  /-- The token of a block that is handed out is emptied. -/
  | emptied {s : Session} {b : BlockId} (has : b ∈ s.out.map Prod.fst) :
      Step cfg env C s { s with alloc := { s.alloc with pool := s.alloc.pool.setPending b none } }
  /-- Something is asked that the allocator is no part of, or time passes. -/
  | asked {s : Session} {e : Event} (answered : Answered env s.alloc.now e) :
      Step cfg env C s { s with alloc := s.alloc.log e }

/-- A call of `allocate`, whether it returns or throws. -/
def allocate (cfg : Config) (env : Environment) (size alignment : Nat)
    (timeline : Option Timeline) (s : Session) : Session :=
  match MemoryBlockAllocator.allocate cfg env size alignment timeline s.alloc with
  | (.ok b, a) => { s with alloc := a, out := (b, (a.pool.block b).pending.toList) :: s.out }
  | (.error _, a) => { s with alloc := a }

theorem allocate_step {cfg : Config} {env : Environment} {C : Contract} {size : Nat}
    (alignment : Nat) (timeline : Option Timeline) (s : Session) (promised : C.size size) :
    Step cfg env C s (s.allocate cfg env size alignment timeline) := by
  unfold allocate
  split
  · rename_i returned
    exact .allocated promised returned
  · rename_i thrown
    exact .threw promised thrown

/-- A call of `recycle`. -/
def recycle (env : Environment) (b : BlockId) (tokens : List CommandToken) (s : Session) :
    Session :=
  { s with
    alloc := (MemoryBlockAllocator.recycle env b tokens s.alloc).2
    out := s.out.eraseP fun e => e.1 == b }

theorem recycle_step {cfg : Config} {env : Environment} {C : Contract} {b : BlockId}
    {tokens : List CommandToken} {s : Session} (h : b ∈ s.out.map Prod.fst)
    (promised : ∀ n commands, C.tokens n commands tokens) :
    Step cfg env C s (s.recycle env b tokens) := by
  obtain ⟨e, he, rfl⟩ := List.mem_map.mp h
  obtain ⟨x, before, after, -, hx, has, hleft⟩ :=
    List.exists_of_eraseP (p := fun x => x.1 == e.1) he (beq_self_eq_true e.1)
  obtain ⟨b, commands⟩ := x
  obtain rfl : b = e.1 := eq_of_beq hx
  unfold recycle
  rw [hleft]
  exact .recycled has (promised _ _)

/-- The blocks nobody has to give back any more, or only their callers. -/
def rest (s : Session) : List BlockId := s.out.map Prod.fst ++ lostBlocks s.alloc.trace

/-- **The invariant of a session**: that of its allocator, where what a block
that is handed out has to wait for is kept with it. -/
structure Sound (cfg : Config) (k : Clock Timeline) (strict : Prop) (s : Session) : Prop where
  alloc : s.alloc.Sound cfg k s.touched strict s.rest
  out : ∀ e ∈ s.out, ∀ x, (s.alloc.pool.extent e.1).Has x →
    ∀ c, s.touched (s.alloc.pool.block e.1).heap x c →
      Covered k s.alloc.now (e.2.map some) c

section Sound

variable {cfg : Config} {env : Environment} {C : Contract} {k : Clock Timeline} {strict : Prop}
  {s t : Session} {b : BlockId}

theorem Sound.empty (cfg : Config) (k : Clock Timeline) (strict : Prop) :
    Sound cfg k strict Session.empty where
  alloc := by
    have h : Session.empty.touched = fun _ _ _ => False := by
      funext h x c
      simp [touched, Session.empty]
    rw [h]
    exact .empty cfg k strict
  out _ h := nomatch h

theorem mem_rest {e : BlockId × List Command} (he : e ∈ s.out) : e.1 ∈ s.rest :=
  List.mem_append_left _ (List.mem_map_of_mem he)

/-- What the guards of the blocks that are handed out say lasts. -/
theorem Sound.out_passes (hs : Sound cfg k strict s) {a : MemoryBlockAllocator}
    (hpasses : s.alloc.Passes s.rest a) : ∀ e ∈ s.out, ∀ x, (a.pool.extent e.1).Has x →
      ∀ c, s.touched (a.pool.block e.1).heap x c → Covered k a.now (e.2.map some) c := by
  intro e he x hx c hc
  have hrec := hpasses.evolves.block e.1 (mem_rest he)
  simp only [MemoryBlockPool.extent, hrec] at hx hc
  exact (hs.out e he x hx c hc).mono hpasses.now

/-- Steps inside the allocator, with nothing handed out. -/
theorem Sound.inner (hs : Sound cfg k strict s) (henv : Truthful k env) {r : Nat}
    (hr : strict → 0 < r) {a : MemoryBlockAllocator}
    (hrun : ReflTransGen (MemoryBlockAllocator.Internal cfg env True r) s.alloc a) :
    Sound cfg k strict { s with alloc := a } := by
  obtain ⟨ha, hpasses⟩ := hs.alloc.run henv hr hrun
  refine ⟨?_, hs.out_passes hpasses⟩
  show a.Sound cfg k s.touched strict (s.out.map Prod.fst ++ lostBlocks a.trace)
  rw [hpasses.lost]
  exact ha

/-- The other blocks that are handed out are other blocks. -/
theorem Sound.others (hs : Sound cfg k strict s) {before after : List (BlockId × List Command)}
    {commands : List Command} (hhas : s.out = before ++ (b, commands) :: after) :
    ∀ e ∈ before ++ after, e ∈ s.out ∧ e.1 ≠ b := by
  intro e he
  have hnd := hs.alloc.coherent.accounted.nodup hs.alloc.coherent.wellFormed
  have hnd := (List.nodup_append.mp (List.nodup_append.mp hnd).2.1).1
  rw [hhas, List.map_append, List.map_cons] at hnd
  have hnot := (List.nodup_cons.mp (List.nodup_middle.mp hnd)).1
  rw [← List.map_append] at hnot
  constructor
  · rw [hhas]
    rcases List.mem_append.mp he with he | he
    · exact List.mem_append_left _ he
    · exact List.mem_append_right _ (List.mem_cons_of_mem _ he)
  · intro heq
    have hmem : e.1 ∈ (before ++ after).map Prod.fst := List.mem_map_of_mem he
    exact hnot (heq ▸ hmem)

/-- What the guards of the other blocks say lasts where their records do. -/
theorem Sound.out_others (hs : Sound cfg k strict s) {before after : List (BlockId × List Command)}
    {commands : List Command} (hhas : s.out = before ++ (b, commands) :: after)
    {a : MemoryBlockAllocator} (hblock : ∀ c ≠ b, a.pool.block c = s.alloc.pool.block c)
    (hnow : s.alloc.now ≤ a.now) : ∀ e ∈ before ++ after, ∀ x, (a.pool.extent e.1).Has x →
      ∀ c, s.touched (a.pool.block e.1).heap x c → Covered k a.now (e.2.map some) c := by
  intro e he x hx c hc
  obtain ⟨hmem, hne⟩ := hs.others hhas e he
  simp only [MemoryBlockPool.extent, hblock e.1 hne] at hx hc
  exact (hs.out e hmem x hx c hc).mono hnow

/-- An `allocate` that returns takes a free block of the rounded size, after
some steps inside the allocator. -/
theorem Sound.allocate_returned (hs : Sound cfg k strict s) (henv : Truthful k env)
    {size alignment : Nat} {timeline : Option Timeline} {a : MemoryBlockAllocator}
    (hr : strict → 0 < alignCeil (max size 1) cfg.maxAlignment)
    (h : MemoryBlockAllocator.allocate cfg env size alignment timeline s.alloc = (.ok b, a)) :
    ∃ u, ReflTransGen (MemoryBlockAllocator.Internal cfg env True
        (alignCeil (max size 1) cfg.maxAlignment)) s.alloc u
      ∧ b ∈ u.pool.freeBlocks
      ∧ (u.pool.block b).size = alignCeil (max size 1) cfg.maxAlignment ∧ a = u.acquire b := by
  have hspec := MemoryBlockAllocator.allocate_spec trivial size alignment timeline hs.alloc henv hr
  exact wp_returned hspec h

/-- One that throws has only taken such steps. -/
theorem Sound.allocate_threw (hs : Sound cfg k strict s) (henv : Truthful k env)
    {size alignment : Nat} {timeline : Option Timeline} {a : MemoryBlockAllocator} {e : Exn}
    (hr : strict → 0 < alignCeil (max size 1) cfg.maxAlignment)
    (h : MemoryBlockAllocator.allocate cfg env size alignment timeline s.alloc = (.error e, a)) :
    ReflTransGen (MemoryBlockAllocator.Internal cfg env True
      (alignCeil (max size 1) cfg.maxAlignment)) s.alloc a :=
  wp_thrown (MemoryBlockAllocator.allocate_spec trivial size alignment timeline hs.alloc henv hr) h

/-- So has `trim`, however it is left. -/
theorem Sound.trim_run (hs : Sound cfg k strict s) (henv : Truthful k env) :
    ReflTransGen (MemoryBlockAllocator.Internal cfg env True 1) s.alloc
      (MemoryBlockAllocator.trim cfg env s.alloc).2 := by
  have htracks := MemoryBlockAllocator.trimLocked_tracks (r := 1) trivial hs.alloc henv
    fun _ => Nat.one_pos
  exact wp_final (wp_mono htracks (fun _ _ h => h.1) fun _ _ h => h)

/-- `allocate` keeps the invariant when it returns. -/
theorem Sound.allocated (hs : Sound cfg k strict s) (henv : Truthful k env)
    {size alignment : Nat} {timeline : Option Timeline} {a : MemoryBlockAllocator}
    (hr : strict → 0 < alignCeil (max size 1) cfg.maxAlignment)
    (h : MemoryBlockAllocator.allocate cfg env size alignment timeline s.alloc = (.ok b, a)) :
    Sound cfg k strict { s with
      alloc := a
      out := (b, (a.pool.block b).pending.toList) :: s.out } := by
  obtain ⟨t, hrun, hfree, -, rfl⟩ := hs.allocate_returned henv hr h
  obtain ⟨ht, hpasses⟩ := hs.alloc.run henv hr hrun
  have hnow : t.now ≤ (t.acquire b).now := Nat.le_succ _
  constructor
  · show (t.acquire b).Sound cfg k s.touched strict
      (b :: (s.out.map Prod.fst ++ lostBlocks t.trace))
    rw [hpasses.lost]
    exact ht.acquire hfree
  · intro e he x hx c hc
    rcases List.mem_cons.mp he with rfl | he
    · -- what the token of a free block says goes with the block
      apply (ht.coherent.guarded b hfree x hx c hc).mono hnow |>.exchange
      intro token htoken d hd
      rw [List.mem_singleton.mp htoken] at hd
      refine .of_mem (t := some d) ?_ (Covers.self d)
      have hd : (t.pool.block b).pending = some d := hd
      have hd' : ((t.acquire b).pool.block b).pending = some d := hd
      simp [hd']
    · exact (hs.out_passes hpasses e he x hx c hc).mono hnow

/-- A block that is given back leaves those that are handed out. -/
theorem rest_perm {before after : List (BlockId × List Command)} {commands : List Command}
    (hhas : s.out = before ++ (b, commands) :: after) :
    s.rest.Perm (b :: ((before ++ after).map Prod.fst ++ lostBlocks s.alloc.trace)) := by
  simp only [rest, hhas, List.map_append, List.map_cons, List.append_assoc, List.cons_append]
  exact List.perm_middle

/-- Tokens that cover the commands that go with a block cover all that ever
touched it. -/
theorem Sound.guards (hs : Sound cfg k strict s) {before after : List (BlockId × List Command)}
    {commands : List Command} {tokens : List CommandToken}
    (hhas : s.out = before ++ (b, commands) :: after)
    (hcover : ∀ c ∈ commands, Covered k s.alloc.now tokens c) :
    ∀ x, (s.alloc.pool.extent b).Has x →
      ∀ c, s.touched (s.alloc.pool.block b).heap x c → Covered k s.alloc.now tokens c := by
  intro x hx c hc
  apply (hs.out (b, commands) (by simp [hhas]) x hx c hc).exchange
  intro token htoken d hd
  obtain ⟨e, he, rfl⟩ := List.mem_map.mp htoken
  obtain rfl : e = d := Option.some.inj hd
  exact hcover e he

/-- A block that at most one token goes with is back in the pool. -/
theorem Sound.gaveBack (hs : Sound cfg k strict s) {before after : List (BlockId × List Command)}
    {commands : List Command} {tokens : List CommandToken}
    (hhas : s.out = before ++ (b, commands) :: after)
    (hcover : ∀ c ∈ commands, Covered k s.alloc.now tokens c) (hlen : tokens.length < 2) :
    Sound cfg k strict { s with
      alloc := s.alloc.release b (tokens.headD none)
      out := before ++ after } := by
  have hsound := hs.alloc.perm (rest_perm hhas)
  have hmid : (s.alloc.deferred.map Prod.fst ++
      (b :: ((before ++ after).map Prod.fst ++ lostBlocks s.alloc.trace))).Perm
      (b :: (s.alloc.deferred.map Prod.fst ++
        ((before ++ after).map Prod.fst ++ lostBlocks s.alloc.trace))) := List.perm_middle
  -- the one token there may be is the one the block is left with
  have hone : ∀ token ∈ tokens, token = tokens.headD none := by
    intro token htoken
    match tokens, hlen, htoken with
    | [_], _, htoken => exact List.mem_singleton.mp htoken
  constructor
  · apply hsound.release hmid (fun d hd => hd)
    intro x hx c hc
    apply (hs.guards hhas hcover x hx c hc).exchange
    intro token htoken d hd
    exact .of_mem (List.mem_singleton.mpr (hone token htoken)) (Option.mem_def.mp hd ▸ Covers.self d)
  · have hframe := s.alloc.pool.release_frame b (tokens.headD none)
    apply hs.out_others hhas (a := s.alloc.release b (tokens.headD none))
    · intro c hc
      exact hframe.block c (by simpa using hc)
    · exact Nat.le_succ _

/-- A block is held back, once the host had memory for that. -/
theorem Sound.heldBack (hs : Sound cfg k strict s) {before after : List (BlockId × List Command)}
    {commands : List Command} {tokens : List CommandToken}
    (hhas : s.out = before ++ (b, commands) :: after)
    (hcover : ∀ c ∈ commands, Covered k s.alloc.now tokens c) {hosts : List Event}
    (hquiet : ∀ e ∈ hosts, ∃ granted, e = Event.hostAllocate granted) :
    Sound cfg k strict { s with
      alloc := { s.alloc with
        deferred := s.alloc.deferred ++ [(b, tokens)]
        trace := hosts ++ s.alloc.trace }
      out := before ++ after } := by
  have hsound := hs.alloc.perm (rest_perm hhas)
  have hdeferred := (hsound.defer (hs.guards hhas hcover)).quiet hquiet
  constructor
  · show MemoryBlockAllocator.Sound cfg k s.touched strict
      ((before ++ after).map Prod.fst ++ lostBlocks (hosts ++ s.alloc.trace)) _
    rw [MemoryBlockAllocator.quiet_lost hquiet]
    exact hdeferred
  · exact hs.out_others hhas (a := { s.alloc with
      deferred := s.alloc.deferred ++ [(b, tokens)], trace := hosts ++ s.alloc.trace })
      (fun _ _ => rfl) (MemoryBlockAllocator.now_append hosts)

/-- A block that could not be held back stays outside, with nobody to give it
back. -/
theorem Sound.lostBack (hs : Sound cfg k strict s) {before after : List (BlockId × List Command)}
    {commands : List Command} (hhas : s.out = before ++ (b, commands) :: after)
    {hosts : List Event} (hquiet : ∀ e ∈ hosts, ∃ granted, e = Event.hostAllocate granted) :
    Sound cfg k strict { s with
      alloc := ({ s.alloc with trace := hosts ++ s.alloc.trace } : MemoryBlockAllocator).log (.lost b)
      out := before ++ after } := by
  have hsound := hs.alloc.perm (rest_perm hhas)
  have hlost := (hsound.quiet hquiet).lost b
  constructor
  · show MemoryBlockAllocator.Sound cfg k s.touched strict
      ((before ++ after).map Prod.fst ++ b :: lostBlocks (hosts ++ s.alloc.trace)) _
    rw [MemoryBlockAllocator.quiet_lost hquiet]
    exact hlost.perm List.perm_middle.symm
  · exact hs.out_others hhas
      (a := ({ s.alloc with trace := hosts ++ s.alloc.trace } : MemoryBlockAllocator).log (.lost b))
      (fun _ _ => rfl) (Nat.le_trans (MemoryBlockAllocator.now_append hosts) (Nat.le_succ _))

/-- `recycle` keeps the invariant when its tokens cover the commands that go
with the block. -/
theorem Sound.recycled (hs : Sound cfg k strict s) {before after : List (BlockId × List Command)}
    {commands : List Command} {tokens : List CommandToken}
    (hhas : s.out = before ++ (b, commands) :: after)
    (hcover : ∀ c ∈ commands, Covered k s.alloc.now tokens c) :
    Sound cfg k strict { s with
      alloc := (MemoryBlockAllocator.recycle env b tokens s.alloc).2
      out := before ++ after } := by
  rcases MemoryBlockAllocator.recycle_spec env b tokens s.alloc with
    ⟨hlen, hfinal⟩ | ⟨hosts, hquiet, hfinal | hfinal⟩
  · rw [hfinal]
    exact hs.gaveBack hhas hcover hlen
  · rw [hfinal]
    exact hs.heldBack hhas hcover hquiet
  · rw [hfinal]
    exact hs.lostBack hhas hquiet

/-- What a command uses is all it touches on top of what was touched before. -/
theorem touched_used {out : List (BlockId × List Command)} {c d : Command} {h : HeapId} {x : Nat}
    (hd : touched { s with out, uses := s.alloc.pool.useOf b c :: s.uses } h x d) :
    s.touched h x d ∨ (h = (s.alloc.pool.block b).heap ∧ (s.alloc.pool.extent b).Has x) ∧ d = c := by
  obtain ⟨u, hu, ⟨hheap, hx⟩, hd⟩ := hd
  rcases List.mem_cons.mp hu with rfl | hu
  · exact .inr ⟨⟨hheap.symm, hx⟩, hd.symm⟩
  · exact .inl ⟨u, hu, ⟨hheap, hx⟩, hd⟩

/-- A command uses a block that is handed out, and goes with it from then on. -/
theorem Sound.used (hs : Sound cfg k strict s) {before after : List (BlockId × List Command)}
    {commands : List Command} (c : Command)
    (hhas : s.out = before ++ (b, commands) :: after) :
    Sound cfg k strict { s with
      out := before ++ (b, c :: commands) :: after
      uses := s.alloc.pool.useOf b c :: s.uses } := by
  have hfst : (before ++ (b, c :: commands) :: after).map Prod.fst = s.out.map Prod.fst := by
    simp [hhas]
  have hb : b ∈ s.rest := mem_rest (e := (b, commands)) (by simp [hhas])
  have hwf := hs.alloc.coherent.wellFormed
  have hacc := hs.alloc.coherent.accounted
  have hblocks : ∀ d ∈ s.rest, d ∈ s.alloc.pool.blocks := fun d hd =>
    hacc.mem (List.mem_append_right _ hd)
  constructor
  · show s.alloc.Sound cfg k _ strict
      ((before ++ (b, c :: commands) :: after).map Prod.fst ++ lostBlocks s.alloc.trace)
    rw [hfst]
    exact hs.alloc.touch hb fun h x d hd => (touched_used hd).imp_right And.left
  · intro e he x hx d hd
    have hold : ∀ e' ∈ s.out, e'.1 = e.1 → s.touched (s.alloc.pool.block e.1).heap x d →
        Covered k s.alloc.now (e'.2.map some) d := by
      intro e' he' heq hd
      rw [← heq] at hd hx
      exact hs.out e' he' x hx d hd
    by_cases heb : e = (b, c :: commands)
    · subst heb
      rcases touched_used hd with hd | ⟨-, rfl⟩
      · apply (hold (b, commands) (by simp [hhas]) rfl hd).subset
        intro token htoken
        exact List.mem_cons_of_mem _ htoken
      · exact .of_mem (t := some d) List.mem_cons_self (Covers.self d)
    · have hrest : e ∈ before ++ after := by
        rcases List.mem_append.mp he with he | he
        · exact List.mem_append_left _ he
        · exact List.mem_append_right _ ((List.mem_cons.mp he).resolve_left heb)
      obtain ⟨hmem, hne⟩ := hs.others hhas e hrest
      rcases touched_used hd with hd | ⟨⟨hheap, hx'⟩, -⟩
      · exact hold e hmem rfl hd
      · -- no byte of another block was touched
        exact absurd hx' (hwf.apart (hblocks _ (mem_rest hmem)) (hblocks _ hb) hne hheap hx)

/-- The token of a block that is handed out may be any. -/
theorem Sound.setPending (hs : Sound cfg k strict s) {b : BlockId} (hb : b ∈ s.out.map Prod.fst)
    (token : CommandToken) : Sound cfg k strict
      { s with alloc := { s.alloc with pool := s.alloc.pool.setPending b token } } := by
  refine ⟨hs.alloc.setPending (List.mem_append_left _ hb) token, ?_⟩
  intro e he x hx c hc
  have hx : ((s.alloc.pool.setPending b token).extent e.1).Has x := hx
  have hc : s.touched ((s.alloc.pool.setPending b token).block e.1).heap x c := hc
  rw [MemoryBlockPool.extent_setPending] at hx
  rw [MemoryBlockPool.setPending_heap] at hc
  exact hs.out e he x hx c hc

/-- **Every step keeps the invariant of a session.** -/
theorem Sound.step (hs : Sound cfg k strict s) (henv : Truthful k env)
    (hsize : strict → ∀ size, C.size size → 0 < alignCeil (max size 1) cfg.maxAlignment)
    (hC : C.Covers k) (h : Step cfg env C s t) : Sound cfg k strict t := by
  cases h with
  | @allocated a b size alignment timeline promised returned =>
      exact hs.allocated henv (fun h => hsize h size promised) returned
  | @threw a e size alignment timeline promised thrown =>
      have hr := fun h => hsize h size promised
      exact hs.inner henv hr (hs.allocate_threw henv hr thrown)
  | recycled has promised => exact hs.recycled has (hC _ _ _ promised)
  | trimmed => exact hs.inner henv (fun _ => Nat.one_pos) (hs.trim_run henv)
  | used c has => exact hs.used c has
  | emptied has => exact hs.setPending has none
  | asked answered => exact hs.inner henv (r := 1) (fun _ => Nat.one_pos) (.single (.asked answered fun _ => trivial))

/-- **The invariant holds all along a run.** -/
theorem Sound.run (hs : Sound cfg k strict s) (henv : Truthful k env)
    (hsize : strict → ∀ size, C.size size → 0 < alignCeil (max size 1) cfg.maxAlignment)
    (hC : C.Covers k) (h : ReflTransGen (Step cfg env C) s t) : Sound cfg k strict t := by
  refine Runs.invariant (fun u v hu huv => ?_) h hs
  exact hu.step henv hsize hC huv

/-- Whatever the callers promise, the invariant without time holds of every
session that is reached. -/
theorem Sound.reached (hrun : ReflTransGen (Step cfg env C) Session.empty s) :
    Sound cfg (Clock.always Timeline) False s :=
  (Sound.empty cfg (Clock.always Timeline) False).run (.always env) (fun h => h.elim) (.always C)
    hrun

/-- What has happened stays told. -/
theorem Sound.step_trace (hs : Sound cfg k strict s) (henv : Truthful k env)
    (hsize : strict → ∀ size, C.size size → 0 < alignCeil (max size 1) cfg.maxAlignment)
    (h : Step cfg env C s t) : s.alloc.trace <:+ t.alloc.trace := by
  cases h with
  | @allocated a b size alignment timeline promised returned =>
      have hr := fun h => hsize h size promised
      obtain ⟨u, hrun, -, -, rfl⟩ := hs.allocate_returned henv hr returned
      exact (hs.alloc.run henv hr hrun).2.trace.trans (List.suffix_cons ..)
  | @threw a e size alignment timeline promised thrown =>
      have hr := fun h => hsize h size promised
      exact (hs.alloc.run henv hr (hs.allocate_threw henv hr thrown)).2.trace
  | @recycled before after b commands tokens has promised =>
      rcases MemoryBlockAllocator.recycle_spec env b tokens s.alloc with
        ⟨-, hfinal⟩ | ⟨hosts, -, hfinal | hfinal⟩
      · rw [hfinal]
        exact List.suffix_cons ..
      · rw [hfinal]
        exact List.suffix_append ..
      · rw [hfinal]
        exact (List.suffix_append ..).trans (List.suffix_cons ..)
  | trimmed => exact (hs.alloc.run henv (fun _ => Nat.one_pos) (hs.trim_run henv)).2.trace
  | used c has => exact List.suffix_rfl
  | emptied has => exact List.suffix_rfl
  | asked answered => exact List.suffix_cons ..

theorem Sound.run_trace (hs : Sound cfg k strict s) (henv : Truthful k env)
    (hsize : strict → ∀ size, C.size size → 0 < alignCeil (max size 1) cfg.maxAlignment)
    (hC : C.Covers k) (h : ReflTransGen (Step cfg env C) s t) :
    s.alloc.trace <:+ t.alloc.trace := by
  induction h with
  | refl => exact List.suffix_rfl
  | tail hrun hstep ih =>
      exact ih.trans ((hs.run henv hsize hC hrun).step_trace henv hsize hstep)

end Sound

end Session

end RexlibCuda
