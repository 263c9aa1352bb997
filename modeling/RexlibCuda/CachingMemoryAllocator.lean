import Mathlib.Data.List.Forall2
import RexlibCuda.AllocatorSession
import RexlibCuda.CudaBuffer

/-! `caching_memory_allocator`, and runs of it with the buffers it hands out.
Such runs are runs of `memory_block_allocator` with its callers, where every
block is given back with tokens that cover the commands that go with it. -/

namespace RexlibCuda

open Completion Prog

open Relation (ReflTransGen)

namespace CachingMemoryAllocator

open MemoryBlockAllocator

variable (cfg : Config) (env : Environment)

/-- The constructor of `cuda_buffer`. -/
def makeBuffer (b : BlockId) (hostData : Option Nat) : Action CudaBuffer := do
  let s ← get
  let pending := (s.pool.block b).pending
  if pending.isEmpty then pure ⟨b, [], hostData⟩
  else do
    hostAllocate env
    pure ⟨b, [pending], hostData⟩

/-- A command that has finished leaves nothing to wait for. -/
def dropPending (b : BlockId) (complete : Bool) : Action Unit :=
  if complete then modify fun s => { s with pool := s.pool.setPending b none } else pure ()

/-- What `allocate_for_timeline` does with the block it was handed: the buffer,
and the token its user has to wait for. -/
def adopt (b : BlockId) : Action (CudaBuffer × CommandToken) := do
  let s ← get
  let complete ← isComplete env (s.pool.block b).pending
  dropPending b complete
  hostAllocate env -- the buffer
  let s ← get
  let buffer ← makeBuffer env b (if cfg.hostAccessible then some (s.pool.getData b) else none)
  let s ← get
  pure (buffer, (s.pool.block b).pending)

def allocateForTimeline (size alignment : Nat) (timeline : Option Timeline) :
    Action (CudaBuffer × CommandToken) := do
  let b ← allocate cfg env size alignment timeline
  tryCatch (adopt cfg env b)
    (fun e => do
      let s ← get
      recycle env b [(s.pool.block b).pending]
      throw e)

end CachingMemoryAllocator

/-- An allocator and the buffers that are alive. -/
structure Buffers where
  alloc : MemoryBlockAllocator
  live : List CudaBuffer
  /-- Every command that was ever recorded as using a buffer. -/
  uses : List Use

namespace Buffers

def empty : Buffers := ⟨.empty, [], []⟩

/-- One call, or something that happens between calls. A use that could not be
recorded changes nothing. -/
inductive Step (cfg : Config) (env : Environment) : Buffers → Buffers → Prop
  /-- `allocate_for_timeline` returns. -/
  | allocated {s : Buffers} {a : MemoryBlockAllocator} {buffer : CudaBuffer}
      {pending : CommandToken} {size alignment : Nat} {timeline : Option Timeline}
      (sized : size < 2 ^ 64)
      (returned : CachingMemoryAllocator.allocateForTimeline cfg env size alignment timeline s.alloc
        = (.ok (buffer, pending), a)) :
      Step cfg env s { s with alloc := a, live := buffer :: s.live }
  /-- `allocate_for_timeline` throws. -/
  | threw {s : Buffers} {a : MemoryBlockAllocator} {e : Exn} {size alignment : Nat}
      {timeline : Option Timeline} (sized : size < 2 ^ 64)
      (thrown : CachingMemoryAllocator.allocateForTimeline cfg env size alignment timeline s.alloc
        = (.error e, a)) :
      Step cfg env s { s with alloc := a }
  /-- A buffer dies. -/
  | destroyed {s : Buffers} {before after : List CudaBuffer} {buffer : CudaBuffer}
      (has : s.live = before ++ buffer :: after) :
      Step cfg env s { s with
        alloc := (MemoryBlockAllocator.recycle env buffer.block buffer.uses s.alloc).2
        live := before ++ after }
  /-- `record_use` returns. -/
  | recorded {s : Buffers} {before after : List CudaBuffer} {buffer buffer' : CudaBuffer}
      {room : Bool} {token : CommandToken} (has : s.live = before ++ buffer :: after)
      (recorded : buffer.recordUse room token = some buffer') :
      Step cfg env s { s with
        live := before ++ buffer' :: after
        uses := token.toList.map (s.alloc.pool.useOf buffer.block) ++ s.uses }
  /-- `trim` returns or throws. -/
  | trimmed {s : Buffers} :
      Step cfg env s { s with alloc := (MemoryBlockAllocator.trim cfg env s.alloc).2 }
  /-- Something is asked that the allocator is no part of, or time passes. -/
  | asked {s : Buffers} {e : Event} (answered : Answered env s.alloc.now e) :
      Step cfg env s { s with alloc := s.alloc.log e }

/-- A call of `allocate_for_timeline`, whether it returns or throws. -/
def allocate (cfg : Config) (env : Environment) (size alignment : Nat)
    (timeline : Option Timeline) (s : Buffers) : Buffers :=
  match CachingMemoryAllocator.allocateForTimeline cfg env size alignment timeline s.alloc with
  | (.ok (buffer, _), a) => { s with alloc := a, live := buffer :: s.live }
  | (.error _, a) => { s with alloc := a }

theorem allocate_step {cfg : Config} {env : Environment} {size : Nat} (alignment : Nat)
    (timeline : Option Timeline) (s : Buffers) (sized : size < 2 ^ 64) :
    Step cfg env s (s.allocate cfg env size alignment timeline) := by
  unfold allocate
  split
  · rename_i returned
    exact .allocated sized returned
  · rename_i thrown
    exact .threw sized thrown

end Buffers

/-! ## The runs of the allocator behind them -/

namespace MemoryBlockAllocator

variable {env : Environment} {k : Clock Timeline} {s t : MemoryBlockAllocator}

/-- The outside was asked, and gave no memory. -/
def Asked (env : Environment) (s t : MemoryBlockAllocator) : Prop :=
  ∃ e, Answered env s.now e ∧ t = s.log e

theorem Asked.pool_run (h : ReflTransGen (Asked env) s t) : t.pool = s.pool := by
  refine Runs.relation (P := fun s t => t.pool = s.pool) (fun _ => rfl) ?_ ?_ h
  · intro s t u h h'
    exact h'.trans h
  · intro s t h
    obtain ⟨e, -, rfl⟩ := h
    rfl

theorem Asked.now_run (h : ReflTransGen (Asked env) s t) : s.now ≤ t.now := by
  refine Runs.relation (P := fun s t => s.now ≤ t.now) (fun _ => Nat.le_refl _) ?_ ?_ h
  · intro s t u h h'
    exact Nat.le_trans h h'
  · intro s t h
    obtain ⟨e, -, rfl⟩ := h
    exact Nat.le_succ _

theorem hostAllocate_asked (s : MemoryBlockAllocator) :
    wp (hostAllocate env) (fun _ t => ReflTransGen (Asked env) s t)
      (fun _ t => ReflTransGen (Asked env) s t) s := by
  rw [wp_hostAllocate]
  split
  · rename_i hgranted
    exact .single ⟨.hostAllocate true, hgranted.symm, rfl⟩
  · rename_i hrefused
    exact .single ⟨.hostAllocate false, (Bool.eq_false_iff.mpr hrefused).symm, rfl⟩

theorem isComplete_asked (henv : Truthful k env) (token : CommandToken)
    (s : MemoryBlockAllocator) :
    wp (isComplete env token)
      (fun complete t => ReflTransGen (Asked env) s t ∧
        (complete = true → ∀ c ∈ token, Complete k t.now c))
      (fun _ t => ReflTransGen (Asked env) s t) s := by
  cases token with
  | none => exact ⟨.refl, nofun⟩
  | some command =>
      simp only [isComplete, wp_bind, wp_ask]
      have hasked : Asked env s (s.log (.isComplete command (env.isComplete s.now command))) :=
        ⟨.isComplete command _, rfl, rfl⟩
      cases hanswer : env.isComplete s.now command with
      | none =>
          rw [hanswer] at hasked
          exact .single hasked
      | some complete =>
          rw [hanswer] at hasked
          refine ⟨.single hasked, ?_⟩
          rintro rfl c hc
          obtain rfl : command = c := Option.some.inj hc
          exact (henv.isComplete _ _ hanswer).mono (Nat.le_succ _)

end MemoryBlockAllocator

namespace Session

variable {cfg : Config} {env : Environment} {C : Contract} {S : Session}

/-- Questions are steps of the session. -/
theorem asked_run {s t : MemoryBlockAllocator}
    (h : ReflTransGen (MemoryBlockAllocator.Asked env) s t) :
    ReflTransGen (Step cfg env C) { S with alloc := s } { S with alloc := t } := by
  induction h with
  | refl => exact .refl
  | tail _ hstep ih =>
      obtain ⟨e, hanswered, rfl⟩ := hstep
      exact ih.tail (.asked hanswered)

/-- What becomes of the token of a block while a buffer is made of it. -/
structure Adopted (cfg : Config) (env : Environment) (C : Contract) (k : Clock Timeline)
    (S : Session) (b : BlockId) (s a : MemoryBlockAllocator) : Prop where
  run : ReflTransGen (Step cfg env C) { S with alloc := s } { S with alloc := a }
  /-- It is emptied only once its command has finished. -/
  pending : ∀ c ∈ (s.pool.block b).pending, Covered k a.now [(a.pool.block b).pending] c

variable {k : Clock Timeline} {b : BlockId} {s t u : MemoryBlockAllocator}

theorem Adopted.asked (h : Adopted cfg env C k S b s t)
    (htu : ReflTransGen (MemoryBlockAllocator.Asked env) t u) : Adopted cfg env C k S b s u where
  run := h.run.trans (asked_run htu)
  pending c hc := by
    rw [MemoryBlockAllocator.Asked.pool_run htu]
    exact (h.pending c hc).mono (MemoryBlockAllocator.Asked.now_run htu)

/-- **How a buffer is made of a block**: whether that throws or not, nothing
happens to the block but that its token may be emptied. -/
theorem adopt_spec (henv : Truthful k env) (hb : b ∈ S.out.map Prod.fst)
    (s : MemoryBlockAllocator) :
    wp (CachingMemoryAllocator.adopt cfg env b)
      (fun x a => Adopted cfg env C k S b s a ∧ x.1.block = b ∧
        x.2 = (a.pool.block b).pending ∧ x.1.uses = x.2.toList.map some)
      (fun _ a => Adopted cfg env C k S b s a) s := by
  have hself : Adopted cfg env C k S b s s :=
    ⟨.refl, fun c hc => .of_mem List.mem_cons_self (Option.mem_def.mp hc ▸ Covers.self c)⟩
  simp only [CachingMemoryAllocator.adopt, wp_bind, wp_get]
  refine wp_mono (MemoryBlockAllocator.isComplete_asked henv _ s) ?_ fun _ _ h => hself.asked h
  intro complete t h
  obtain ⟨hst, hcomplete⟩ := h
  have ht := hself.asked hst
  have hpool := MemoryBlockAllocator.Asked.pool_run hst
  -- the token is emptied, or stays
  have hemptied : wp (CachingMemoryAllocator.dropPending b complete)
      (fun _ u => Adopted cfg env C k S b s u) (fun _ u => Adopted cfg env C k S b s u) t := by
    rw [CachingMemoryAllocator.dropPending, wp_ite]
    split
    · rename_i hdone
      refine ⟨ht.run.tail (.emptied hb), ?_⟩
      intro c hc
      exact .inl (hcomplete hdone c hc)
    · exact ht
  refine wp_mono hemptied ?_ fun _ _ h => h
  intro _ u hu
  refine wp_mono (MemoryBlockAllocator.hostAllocate_asked u) ?_ fun _ _ h => hu.asked h
  intro _ v huv
  have hv := hu.asked huv
  simp only [CachingMemoryAllocator.makeBuffer, wp_bind, wp_get, wp_pure, wp_ite]
  -- the buffer begins with the token of its block as its only use
  cases hpending : (v.pool.block b).pending with
  | none => exact ⟨hv, trivial, trivial, rfl⟩
  | some c =>
      show wp _ _ _ _
      refine wp_mono (MemoryBlockAllocator.hostAllocate_asked v) ?_ fun _ _ h => hv.asked h
      intro _ w hvw
      have hw : (w.pool.block b).pending = some c := by
        rw [MemoryBlockAllocator.Asked.pool_run hvw, hpending]
      exact ⟨hv.asked hvw, trivial, trivial, by rw [hw]; rfl⟩

end Session

namespace Buffers

variable {cfg : Config} {env : Environment} {k : Clock Timeline} {B B' : Buffers} {S : Session}

/-- The block of a buffer, and the commands that go with it, which the recorded
uses cover. -/
def Matches (k : Clock Timeline) (n : Nat) (e : BlockId × List Command) (buffer : CudaBuffer) :
    Prop :=
  e.1 = buffer.block ∧ ∀ c ∈ e.2, Covered k n buffer.uses c

/-- The session behind an allocator and its buffers. -/
structure Models (cfg : Config) (k : Clock Timeline) (B : Buffers) (S : Session) : Prop where
  alloc : S.alloc = B.alloc
  uses : S.uses = B.uses
  out : List.Forall₂ (Matches k B.alloc.now) S.out B.live
  sound : S.Sound cfg k False

theorem Matches.mono {m n : Nat} {e : BlockId × List Command} {buffer : CudaBuffer}
    (h : Matches k m e buffer) (hmn : m ≤ n) : Matches k n e buffer :=
  ⟨h.1, fun c hc => (h.2 c hc).mono hmn⟩

theorem Models.empty : Models cfg k Buffers.empty Session.empty :=
  ⟨rfl, rfl, .nil, .empty cfg k False⟩

/-- The session hands out the blocks of the buffers, in their order. -/
theorem Models.split (hm : Models cfg k B S) {before after : List CudaBuffer} {buffer : CudaBuffer}
    (has : B.live = before ++ buffer :: after) :
    ∃ l commands r, S.out = l ++ (buffer.block, commands) :: r
      ∧ List.Forall₂ (Matches k B.alloc.now) l before
      ∧ (∀ c ∈ commands, Covered k B.alloc.now buffer.uses c)
      ∧ List.Forall₂ (Matches k B.alloc.now) r after := by
  have hout := hm.out
  rw [has] at hout
  obtain ⟨l, ⟨b, commands⟩, r, hS, hl, ⟨hb, hcover⟩, hr⟩ := Sequence.forall₂_split hout
  obtain rfl : b = buffer.block := hb
  exact ⟨l, commands, r, hS, hl, hcover, hr⟩

section Run

variable (henv : Truthful k env) (hm : Models cfg k B S)

include henv hm

/-- A run of the session, where the buffers stay as they are. -/
theorem Models.run {T : Session}
    (hrun : ReflTransGen (Session.Step cfg env (.covering k)) S T) :
    T.Sound cfg k False ∧ B.alloc.now ≤ T.alloc.now := by
  have hC := Contract.covering_covers k
  refine ⟨hm.sound.run henv False.elim hC hrun, ?_⟩
  rw [← hm.alloc]
  exact (hm.sound.run_trace henv False.elim hC hrun).length_le

/-- **What `allocate_for_timeline` does**, told by the session behind it. -/
theorem Models.allocateForTimeline {size alignment : Nat} {timeline : Option Timeline}
    (sized : size < 2 ^ 64) :
    wp (CachingMemoryAllocator.allocateForTimeline cfg env size alignment timeline)
      (fun x a => x.1.uses = x.2.toList.map some ∧
        ∃ T, ReflTransGen (Session.Step cfg env (.covering k)) S T ∧
          Models cfg k { B with alloc := a, live := x.1 :: B.live } T)
      (fun _ a => ∃ T, ReflTransGen (Session.Step cfg env (.covering k)) S T ∧
        Models cfg k { B with alloc := a } T) B.alloc := by
  have hlive : ∀ T : Session, ReflTransGen (Session.Step cfg env (.covering k)) S T →
      List.Forall₂ (Matches k T.alloc.now) S.out B.live := by
    intro T hrun
    exact hm.out.imp fun _ _ h => h.mono (hm.run henv hrun).2
  simp only [CachingMemoryAllocator.allocateForTimeline, wp_bind]
  refine wp_mono (wp_run (MemoryBlockAllocator.allocate cfg env size alignment timeline) B.alloc)
    ?_ ?_
  · intro b a hreturned
    rw [← hm.alloc] at hreturned
    let S₁ : Session := { S with
      alloc := a
      out := (b, (a.pool.block b).pending.toList) :: S.out }
    have hstep : Session.Step cfg env (.covering k) S S₁ := .allocated sized hreturned
    have hb : b ∈ S₁.out.map Prod.fst := List.mem_cons_self
    -- the command of the token the block came with is covered by the one it has now
    have hcover : ∀ u, Session.Adopted cfg env (.covering k) k S₁ b a u →
        ∀ c ∈ (a.pool.block b).pending.toList,
          Covered k u.now [(u.pool.block b).pending] c := by
      intro u hadopted c hc
      exact hadopted.pending c (Option.mem_toList.mp hc)
    rw [wp_tryCatch]
    refine wp_mono (Session.adopt_spec (C := .covering k) henv hb a) ?_ ?_
    · rintro ⟨buffer, pending⟩ u ⟨hadopted, hblock, hpending, huses⟩
      have hrun := (ReflTransGen.single hstep).trans hadopted.run
      refine ⟨huses, _, hrun, rfl, hm.uses, .cons ⟨hblock.symm, ?_⟩ (hlive _ hrun),
        (hm.run henv hrun).1⟩
      intro c hc
      apply (hcover u hadopted c hc).exchange
      intro t ht d hd
      rw [List.mem_singleton.mp ht, ← hpending] at hd
      refine .of_mem (t := some d) ?_ (Covers.self d)
      rw [huses]
      exact List.mem_map_of_mem (Option.mem_toList.mpr hd)
    · -- the block goes back with the token it has by then
      intro e u hadopted
      have hrecycled : Session.Step cfg env (.covering k) { S₁ with alloc := u } _ :=
        @Session.Step.recycled _ _ _ _ [] S.out b _ [(u.pool.block b).pending] rfl
          (hcover u hadopted)
      have hrun := ((ReflTransGen.single hstep).trans hadopted.run).tail hrecycled
      exact ⟨_, hrun, rfl, hm.uses, hlive _ hrun, (hm.run henv hrun).1⟩
  · intro e a hthrown
    rw [← hm.alloc] at hthrown
    have hrun : ReflTransGen (Session.Step cfg env (.covering k)) S _ :=
      .single (.threw sized hthrown)
    exact ⟨_, hrun, rfl, hm.uses, hlive _ hrun, (hm.run henv hrun).1⟩

/-- A buffer that dies gives its block back with its recorded uses. -/
theorem Models.destroyed {before after : List CudaBuffer} {buffer : CudaBuffer}
    (has : B.live = before ++ buffer :: after) :
    ∃ T, ReflTransGen (Session.Step cfg env (.covering k)) S T ∧ Models cfg k { B with
      alloc := (MemoryBlockAllocator.recycle env buffer.block buffer.uses B.alloc).2
      live := before ++ after } T := by
  obtain ⟨l, commands, r, hS, hl, hcover, hr⟩ := hm.split has
  rw [← hm.alloc] at hcover
  have hstep : Session.Step cfg env (.covering k) S _ := .recycled hS hcover
  have hrun := ReflTransGen.single hstep
  obtain ⟨hT, hnow⟩ := hm.run henv hrun
  have hle : B.alloc.now ≤ (MemoryBlockAllocator.recycle env buffer.block buffer.uses
      B.alloc).2.now := by
    simpa only [hm.alloc] using hnow
  exact ⟨_, hrun, by simp only [hm.alloc], hm.uses,
    (List.rel_append hl hr).imp fun _ _ h => h.mono hle, hT⟩

/-- A command that is recorded goes with the block from then on. -/
theorem Models.recorded {before after : List CudaBuffer} {buffer buffer' : CudaBuffer}
    {room : Bool} {token : CommandToken} (has : B.live = before ++ buffer :: after)
    (hrecorded : buffer.recordUse room token = some buffer') :
    ∃ T, ReflTransGen (Session.Step cfg env (.covering k)) S T ∧ Models cfg k { B with
      live := before ++ buffer' :: after
      uses := token.toList.map (B.alloc.pool.useOf buffer.block) ++ B.uses } T := by
  obtain ⟨l, commands, r, hS, hl, hcover, hr⟩ := hm.split has
  obtain ⟨hnew, hold⟩ := CudaBuffer.recordUse_covers hrecorded
  have hblock := CudaBuffer.recordUse_block hrecorded
  have hcommands : ∀ c ∈ commands, Covered k B.alloc.now buffer'.uses c := by
    intro c hc
    exact (hcover c hc).exchange fun t ht d hd => .inr (hold t ht d hd)
  cases token with
  | none =>
      -- an empty token is not recorded, and no command has used the block
      refine ⟨S, .refl, hm.alloc, hm.uses, ?_, hm.sound⟩
      rw [hS]
      exact List.rel_append hl (.cons ⟨hblock.symm, hcommands⟩ hr)
  | some c =>
      have hstep : Session.Step cfg env (.covering k) S _ := .used c hS
      have hrun := ReflTransGen.single hstep
      refine ⟨_, hrun, hm.alloc, ?_, ?_, (hm.run henv hrun).1⟩
      · simp only [hm.alloc, hm.uses]
        rfl
      · refine List.rel_append hl (.cons ⟨hblock.symm, ?_⟩ hr)
        intro d hd
        rcases List.mem_cons.mp hd with rfl | hd
        · exact .inr (hnew d rfl)
        · exact hcommands d hd

/-- Each step is a run of the session behind it. -/
theorem Models.step (h : Step cfg env B B') :
    ∃ T, ReflTransGen (Session.Step cfg env (.covering k)) S T ∧ Models cfg k B' T := by
  cases h with
  | @allocated a buffer pending size alignment timeline sized returned =>
      obtain ⟨-, T, hrun, hT⟩ := wp_returned (hm.allocateForTimeline henv sized) returned
      exact ⟨T, hrun, hT⟩
  | @threw a e size alignment timeline sized thrown =>
      exact wp_thrown (hm.allocateForTimeline henv sized) thrown
  | destroyed has => exact hm.destroyed henv has
  | recorded has recorded => exact hm.recorded henv has recorded
  | trimmed =>
      have hstep : Session.Step cfg env (.covering k) S _ := .trimmed
      have hrun := ReflTransGen.single hstep
      obtain ⟨hT, hnow⟩ := hm.run henv hrun
      simp only [hm.alloc] at hrun hT hnow
      exact ⟨_, hrun, rfl, hm.uses, hm.out.imp fun _ _ h => h.mono hnow, hT⟩
  | @asked e answered =>
      rw [← hm.alloc] at answered
      have hstep : Session.Step cfg env (.covering k) S _ := .asked answered
      have hrun := ReflTransGen.single hstep
      obtain ⟨hT, hnow⟩ := hm.run henv hrun
      simp only [hm.alloc] at hrun hT hnow
      exact ⟨_, hrun, rfl, hm.uses, hm.out.imp fun _ _ h => h.mono hnow, hT⟩

end Run

/-- **Runs with buffers are runs of sessions** whose callers give each block
back with tokens that cover the commands that go with it. -/
theorem simulates (henv : Truthful k env) :
    Runs.Simulates (Models cfg k) (Step cfg env) (Session.Step cfg env (.covering k)) := by
  intro B B' S hm hstep
  exact hm.step henv hstep

theorem models (henv : Truthful k env) (hrun : ReflTransGen (Step cfg env) Buffers.empty B) :
    ∃ S, Models cfg k B S := by
  obtain ⟨S, -, hm⟩ := (simulates henv).run hrun Models.empty
  exact ⟨S, hm⟩

end Buffers

end RexlibCuda
