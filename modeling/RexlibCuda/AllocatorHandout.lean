import RexlibCuda.AllocatorSession
import RexlibCuda.PoolHandout

/-! What `allocate` does before it hands out a block, and how it does that. No
block is cut on the way: only the one it settles on is, as it is handed out. -/

namespace RexlibCuda

open Completion Prog

open Relation (ReflTransGen)

namespace MemoryBlockAllocator

variable {cfg : Config} {env : Environment} {r : Nat} {k : Clock Timeline}
  {touched : HeapId → Nat → Command → Prop} {strict patient : Prop} {rest : List BlockId}
  {s t u : MemoryBlockAllocator} {b c : BlockId}

/-- More than any block has, so that steps that may cut a block to it cut none. -/
def uncut : Nat := 2 ^ 64

/-- `t` is what is left of `s` once the free block `c` has been cut to `r`
bytes, and `b` is the front of it. -/
structure HandedOut (r : Nat) (c : BlockId) (s : MemoryBlockAllocator) (b : BlockId)
    (t : MemoryBlockAllocator) : Prop where
  free : c ∈ s.pool.freeBlocks
  fits : r ≤ (s.pool.block c).size
  block : b = (s.pool.handOut r c).1
  pool : t.pool = (s.pool.handOut r c).2
  deferred : t.deferred = s.deferred
  trace : ∃ hosts, (∀ e ∈ hosts, ∃ granted, e = Event.hostAllocate granted) ∧
    t.trace = .acquired b :: (hosts ++ s.trace)

/-- Cutting and acquiring is handing out. -/
theorem cutTo_handOut (hs : Sound cfg k touched strict rest s) (hc : c ∈ s.pool.freeBlocks)
    (hfits : r ≤ (s.pool.block c).size) :
    wp (cutTo env r c) (fun b t => HandedOut r c s b (t.acquire b))
      (fun e t => e = .badAlloc ∧ t = s.log (.hostAllocate false) ∧
        env.hostAllocate s.now = false) s := by
  have hwf := hs.coherent.wellFormed
  have hlt := (hwf.inside (hwf.freeSub c hc)).2.2
  have hrem : sizeSub (s.pool.block c).size r = (s.pool.block c).size - r :=
    sizeSub_of_le hfits (by omega)
  simp only [cutTo, wp_bind, wp_get, hrem]
  by_cases hsize : (s.pool.block c).size = r
  · -- there is nothing to cut off
    have hout := MemoryBlockPool.handOut_whole hsize
    rw [if_neg (by omega)]
    exact ⟨hc, hfits, by rw [hout], by rw [hout]; rfl, rfl, [], by simp, rfl⟩
  · have hout := MemoryBlockPool.handOut_cut hsize
    rw [if_pos (by omega)]
    simp only [partitionBlock, wp_bind, wp_hostAllocate, wp_get, wp_modify, wp_pure]
    cases hhost : env.hostAllocate s.now with
    | true =>
        refine ⟨hc, hfits, ?_, ?_, rfl, [.hostAllocate true], by simp, rfl⟩
        · rw [hout]
          rfl
        · rw [hout]
          rfl
    | false => exact ⟨trivial, trivial, rfl⟩

theorem uncut_pos : strict → 0 < uncut := fun _ => by decide

/-- **What `allocate` does**: it takes steps that cut no block, whether it
returns or throws, and then hands out the front of a free block. -/
theorem allocate_handOut (hp : patient) (size alignment : Nat) (timeline : Option Timeline)
    (hs : Sound cfg k touched strict rest s) (henv : Truthful k env) :
    wp (allocate cfg env size alignment timeline)
      (fun b u => ∃ t c, ReflTransGen (Internal cfg env patient uncut) s t ∧
        HandedOut (alignCeil (max size 1) cfg.maxAlignment) c t b u)
      (fun _ u => ReflTransGen (Internal cfg env patient uncut) s u) s := by
  have hlt := cfg.alignCeil_lt (max size 1)
  have hal := cfg.alignCeil_dvd (max size 1)
  apply hs.wp_allocate henv uncut_pos
  · exact fun _ _ => .refl
  · exact process_tracks s
  · intro t hst ht _
    simp only [acquireBlock, wp_bind]
    refine wp_mono (chooseBlock_tracks ht henv uncut_pos hlt hal hp) ?_ fun _ _ h => hst.trans h
    intro c u h
    obtain ⟨htu, hfree, hfits⟩ := h
    have hu := (ht.run henv uncut_pos htu).1
    refine wp_mono (cutTo_handOut hu hfree hfits) ?_ ?_
    · intro b v hout
      exact ⟨u, c, hst.trans htu, hout⟩
    · intro e v h
      obtain ⟨-, rfl, hhost⟩ := h
      exact (hst.trans htu).tail (.asked hhost.symm False.elim)

/-- So does `trim`, and hands out nothing. -/
theorem trim_uncut (hp : patient) (hs : Sound cfg k touched strict rest s)
    (henv : Truthful k env) :
    ReflTransGen (Internal cfg env patient uncut) s (trim cfg env s).2 :=
  wp_final (wp_mono (trimLocked_tracks hp hs henv uncut_pos) (fun _ _ h => h.1) fun _ _ h => h)

/-- A step that may cut a block to more than any block has cuts none. -/
theorem Sound.not_cut (hs : Sound cfg k touched strict rest s) (hfree : b ∈ s.pool.freeBlocks)
    {remainder : Nat} (hsize : uncut + remainder = (s.pool.block b).size) : False := by
  have hwf := hs.coherent.wellFormed
  have hlt := (hwf.inside (hwf.freeSub b hfree)).2.2
  simp only [uncut] at hsize
  omega

/-- **What an allocator keeps short of handing a block out**: in the steps
inside its functions, and as a block is taken back, held back or lost. -/
structure KeptInside (cfg : Config) (env : Environment) (I : MemoryBlockAllocator → Prop) :
    Prop where
  internal : ∀ {touched rest s t}, Sound cfg (Clock.always Timeline) touched False rest s →
    Internal cfg env True uncut s t → I s → I t
  release : ∀ {touched rest b s}, Sound cfg (Clock.always Timeline) touched False rest s →
    b ∈ rest → I s → ∀ token, I (s.release b token)
  defer : ∀ {b tokens hosts s}, (∀ e ∈ hosts, ∃ granted, e = Event.hostAllocate granted) → I s →
    I { s with deferred := s.deferred ++ [(b, tokens)], trace := hosts ++ s.trace }
  lost : ∀ {b hosts s}, (∀ e ∈ hosts, ∃ granted, e = Event.hostAllocate granted) → I s →
    I { s with trace := .lost b :: (hosts ++ s.trace) }
  emptied : ∀ {touched rest b s}, Sound cfg (Clock.always Timeline) touched False rest s →
    b ∈ rest → I s → I { s with pool := s.pool.setPending b none }

/-- **What everything an allocator does keeps**: that, and handing a block out. -/
structure Kept (cfg : Config) (env : Environment) (I : MemoryBlockAllocator → Prop) : Prop
    extends KeptInside cfg env I where
  handedOut : ∀ {touched rest r c s b t}, Sound cfg (Clock.always Timeline) touched False rest s →
    cfg.maxAlignment ∣ r → HandedOut r c s b t → I s → I t

theorem KeptInside.run {I : MemoryBlockAllocator → Prop} (hI : KeptInside cfg env I)
    (hs : Sound cfg (Clock.always Timeline) touched False rest s)
    (hrun : ReflTransGen (Internal cfg env True uncut) s t) (h : I s) : I t :=
  hs.run_invariant (.always env) uncut_pos (fun _ _ ht hstep h => hI.internal ht hstep h) hrun h

end MemoryBlockAllocator

namespace Session

variable {cfg : Config} {env : Environment} {C : Contract} {k : Clock Timeline} {strict : Prop}
  {s t : Session} {b : BlockId} {size alignment : Nat} {timeline : Option Timeline}
  {a : MemoryBlockAllocator}

theorem Sound.handedOut (hs : Sound cfg k strict s) (henv : Truthful k env)
    (h : MemoryBlockAllocator.allocate cfg env size alignment timeline s.alloc = (.ok b, a)) :
    ∃ t c, ReflTransGen (MemoryBlockAllocator.Internal cfg env True MemoryBlockAllocator.uncut)
        s.alloc t ∧
      MemoryBlockAllocator.HandedOut (alignCeil (max size 1) cfg.maxAlignment) c t b a :=
  wp_returned (MemoryBlockAllocator.allocate_handOut trivial size alignment timeline hs.alloc henv)
    h

theorem Sound.nothingOut (hs : Sound cfg k strict s) (henv : Truthful k env) {e : Exn}
    (h : MemoryBlockAllocator.allocate cfg env size alignment timeline s.alloc = (.error e, a)) :
    ReflTransGen (MemoryBlockAllocator.Internal cfg env True MemoryBlockAllocator.uncut)
      s.alloc a :=
  wp_thrown (MemoryBlockAllocator.allocate_handOut trivial size alignment timeline hs.alloc henv)
    h

/-- What is kept short of handing a block out is kept by every step, unless the
step is an `allocate` that returns. -/
theorem KeptInside.step {I : MemoryBlockAllocator → Prop}
    (hI : MemoryBlockAllocator.KeptInside cfg env I)
    (hs : Sound cfg (Clock.always Timeline) False s) (h : Step cfg env C s t)
    (hs' : I s.alloc) : I t.alloc ∨ ∃ size alignment timeline b,
      MemoryBlockAllocator.allocate cfg env size alignment timeline s.alloc = (.ok b, t.alloc) ∧
      t.out = (b, (t.alloc.pool.block b).pending.toList) :: s.out := by
  have henv := Truthful.always env
  cases h with
  | allocated promised returned => exact .inr ⟨_, _, _, _, returned, rfl⟩
  | threw promised thrown => exact .inl (hI.run hs.alloc (hs.nothingOut henv thrown) hs')
  | @recycled before after b commands tokens has promised =>
      refine .inl ?_
      rcases MemoryBlockAllocator.recycle_spec env b tokens s.alloc with
        ⟨-, hfinal⟩ | ⟨hosts, hquiet, hfinal | hfinal⟩
      · rw [hfinal]
        exact hI.release hs.alloc (mem_rest (e := (b, commands)) (by simp [has])) hs' _
      · rw [hfinal]
        exact hI.defer hquiet hs'
      · rw [hfinal]
        exact hI.lost hquiet hs'
  | trimmed =>
      exact .inl (hI.run hs.alloc (MemoryBlockAllocator.trim_uncut trivial hs.alloc henv) hs')
  | used c has => exact .inl hs'
  | emptied has => exact .inl (hI.emptied hs.alloc (List.mem_append_left _ has) hs')
  | asked answered => exact .inl (hI.internal hs.alloc (.asked answered fun _ => trivial) hs')

theorem Kept.step {I : MemoryBlockAllocator → Prop} (hI : MemoryBlockAllocator.Kept cfg env I)
    (hs : Sound cfg (Clock.always Timeline) False s) (h : Step cfg env C s t)
    (hs' : I s.alloc) : I t.alloc := by
  rcases KeptInside.step hI.toKeptInside hs h hs' with hkept | ⟨size, _, _, b, returned, -⟩
  · exact hkept
  · obtain ⟨u, c, hrun, hout⟩ := hs.handedOut (.always env) returned
    have hu := (hs.alloc.run (.always env) MemoryBlockAllocator.uncut_pos hrun).1
    exact hI.handedOut hu (cfg.alignCeil_dvd _) hout (hI.run hs.alloc hrun hs')

/-- **What everything keeps holds of every allocator that is reached.** -/
theorem Kept.reached {I : MemoryBlockAllocator → Prop} (hI : MemoryBlockAllocator.Kept cfg env I)
    (hempty : I .empty) (hrun : ReflTransGen (Step cfg env C) Session.empty s) : I s.alloc := by
  induction hrun with
  | refl => exact hempty
  | tail hrun hstep ih => exact Kept.step hI (Sound.reached hrun) hstep ih

/-! ## Runs -/

/-- So many kilobytes are handed out of one heap. -/
def kilobytes : Nat → Session
  | 0 => .empty
  | n + 1 => (kilobytes n).allocate .default .generous 1000 256 none

theorem kilobytes_reached (hsize : C.size 1000) (n : Nat) :
    ReflTransGen (Step .default .generous C) Session.empty (kilobytes n) := by
  induction n with
  | zero => exact .refl
  | succ n ih => exact ih.tail (allocate_step 256 none _ hsize)

/-- A command. -/
def seventh : Command := ⟨⟨1, Int.one_ne_zero⟩, 7⟩

/-- A later one of its timeline. -/
def ninth : Command := ⟨seventh.timeline, 9⟩

/-- One of another timeline. -/
def foreign : Command := ⟨⟨-1, Int.neg_ne_zero.mpr Int.one_ne_zero⟩, 4⟩

/-- The first of two kilobytes is given back, still in use by a command. -/
def recycledKilobyte : Session := (kilobytes 2).recycle .generous 1 [some seventh]

theorem recycledKilobyte_reached :
    ReflTransGen (Step .default .generous .any) Session.empty recycledKilobyte :=
  (kilobytes_reached (by decide : 1000 < 2 ^ 64) 2).tail
    (recycle_step (by decide) fun _ _ => trivial)

/-- All but the third of five kilobytes are given back, in use by commands of
two timelines. -/
def scattered : Session :=
  ((((kilobytes 5).recycle .generous 1 [some seventh]).recycle .generous 2 [some foreign]).recycle
    .generous 4 [some ninth]).recycle .generous 5 [some foreign]

theorem scattered_reached (hsize : C.size 1000)
    (htokens : ∀ n commands tokens, C.tokens n commands tokens) :
    ReflTransGen (Step .default .generous C) Session.empty scattered := by
  have recycled : ∀ {s : Session} {b : BlockId} {tokens : List CommandToken},
      ReflTransGen (Step .default .generous C) Session.empty s → b ∈ s.out.map Prod.fst →
      ReflTransGen (Step .default .generous C) Session.empty (s.recycle .generous b tokens) :=
    fun hrun hb => hrun.tail (recycle_step hb fun n commands => htokens n commands _)
  apply recycled _ (by decide)
  apply recycled _ (by decide)
  apply recycled _ (by decide)
  exact recycled (kilobytes_reached hsize 5) (by decide)

end Session

end RexlibCuda
