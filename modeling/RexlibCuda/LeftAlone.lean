import RexlibCuda.AllocatorHandout

/-! A block that is handed out or held back is left alone: whatever an
allocator does, the block stays what it was, and its heap with it, until it is
given back itself. -/

namespace RexlibCuda

open Completion Prog

open Relation (ReflTransGen)

namespace MemoryBlockPool

variable {A : Nat} {strict : Prop} {G G' : Guard} {B rest rest' : List BlockId}
  {p q o : MemoryBlockPool} {b c : BlockId}

/-- **The block is left alone** on the way from `p` to `q`: it is the same
block, with the same token, and not free, and its heap is still there. -/
structure LeftAlone (p q : MemoryBlockPool) (b : BlockId) : Prop where
  block : b ∈ q.blocks
  notFree : b ∉ q.freeBlocks
  record : q.block b = p.block b
  owned : (p.block b).heap ∈ q.heaps
  heap : q.heap (p.block b).heap = p.heap (p.block b).heap

/-- What evolves without a block that is not free leaves it alone. -/
theorem Evolves.leftAlone (hev : Evolves B p q) (hB : b ∈ B) (hp : p.Coherent A strict G rest)
    (hb : b ∈ rest) (hq : q.Coherent A strict G' rest') (hb' : b ∈ rest') : LeftAlone p q b := by
  have hrec := hev.block b hB
  have hin := hp.wellFormed.inside (hp.accounted.mem hb)
  have hin' := hq.wellFormed.inside (hq.accounted.mem hb')
  rw [hrec] at hin'
  exact
    { block := hq.accounted.mem hb'
      notFree := hq.accounted.not_free hq.wellFormed hb'
      record := hrec
      owned := hin'.1
      heap := hev.heap _ (hp.wellFormed.heapsFresh _ hin.1) }

theorem Coherent.leftAlone (hp : p.Coherent A strict G rest) (hb : b ∈ rest) : LeftAlone p p b := by
  have hev : Evolves rest p p := .refl
  exact hev.leftAlone hb hp hb hp hb

/-- Handing out a free block leaves the others alone. -/
theorem LeftAlone.acquire (h : LeftAlone p q b) (c : BlockId) : LeftAlone p (q.acquire c) b where
  block := h.block
  notFree hb := h.notFree (List.mem_of_mem_erase hb)
  record := h.record
  owned := h.owned
  heap := h.heap

/-- A neighbour that is released never takes the block over. -/
theorem Coherent.release_leftAlone (hp : p.Coherent A strict G (c :: rest)) (hb : b ∈ rest)
    (t : CommandToken) : LeftAlone p (p.release c t) b := by
  have hq : (p.release c t).Coherent A strict noGuard rest :=
    hp.forget.release noGuard_lasting fun _ _ => trivial
  have hbc : b ∉ [c] := by
    intro h
    obtain rfl := List.mem_singleton.mp h
    exact (List.nodup_cons.mp (hp.accounted.nodup hp.wellFormed)).1 hb
  have hev : Evolves [b] p (p.release c t) := (p.release_frame c t).evolves (by simpa using hbc)
  exact hev.leftAlone List.mem_cons_self hp (List.mem_cons_of_mem c hb) hq hb

/-- `reset_pending` does not touch the block. -/
theorem Coherent.resetPending_leftAlone (hp : p.Coherent A strict G rest) (hb : b ∈ rest) :
    LeftAlone p p.resetPending b := by
  have hq : p.resetPending.Coherent A strict noGuard rest :=
    hp.forget.resetPending noGuard_lasting fun _ _ _ _ => trivial
  have hev : Evolves [b] p p.resetPending := (resetPending_frame hp.wellFormed).evolves (by
    simpa using hp.accounted.not_free hp.wellFormed hb)
  exact hev.leftAlone List.mem_cons_self hp hb hq hb

end MemoryBlockPool

namespace MemoryBlockAllocator

variable {cfg : Config} {env : Environment} {r : Nat} {k : Clock Timeline}
  {touched : HeapId → Nat → Command → Prop} {patient strict : Prop} {rest : List BlockId}
  {s t u : MemoryBlockAllocator} {b : BlockId}

/-- The block is held back in both, and as it was. -/
structure StillHeld (s t : MemoryBlockAllocator) (b : BlockId) : Prop where
  held : b ∈ t.deferred.map Prod.fst
  record : t.pool.block b = s.pool.block b

/-- One step leaves a block that is held back alone, or gives it back. -/
theorem Sound.held_step (hs : Sound cfg k touched strict rest s)
    (hb : b ∈ s.deferred.map Prod.fst) (h : Internal cfg env patient r s t) :
    StillHeld s t b ∨ t.trace = .released b :: s.trace := by
  have hwf := hs.coherent.wellFormed
  have hacc := hs.coherent.accounted
  have hmem : b ∈ s.deferred.map Prod.fst ++ rest := List.mem_append_left _ hb
  cases h with
  | asked answered waits => exact .inl ⟨hb, rfl⟩
  | grew hosts quiet sized aligned => exact .inl ⟨hb, (hacc.register_evolves hwf _).block b hmem⟩
  | declined hosts quiet => exact .inl ⟨hb, rfl⟩
  | dropped at_ kept =>
      rw [at_] at hb
      exact .inl ⟨by simpa using hb, rfl⟩
  | @released before after c tokens token at_ kept =>
      by_cases hbc : b = c
      · subst hbc
        exact .inr rfl
      · refine .inl ⟨?_, ?_⟩
        · rw [at_] at hb
          simpa [hbc] using hb
        · exact (s.pool.release_frame c _).block b (by simpa using hbc)
  | partitioned free sized left aligned =>
      exact .inl ⟨hb, (hacc.partition_evolves hwf free _ _).block b hmem⟩
  | reset settled =>
      exact .inl ⟨hb, (MemoryBlockPool.resetPending_frame hwf).block b (hacc.not_free hwf hmem)⟩
  | destroyed free empty whole => exact .inl ⟨hb, rfl⟩

/-- So does a run, up to the moment it gives the block back. -/
theorem Sound.held_run (hs : Sound cfg k touched strict rest s) (henv : Truthful k env)
    (hr : strict → 0 < r) (hb : b ∈ s.deferred.map Prod.fst)
    (hrun : ReflTransGen (Internal cfg env patient r) s t) :
    StillHeld s t b ∨ ∃ u es, ReflTransGen (Internal cfg env patient r) s u ∧ StillHeld s u b ∧
      t.trace = es ++ .released b :: u.trace := by
  induction hrun with
  | refl => exact .inl ⟨hb, rfl⟩
  | @tail t v hst hstep ih =>
      have ht := (hs.run henv hr hst).1
      rcases ih with hheld | ⟨u, es, hsu, hheld, htrace⟩
      · rcases ht.held_step hheld.held hstep with hheld' | htrace
        · exact .inl ⟨hheld'.held, hheld'.record.trans hheld.record⟩
        · exact .inr ⟨t, [], hst, hheld, htrace⟩
      · obtain ⟨es', htrace'⟩ := (ht.passes hstep).trace
        exact .inr ⟨u, es' ++ es, hsu, hheld, by rw [← htrace', htrace, List.append_assoc]⟩

/-- A block that is held back is given back somewhere on the way from `s` to
`t`, and has been left alone until then. -/
def GivenBack (cfg : Config) (env : Environment) (s t : MemoryBlockAllocator) (b : BlockId) :
    Prop :=
  ∃ r u es, ReflTransGen (Internal cfg env True r) s u ∧ s.pool.LeftAlone u.pool b ∧
    t.trace = es ++ .released b :: u.trace

theorem GivenBack.later (h : GivenBack cfg env s t b) (ht : t.trace <:+ u.trace) :
    GivenBack cfg env s u b := by
  obtain ⟨r, v, es, hrun, hleft, htrace⟩ := h
  obtain ⟨es', htrace'⟩ := ht
  exact ⟨r, v, es' ++ es, hrun, hleft, by rw [← htrace', htrace, List.append_assoc]⟩

/-- A run leaves blocks that are held back alone, up to the moment it gives
them back. -/
theorem Sound.held_leftAlone (hs : Sound cfg k touched strict rest s) (henv : Truthful k env)
    (hr : strict → 0 < r) (hb : b ∈ s.deferred.map Prod.fst)
    (hrun : ReflTransGen (Internal cfg env True r) s t) :
    b ∈ t.deferred.map Prod.fst ∧ s.pool.LeftAlone t.pool b ∨ GivenBack cfg env s t b := by
  -- the record is all that has to be compared
  have hleft : ∀ u, ReflTransGen (Internal cfg env True r) s u → StillHeld s u b →
      s.pool.LeftAlone u.pool b := by
    intro u hsu hheld
    obtain ⟨hu, hpasses⟩ := hs.run henv hr hsu
    have hev : s.pool.Evolves [b] u.pool :=
      { hpasses.evolves with block := by simpa using hheld.record }
    exact hev.leftAlone List.mem_cons_self hs.coherent (List.mem_append_left _ hb) hu.coherent
      (List.mem_append_left _ hheld.held)
  rcases hs.held_run henv hr hb hrun with hheld | ⟨u, es, hsu, hheld, htrace⟩
  · exact .inl ⟨hheld.held, hleft t hrun hheld⟩
  · exact .inr ⟨r, u, es, hsu, hleft u hsu hheld, htrace⟩

/-- It leaves blocks that are handed out or lost alone. -/
theorem Sound.rest_leftAlone (hs : Sound cfg k touched strict rest s) (henv : Truthful k env)
    (hr : strict → 0 < r) (hb : b ∈ rest)
    (hrun : ReflTransGen (Internal cfg env patient r) s t) : s.pool.LeftAlone t.pool b := by
  obtain ⟨ht, hpasses⟩ := hs.run henv hr hrun
  exact hpasses.evolves.leftAlone hb hs.coherent (List.mem_append_right _ hb) ht.coherent
    (List.mem_append_right _ hb)

end MemoryBlockAllocator

/-- A call of an allocator. -/
inductive Call where
  | allocate (size alignment : Nat) (timeline : Option Timeline)
  | recycle (block : BlockId) (tokens : List CommandToken)
  | trim

/-- What is left of the allocator, whether the call returns or throws. -/
def Call.run (cfg : Config) (env : Environment) : Call → MemoryBlockAllocator →
    MemoryBlockAllocator
  | .allocate size alignment timeline, s =>
      (MemoryBlockAllocator.allocate cfg env size alignment timeline s).2
  | .recycle b tokens, s => (MemoryBlockAllocator.recycle env b tokens s).2
  | .trim, s => (MemoryBlockAllocator.trim cfg env s).2

namespace Session

variable {cfg : Config} {env : Environment} {s : Session} {b c : BlockId}

/-- **Each block that is not free is left alone** by a call that ends in `a`,
but for one that is recycled by it or given back. -/
structure OthersLeftAlone (cfg : Config) (env : Environment) (s : Session) (call : Call)
    (a : MemoryBlockAllocator) : Prop where
  /-- It is handed out, or lost. -/
  out : ∀ b ∈ s.rest, (∀ tokens, call ≠ .recycle b tokens) → s.alloc.pool.LeftAlone a.pool b
  /-- It is held back. -/
  held : ∀ b ∈ s.alloc.deferred.map Prod.fst,
    b ∈ a.deferred.map Prod.fst ∧ s.alloc.pool.LeftAlone a.pool b ∨
      MemoryBlockAllocator.GivenBack cfg env s.alloc a b

theorem Sound.run_leftAlone (hs : Sound cfg (Clock.always Timeline) False s) {r : Nat}
    {call : Call} {a : MemoryBlockAllocator}
    (hrun : ReflTransGen (MemoryBlockAllocator.Internal cfg env True r) s.alloc a) :
    OthersLeftAlone cfg env s call a where
  out _ hb _ := hs.alloc.rest_leftAlone (.always env) False.elim hb hrun
  held _ hb := hs.alloc.held_leftAlone (.always env) False.elim hb hrun

/-- `allocate` takes a free block, and leaves the others alone. -/
theorem Sound.allocate_leftAlone (hs : Sound cfg (Clock.always Timeline) False s)
    (size alignment : Nat) (timeline : Option Timeline) :
    OthersLeftAlone cfg env s (.allocate size alignment timeline)
      (MemoryBlockAllocator.allocate cfg env size alignment timeline s.alloc).2 := by
  have henv := Truthful.always env
  cases hcall : MemoryBlockAllocator.allocate cfg env size alignment timeline s.alloc with
  | mk result a =>
      cases result with
      | error e => exact hs.run_leftAlone (hs.allocate_threw henv False.elim hcall)
      | ok c =>
          obtain ⟨u, hrun, -, -, rfl⟩ := hs.allocate_returned henv False.elim hcall
          have hleft : OthersLeftAlone cfg env s .trim u := hs.run_leftAlone hrun
          constructor
          · intro b hb _
            exact (hleft.out b hb fun _ h => by cases h).acquire c
          · intro b hb
            apply (hleft.held b hb).imp
            · exact And.imp_right fun h => h.acquire c
            · exact fun h => h.later (List.suffix_cons ..)

/-- `recycle` leaves all but the block it is about alone. -/
theorem Sound.recycle_leftAlone (hs : Sound cfg (Clock.always Timeline) False s)
    (hc : c ∈ s.out.map Prod.fst) (tokens : List CommandToken) :
    OthersLeftAlone cfg env s (.recycle c tokens)
      (MemoryBlockAllocator.recycle env c tokens s.alloc).2 := by
  have hcoh := hs.alloc.coherent
  have hmem : c ∈ s.alloc.deferred.map Prod.fst ++ s.rest :=
    List.mem_append_right _ (List.mem_append_left _ hc)
  have hnd := hcoh.accounted.nodup hcoh.wellFormed
  have hheld : ∀ b ∈ s.alloc.deferred.map Prod.fst, b ≠ c := fun b hb =>
    (List.nodup_append.mp hnd).2.2 b hb c (List.mem_append_left _ hc)
  rcases MemoryBlockAllocator.recycle_spec env c tokens s.alloc with
    ⟨-, hfinal⟩ | ⟨hosts, -, hfinal | hfinal⟩
  · rw [hfinal]
    -- the neighbours of the block may be merged into it, but only free ones
    have hrelease : ∀ b ∈ s.alloc.deferred.map Prod.fst ++ s.rest, b ≠ c →
        s.alloc.pool.LeftAlone (s.alloc.pool.release c (tokens.headD none)) b := by
      intro b hb hbc
      have hcoh := hcoh.perm (List.perm_cons_erase hmem)
      exact hcoh.release_leftAlone ((List.mem_erase_of_ne hbc).mpr hb) _
    constructor
    · intro b hb hne
      apply hrelease b (List.mem_append_right _ hb)
      rintro rfl
      exact hne tokens rfl
    · intro b hb
      exact .inl ⟨hb, hrelease b (List.mem_append_left _ hb) (hheld b hb)⟩
  · rw [hfinal]
    constructor
    · intro b hb _
      exact hcoh.leftAlone (List.mem_append_right _ hb)
    · intro b hb
      have hb' : b ∈ (s.alloc.deferred ++ [(c, tokens)]).map Prod.fst := by
        rw [List.map_append]
        exact List.mem_append_left _ hb
      exact .inl ⟨hb', hcoh.leftAlone (List.mem_append_left _ hb)⟩
  · rw [hfinal]
    constructor
    · intro b hb _
      exact hcoh.leftAlone (List.mem_append_right _ hb)
    · intro b hb
      exact .inl ⟨hb, hcoh.leftAlone (List.mem_append_left _ hb)⟩

/-- **A block that is handed out or held back is left alone** by every call
that is not about it, and by every change of the pool such calls make. -/
theorem left_alone (hrun : ReflTransGen (Step cfg env .any) Session.empty s) :
    (∀ call, (∀ c tokens, call = .recycle c tokens → c ∈ s.out.map Prod.fst) →
      OthersLeftAlone cfg env s call (call.run cfg env s.alloc)) ∧
    ∀ b ∈ s.alloc.deferred.map Prod.fst ++ s.rest,
      s.alloc.pool.LeftAlone s.alloc.pool.resetPending b ∧
      ∀ c ∈ s.alloc.deferred.map Prod.fst ++ s.rest, c ≠ b → ∀ token,
        s.alloc.pool.LeftAlone (s.alloc.pool.release c token) b := by
  have hs := Sound.reached hrun
  have hcoh := hs.alloc.coherent
  constructor
  · intro call hcall
    cases call with
    | allocate size alignment timeline => exact hs.allocate_leftAlone size alignment timeline
    | recycle c tokens => exact hs.recycle_leftAlone (hcall c tokens rfl) tokens
    | trim => exact hs.run_leftAlone (hs.trim_run (.always env))
  · intro b hb
    refine ⟨hcoh.resetPending_leftAlone hb, fun c hc hcb token => ?_⟩
    have hcoh := hcoh.perm (List.perm_cons_erase hc)
    exact hcoh.release_leftAlone ((List.mem_erase_of_ne (Ne.symm hcb)).mpr hb) token

/-- A kilobyte is handed out between free memory. -/
theorem left_alone_recycled :
    OthersLeftAlone .default .generous recycledKilobyte .trim
      (MemoryBlockAllocator.trim .default .generous recycledKilobyte.alloc).2 ∧
    OthersLeftAlone .default .generous recycledKilobyte (.recycle 2 [])
      (MemoryBlockAllocator.recycle .generous 2 [] recycledKilobyte.alloc).2 ∧
    recycledKilobyte.alloc.pool.LeftAlone recycledKilobyte.alloc.pool.resetPending 2 := by
  obtain ⟨hcalls, hblocks⟩ := left_alone recycledKilobyte_reached
  refine ⟨hcalls .trim ?_, hcalls (.recycle 2 []) ?_, (hblocks 2 (by decide)).1⟩
  · intro c tokens h
    cases h
  · intro c tokens h
    cases h
    decide

end Session

end RexlibCuda
