import RexlibCuda.AllocatorHandout

/-! What a memory source is owed. The regions taken from it and not given back
are those behind the heaps of the pool, and none is left once the allocator has
been destroyed. -/

namespace RexlibCuda

open Completion

open Relation (ReflTransGen)

/-! ## What the trace tells of the source -/

/-- The regions that were ever taken from the source, each with its size. -/
def taken : List Event → List (Nat × Nat)
  | [] => []
  | .sourceAllocate bytes (.region allocation) :: trace => (allocation, bytes) :: taken trace
  | _ :: trace => taken trace

/-- The regions that were ever given back to it. -/
def givenBack : List Event → List (Nat × Nat)
  | [] => []
  | .sourceDeallocate allocation bytes :: trace => (allocation, bytes) :: givenBack trace
  | _ :: trace => givenBack trace

/-- Nothing was ever given back but a region that was owed at that moment, by
the pointer the source had returned for it. -/
def Settles : List Event → Prop
  | [] => True
  | .sourceDeallocate allocation bytes :: trace =>
      (allocation, bytes) ∈ outstanding trace ∧ Settles trace
  | _ :: trace => Settles trace

/-- **What was taken is what was given back and what is owed.** -/
theorem Settles.conserved {trace : List Event} (h : Settles trace) :
    (taken trace).Perm (givenBack trace ++ outstanding trace) := by
  induction trace with
  | nil => simp [taken, givenBack, outstanding]
  | cons e trace ih =>
      cases e with
      | sourceAllocate bytes answer =>
          cases answer with
          | region allocation =>
              simp only [taken, givenBack, outstanding]
              exact ((ih h).cons _).trans List.perm_middle.symm
          | refused => exact ih h
          | failed => exact ih h
      | sourceDeallocate allocation bytes =>
          obtain ⟨hmem, h⟩ := h
          simp only [taken, givenBack, outstanding]
          -- what goes back moves from what is owed to what was given back
          have howed := (List.perm_cons_erase hmem).append_left (givenBack trace)
          exact ((ih h).trans howed).trans List.perm_middle
      | _ => exact ih h

theorem Answered.settles {env : Environment} {n : Nat} {e : Event} {trace : List Event}
    (h : Answered env n e) (hs : Settles trace) : Settles (e :: trace) := by
  cases e with
  | sourceDeallocate => exact absurd h id
  | _ => exact hs

theorem quiet_settles {hosts trace : List Event}
    (hquiet : ∀ e ∈ hosts, ∃ granted, e = Event.hostAllocate granted) (hs : Settles trace) :
    Settles (hosts ++ trace) := by
  induction hosts with
  | nil => exact hs
  | cons e hosts ih =>
      obtain ⟨granted, rfl⟩ := hquiet e List.mem_cons_self
      exact ih fun e he => hquiet e (List.mem_cons_of_mem _ he)

namespace MemoryBlockAllocator

variable {cfg : Config} {env : Environment} {k : Clock Timeline}
  {touched : HeapId → Nat → Command → Prop} {strict patient : Prop} {rest : List BlockId}
  {s t : MemoryBlockAllocator} {b : BlockId} {r : Nat}

/-- No step gives back what is not owed. -/
theorem Sound.settles (hs : Sound cfg k touched strict rest s)
    (h : Internal cfg env patient r s t) (hsettles : Settles s.trace) : Settles t.trace := by
  cases h with
  | asked answered waits => exact answered.settles hsettles
  | grew hosts quiet sized aligned => exact quiet_settles quiet hsettles
  | declined hosts quiet =>
      refine ⟨?_, quiet_settles quiet hsettles⟩
      obtain ⟨-, ho, -⟩ := quiet_spec quiet (_ :: s.trace)
      rw [ho]
      exact List.mem_cons_self
  | dropped at_ kept => exact hsettles
  | released at_ kept => exact hsettles
  | partitioned free sized left aligned => exact hsettles
  | reset settled => exact hsettles
  | destroyed free empty whole =>
      refine ⟨?_, hsettles⟩
      have hwf := hs.coherent.wellFormed
      have hheap := (hwf.inside (hwf.freeSub _ free)).1
      exact hs.outstanding.mem_iff.mpr (List.mem_map_of_mem hheap)

theorem kept_settles : Kept cfg env fun s => Settles s.trace where
  internal hs hstep h := hs.settles hstep h
  handedOut _ _ hout h := by
    obtain ⟨hosts, hquiet, htrace⟩ := hout.trace
    rw [htrace]
    exact quiet_settles hquiet h
  release _ _ h _ := h
  defer hquiet h := quiet_settles hquiet h
  lost hquiet h := quiet_settles hquiet h
  emptied _ _ h := h

/-! ## The end of an allocator -/

/-- `~memory_block_pool`, which lets the heaps die in the order the map has them
in, here `heaps`. -/
def clear (cfg : Config) (heaps : List HeapId) (s : MemoryBlockAllocator) :
    MemoryBlockAllocator :=
  destroyHeaps cfg heaps
    { s with pool := { s.pool with blocks := [], freeBlocks := [], heaps := [] } }

/-- `~memory_block_allocator`: what `trim` throws is caught, what is still held
back is lost, and the pool goes. -/
def destroy (cfg : Config) (env : Environment) (heaps : List HeapId)
    (s : MemoryBlockAllocator) : MemoryBlockAllocator :=
  clear cfg heaps { (trim cfg env s).2 with deferred := [] }

/-- Heaps that die give back what is owed for them, and nothing else. -/
theorem destroyHeaps_settles (cfg : Config) (heaps : List HeapId) : ∀ (s : MemoryBlockAllocator)
    (others : List (Nat × Nat)), Settles s.trace →
    (outstanding s.trace).Perm (heaps.map (region cfg s.pool) ++ others) →
    Settles (destroyHeaps cfg heaps s).trace ∧
      (outstanding (destroyHeaps cfg heaps s).trace).Perm others := by
  induction heaps with
  | nil => exact fun s others hs ho => ⟨hs, ho⟩
  | cons h heaps ih =>
      intro s others hs ho
      have hmem : region cfg s.pool h ∈ outstanding s.trace := by
        rw [ho.mem_iff]
        simp
      have hrest := ho.erase (region cfg s.pool h)
      rw [List.map_cons, List.cons_append, List.erase_cons_head] at hrest
      exact ih (giveBack cfg (s.pool.heap h) (s.log (.heapReleased h))) others ⟨hmem, hs⟩ hrest

/-- Between operations the source is owed the regions behind the heaps, one for
each. -/
structure SourceLedger (cfg : Config) (s : MemoryBlockAllocator) : Prop where
  outstanding : (outstanding s.trace).Perm (s.pool.heaps.map (region cfg s.pool))
  heaps : s.pool.heaps.Nodup
  settles : Settles s.trace
  conserved : (taken s.trace).Perm (givenBack s.trace ++ RexlibCuda.outstanding s.trace)

theorem Sound.sourceLedger (hs : Sound cfg k touched strict rest s) (h : Settles s.trace) :
    SourceLedger cfg s :=
  ⟨hs.outstanding, hs.coherent.wellFormed.heapsNodup, h, h.conserved⟩

/-- **Nothing is owed** after the end, and all that was ever taken was given
back. -/
structure PaidBack (s : MemoryBlockAllocator) : Prop where
  outstanding : outstanding s.trace = []
  settles : Settles s.trace
  conserved : (taken s.trace).Perm (givenBack s.trace)

theorem Sound.destroy (hs : Sound cfg k touched strict rest s) (henv : Truthful k env)
    (hsettles : Settles s.trace) {heaps : List HeapId}
    (hheaps : heaps.Perm (trim cfg env s).2.pool.heaps) : PaidBack (destroy cfg env heaps s) := by
  have hrun : ReflTransGen (Internal cfg env True uncut) s (trim cfg env s).2 :=
    trim_uncut trivial hs henv
  have ht := (hs.run henv uncut_pos hrun).1
  have hsettles' : Settles (trim cfg env s).2.trace :=
    hs.run_invariant henv uncut_pos (fun _ _ hu hstep h => hu.settles hstep h) hrun hsettles
  -- the heaps are still there to tell what is behind them
  obtain ⟨h, ho⟩ := destroyHeaps_settles cfg heaps
    { (trim cfg env s).2 with
      deferred := []
      pool := { (trim cfg env s).2.pool with blocks := [], freeBlocks := [], heaps := [] } }
    [] hsettles' (by
      rw [List.append_nil]
      exact ht.outstanding.trans (hheaps.symm.map _))
  have hnone := List.perm_nil.mp ho
  have hconserved := h.conserved
  rw [hnone, List.append_nil] at hconserved
  exact ⟨hnone, h, hconserved⟩

end MemoryBlockAllocator

namespace Session

variable {cfg : Config} {env : Environment} {s : Session}

/-- **The source is owed nothing but the heaps**, whatever it refuses and
whatever fails, and nothing at all once the allocator has been destroyed. -/
theorem source_ledger (hrun : ReflTransGen (Step cfg env .any) Session.empty s) :
    MemoryBlockAllocator.SourceLedger cfg s.alloc ∧
    ∀ heaps : List HeapId,
      heaps.Perm (MemoryBlockAllocator.trim cfg env s.alloc).2.pool.heaps →
      MemoryBlockAllocator.PaidBack (MemoryBlockAllocator.destroy cfg env heaps s.alloc) := by
  have hs := Sound.reached hrun
  have hsettles : Settles s.alloc.trace :=
    Kept.reached MemoryBlockAllocator.kept_settles trivial hrun
  refine ⟨hs.alloc.sourceLedger hsettles, fun heaps hheaps => ?_⟩
  exact hs.alloc.destroy (.always env) hsettles hheaps

/-- One heap has been taken when a kilobyte of it is still handed out. -/
theorem source_ledger_recycled :
    MemoryBlockAllocator.SourceLedger .default recycledKilobyte.alloc ∧
    MemoryBlockAllocator.PaidBack
      (MemoryBlockAllocator.destroy .default .generous [0] recycledKilobyte.alloc) := by
  obtain ⟨hledger, hpaid⟩ := source_ledger recycledKilobyte_reached
  exact ⟨hledger, hpaid [0] (.refl _)⟩

end Session

end RexlibCuda
