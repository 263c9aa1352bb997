import RexlibCuda.AllocatorHandout

/-! `enumerate_pending` in every pool a `memory_block_allocator` comes to, also
inside of its functions: it lists the latest command of each timeline that a
free block still waits for, which is all that `reset_pending` needs. -/

namespace RexlibCuda

open Completion Prog

open Relation (ReflTransGen)

namespace MemoryBlockPool

/-- The tokens of the free blocks, in the order of the set. -/
def freeTokens (p : MemoryBlockPool) : List CommandToken :=
  p.freeBlocks.map fun b => (p.block b).pending

theorem mem_freeTokens {p : MemoryBlockPool} {token : CommandToken} :
    token ∈ p.freeTokens ↔ ∃ b ∈ p.freeBlocks, (p.block b).pending = token :=
  List.mem_map

end MemoryBlockPool

namespace MemoryBlockAllocator

variable {cfg : Config} {env : Environment} {k : Clock Timeline}
  {touched : HeapId → Nat → Command → Prop} {strict patient : Prop} {rest : List BlockId} {r : Nat}
  {s t u : MemoryBlockAllocator} {tokens : List CommandToken}

/-- The host has just had no memory, and nothing else has changed. -/
def OutOfRoom (s t : MemoryBlockAllocator) : Prop :=
  ∃ es, t = { s with trace := .hostAllocate false :: (es ++ s.trace) }

theorem OutOfRoom.sees (h : OutOfRoom t u) (hst : Sees s t) : OutOfRoom s u := by
  obtain ⟨es, rfl⟩ := hst
  obtain ⟨es', rfl⟩ := h
  exact ⟨es' ++ es, by simp⟩

/-- There may be no memory for one of the elements. -/
theorem hostAllocate_each {α : Type} (as : List α) (s : MemoryBlockAllocator) :
    wp (forEach (fun _ => hostAllocate env) as) (fun _ t => Sees s t)
      (fun e t => e = .badAlloc ∧ OutOfRoom s t) s := by
  induction as generalizing s with
  | nil => exact .refl
  | cons a as ih =>
      simp only [forEach, wp_bind, wp_hostAllocate]
      split
      · have hfirst : Sees s (s.log (.hostAllocate true)) := ⟨[.hostAllocate true], rfl⟩
        apply wp_mono (ih (s.log (.hostAllocate true)))
        · exact fun _ _ h => hfirst.trans h
        · exact fun _ _ h => ⟨h.1, h.2.sees hfirst⟩
      · exact ⟨trivial, [], rfl⟩

theorem enumeratePending_spec (h : s.pool.pendingTokens = some tokens) :
    wp (enumeratePending env) (fun listed t => listed = tokens ∧ Sees s t)
      (fun e t => e = .badAlloc ∧ OutOfRoom s t) s := by
  simp only [enumeratePending, wp_bind, wp_get, h, wp_pure]
  exact wp_mono (hostAllocate_each tokens s) (fun _ _ h => ⟨trivial, h⟩) fun _ _ h => h

end MemoryBlockAllocator

namespace Session

variable {cfg : Config} {env : Environment} {C : Contract} {patient : Prop} {r : Nat} {s : Session}
  {t : MemoryBlockAllocator}

/-- **`enumerate_pending` speaks for every free block** in whatever pool an
allocator comes to, between its calls and inside of them: unless the host has no
memory for the list, it returns the latest command of each timeline that a free
block names and no other. Once these have finished in the order of
their timelines, nothing is left that a free block would have to wait for. -/
theorem enumerate_pending_latest (hrun : ReflTransGen (Step cfg env C) Session.empty s)
    (hinside : ReflTransGen (MemoryBlockAllocator.Internal cfg env patient r) s.alloc t) :
    ∃ tokens, t.pool.pendingTokens = some tokens ∧ Latest t.pool.freeTokens tokens ∧
      wp (MemoryBlockAllocator.enumeratePending env)
        (fun listed u => listed = tokens ∧ MemoryBlockAllocator.Sees t u)
        (fun e u => e = .badAlloc ∧ MemoryBlockAllocator.OutOfRoom t u) t ∧
      ∀ (k : Clock Timeline) (n : Nat), (∀ token ∈ tokens, ∀ c ∈ token, Complete k n c) →
        ∀ b ∈ t.pool.freeBlocks, ∀ c ∈ (t.pool.block b).pending, Complete k n c := by
  have hs := (Sound.reached hrun).alloc
  have ht := (hs.run (.always env) False.elim hinside).1
  obtain ⟨tokens, hlisted, hlatest⟩ := ht.pendingTokens
  refine ⟨tokens, hlisted, hlatest, MemoryBlockAllocator.enumeratePending_spec hlisted, ?_⟩
  intro k n hdone b hb c hc
  exact hlatest.complete hdone (MemoryBlockPool.mem_freeTokens.mpr ⟨b, hb, hc⟩)

/-- Five free blocks name three commands of two timelines, of which two are the
latest. -/
theorem enumerate_pending_latest_scattered : ∃ a,
    scattered.alloc.pool.freeTokens
      = [some foreign, some foreign, none, some seventh, some ninth] ∧
    MemoryBlockAllocator.enumeratePending .generous scattered.alloc
      = (.ok [some foreign, some ninth], a) ∧
    Latest scattered.alloc.pool.freeTokens [some foreign, some ninth] ∧
    ∀ b ∈ scattered.alloc.pool.freeBlocks, ∀ c ∈ (scattered.alloc.pool.block b).pending,
      Complete ticking 10 c := by
  obtain ⟨tokens, -, hlatest, hcall, hdone⟩ :=
    @enumerate_pending_latest .default .generous .any True 1 scattered scattered.alloc
      (scattered_reached (by decide : 1000 < 2 ^ 64) fun _ _ _ => trivial) .refl
  have hlisted : MemoryBlockAllocator.enumeratePending .generous scattered.alloc
      = (.ok [some foreign, some ninth], _) := rfl
  obtain ⟨rfl, -⟩ := wp_returned hcall hlisted
  refine ⟨_, by decide, hlisted, hlatest, hdone ticking 10 ?_⟩
  intro token htoken c hc
  simp only [List.mem_cons, List.not_mem_nil, or_false] at htoken
  obtain rfl | rfl := htoken
  · obtain rfl := Option.some.inj hc
    exact (by decide : 4 ≤ 10)
  · obtain rfl := Option.some.inj hc
    exact (by decide : 9 ≤ 10)

end Session

end RexlibCuda
