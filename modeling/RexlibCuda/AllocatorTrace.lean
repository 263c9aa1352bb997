import RexlibCuda.MemoryBlockAllocator
import RexlibCuda.PoolInvariant

/-! What the trace of an allocator tells: who holds which block, what the
source is owed, which commands were seen to have finished. With it, what the
token of a free block says of the commands that touched its bytes. -/

namespace RexlibCuda

open Completion

/-! ## What the trace tells -/

/-- The blocks that have been handed out and not been given back, with those
that are held back and those that are lost. -/
def holders : List Event → List BlockId
  | [] => []
  | .acquired b :: trace => b :: holders trace
  | .released b :: trace => (holders trace).erase b
  | _ :: trace => holders trace

/-- The regions that have been taken from the source and not been given back,
each with its size. -/
def outstanding : List Event → List (Nat × Nat)
  | [] => []
  | .sourceAllocate bytes (.region allocation) :: trace =>
      (allocation, bytes) :: outstanding trace
  | .sourceDeallocate allocation bytes :: trace => (outstanding trace).erase (allocation, bytes)
  | _ :: trace => outstanding trace

/-- The blocks `deferred_release::defer` failed on. -/
def lostBlocks : List Event → List BlockId
  | [] => []
  | .lost b :: trace => b :: lostBlocks trace
  | _ :: trace => lostBlocks trace

/-- No block was ever handed out while somebody had it, and none was given
back but by a hand-out that had not been given back yet. -/
def Balanced : List Event → Prop
  | [] => True
  | .acquired b :: trace => b ∉ holders trace ∧ Balanced trace
  | .released b :: trace => b ∈ holders trace ∧ Balanced trace
  | _ :: trace => Balanced trace

/-- The command was seen to have finished. -/
def Observed (trace : List Event) (c : Command) : Prop :=
  .isComplete c (some true) ∈ trace ∨ .wait c true ∈ trace

/-- The command a token names was seen to have finished, or a later one of
its timeline. -/
def Settled (trace : List Event) (t : CommandToken) : Prop :=
  ∀ c ∈ t, ∃ d, Observed trace d ∧ d.timeline = c.timeline ∧ c.id ≤ d.id

/-- Somebody waited. -/
def Event.IsWait : Event → Prop
  | .wait _ _ => True
  | _ => False

/-- The outside was asked at moment `n` and gave no memory. -/
def Answered (env : Environment) (n : Nat) : Event → Prop
  | .isComplete c answer => answer = env.isComplete n c
  | .wait c returned => returned = env.wait n c
  | .hostAllocate granted => granted = env.hostAllocate n
  | .sourceAllocate _ (.region _) => False
  | .sourceAllocate _ _ => True
  | .passed => True
  | _ => False

/-- What a query and a wait promise of the commands they were about. -/
structure Truthful (k : Clock Timeline) (env : Environment) : Prop where
  isComplete : ∀ n c, env.isComplete n c = some true → Complete k n c
  wait : ∀ n c, env.wait n c = true → Complete k (n + 1) c

theorem Truthful.always (env : Environment) : Truthful (Clock.always Timeline) env :=
  ⟨fun _ _ _ => trivial, fun _ _ _ => trivial⟩

/-- Command `i` of each timeline finishes at moment `i`. -/
def ticking : Clock Timeline where
  finished n c := c.id ≤ n
  stays hmn h := Nat.le_trans h hmn
  inOrder h _ hid := Nat.le_trans hid h

/-- Queries and waits tell the truth of that. -/
def tickingEnvironment : Environment :=
  { Environment.generous with
    isComplete := fun n c => some (decide (c.id ≤ n))
    wait := fun n c => decide (c.id ≤ n + 1) }

theorem ticking_truthful : Truthful ticking tickingEnvironment where
  isComplete n c h := by simpa [tickingEnvironment, ticking, Complete] using h
  wait n c h := by simpa [tickingEnvironment, ticking, Complete] using h

section Trace

variable {env : Environment} {n : Nat} {e : Event} {trace : List Event}

theorem Answered.holders (h : Answered env n e) : holders (e :: trace) = holders trace := by
  cases e <;> first | rfl | exact absurd h id

theorem Answered.outstanding (h : Answered env n e) :
    outstanding (e :: trace) = outstanding trace := by
  cases e with
  | sourceAllocate bytes answer =>
      cases answer with
      | region allocation => exact absurd h id
      | refused => rfl
      | failed => rfl
  | sourceDeallocate => exact absurd h id
  | _ => rfl

theorem Answered.lostBlocks (h : Answered env n e) :
    lostBlocks (e :: trace) = lostBlocks trace := by
  cases e <;> first | rfl | exact absurd h id

theorem Answered.balanced (h : Answered env n e) (hb : Balanced trace) : Balanced (e :: trace) := by
  cases e <;> first | exact hb | exact absurd h id

theorem Answered.not_heapReleased (h : Answered env n e) (g : HeapId) : e ≠ .heapReleased g := by
  rintro rfl
  exact h

/-- What is seen to have finished has finished. -/
theorem Answered.observed {k : Clock Timeline} (henv : Truthful k env)
    (h : Answered env trace.length e) {c : Command} (hc : Observed (e :: trace) c) :
    Observed trace c ∨ Complete k (trace.length + 1) c := by
  rcases hc with hc | hc
  · rcases List.mem_cons.mp hc with rfl | hc
    · exact .inr ((henv.isComplete _ c (Eq.symm h)).mono (Nat.le_succ _))
    · exact .inl (.inl hc)
  · rcases List.mem_cons.mp hc with rfl | hc
    · exact .inr (henv.wait _ c (Eq.symm h))
    · exact .inl (.inr hc)

theorem Observed.append {c : Command} (h : Observed trace c) (es : List Event) :
    Observed (es ++ trace) c :=
  h.imp (List.mem_append_right es) (List.mem_append_right es)

theorem Settled.append {t : CommandToken} (h : Settled trace t) (es : List Event) :
    Settled (es ++ trace) t := by
  intro c hc
  obtain ⟨d, hd, hle⟩ := h c hc
  exact ⟨d, hd.append es, hle⟩

end Trace

/-! ## What a token covers -/

/-- The token covers all that ever touched the byte. -/
def ledger (k : Clock Timeline) (touched : HeapId → Nat → Command → Prop) (n : Nat) :
    MemoryBlockPool.Guard :=
  fun t h x => ∀ c, touched h x c → Covered k n [t] c

theorem laterPending_covers {t t' : CommandToken} {c : Command}
    (htl : t'.getTimeline = t.getTimeline) (h : Covers t c ∨ Covers t' c) :
    Covers (MemoryBlockPool.laterPending t t') c := by
  cases t with
  | none =>
      have ht' : t' = none := CommandToken.getTimeline_eq_none.mp htl
      subst ht'
      exact absurd h (by simp [not_covers_none])
  | some d =>
      cases t' with
      | none => simp at htl
      | some d' =>
          have htl : d'.timeline = d.timeline := by simpa using htl
          have hlater : MemoryBlockPool.laterPending (some d) (some d')
              = if d.id < d'.id then some d' else some d := by
            by_cases hlt : d.id < d'.id <;>
              simp [MemoryBlockPool.laterPending, CommandToken.isEmpty, hlt]
          rw [hlater]
          -- the later of the two covers what either covered
          rcases h with ⟨e, he, ht, hid⟩ | ⟨e, he, ht, hid⟩
          · obtain rfl : d = e := Option.some.inj he
            split
            · exact ⟨d', rfl, htl.trans ht, by omega⟩
            · exact ⟨d, rfl, ht, hid⟩
          · obtain rfl : d' = e := Option.some.inj he
            split
            · exact ⟨d', rfl, ht, hid⟩
            · exact ⟨d, rfl, htl.symm.trans ht, by omega⟩

section Ledger

variable {k : Clock Timeline} {touched : HeapId → Nat → Command → Prop} {m n : Nat}

theorem ledger_lasting : (ledger k touched n).Lasting := by
  intro t t' h x htl hg c hc
  rcases hg with hg | hg
  · rcases hg c hc with hdone | ⟨u, hu, hcov⟩
    · exact .inl hdone
    · rw [List.mem_singleton.mp hu] at hcov
      exact .of_mem List.mem_cons_self (laterPending_covers htl (.inl hcov))
  · rcases hg c hc with hdone | ⟨u, hu, hcov⟩
    · exact .inl hdone
    · rw [List.mem_singleton.mp hu] at hcov
      exact .of_mem List.mem_cons_self (laterPending_covers htl (.inr hcov))

theorem ledger_mono (hmn : m ≤ n) {t : CommandToken} {h : HeapId} {x : Nat}
    (hg : ledger k touched m t h x) : ledger k touched n t h x :=
  fun c hc => (hg c hc).mono hmn

/-- Once what a token names has finished, the empty token says as much. -/
theorem ledger_settled {trace : List Event} {t : CommandToken} {h : HeapId} {x : Nat}
    (hobs : ∀ c, Observed trace c → Complete k n c) (ht : Settled trace t)
    (hg : ledger k touched n t h x) : ledger k touched n none h x := by
  intro c hc
  refine .inl ((hg c hc).complete ?_)
  intro u hu d hd
  rw [List.mem_singleton.mp hu] at hd
  obtain ⟨e, he, htl, hid⟩ := ht d hd
  exact (hobs e he).earlier htl hid

end Ledger

end RexlibCuda
