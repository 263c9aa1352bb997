import Mathlib.Data.List.Perm.Subperm
import RexlibCuda.Coalescing

/-! `reset_pending` against what `release` does one block at a time: whichever
free block is acquired and released again without its token, and in whatever
order, the pool comes to look the same. -/

namespace RexlibCuda

open Coalesce

open Relation (ReflTransGen)

namespace MemoryBlockPool

variable {A : Nat} {rest : List BlockId} {p q : MemoryBlockPool} {b c : BlockId}

/-- **A pick**: some free block that carries a token is acquired and released
again with an empty one. -/
def Pick (p q : MemoryBlockPool) : Prop :=
  ∃ b ∈ p.freeBlocks, (p.block b).pending ≠ none ∧ q = (p.acquire b).release b none

theorem Tidy.pick (h : p.Tidy A rest) (hpick : Pick p q) : q.Tidy A rest := by
  obtain ⟨b, hb, -, rfl⟩ := hpick
  exact (h.acquire hb).release none

/-! ## What picks leave -/

/-- What a pool looks like without the tokens of its free blocks, once all that
can be merged then has been. -/
def bareCells (p : MemoryBlockPool) : List Cell :=
  coalesce Cell.joining (p.showing (marking (fun _ => none) [] (fun _ => none) p))

/-- Where no free block has a token, that is what the pool looks like. -/
theorem Tidy.bareCells (h : p.Tidy A rest) (hu : p.Unbound) : p.bareCells = p.cells := by
  have hshown : p.showing (marking (fun _ => none) [] (fun _ => none) p) = p.cells := by
    rw [cells_eq_showing]
    apply showing_congr
    intro b _
    by_cases hb : b ∈ p.freeBlocks
    · simp [marking, freeToken, hb, hu b hb]
    · simp [marking, freeToken, hb]
  rw [MemoryBlockPool.bareCells, hshown, h.coalesce_cells]

/-- A pick does not change it. -/
theorem Tidy.pick_bareCells (h : p.Tidy A rest) (hpick : Pick p q) :
    q.bareCells = p.bareCells := by
  obtain ⟨b, hb, -, rfl⟩ := hpick
  have hacquired := (h.acquire hb).coherent
  -- the block is shown free all along
  have hsame : (p.acquire b).showing (Function.update
      (marking (fun _ => none) [] (fun _ => none) (p.acquire b)) b (some none))
      = p.showing (marking (fun _ => none) [] (fun _ => none) p) := by
    apply map_cellAs_congr (fun _ _ => rfl)
    intro c _
    by_cases hcb : c = b
    · subst hcb
      rw [Function.update_self, marking_pos (.inr hb)]
    · rw [Function.update_of_ne hcb]
      refine marking_congr (q := p.acquire b) rfl ?_
      show c ∈ [] ∨ c ∈ p.freeBlocks.erase b ↔ _
      rw [List.mem_erase_of_ne hcb]
  rw [MemoryBlockPool.bareCells, release_coalesce .none hacquired.wellFormed hacquired.accounted, hsame]
  rfl

theorem Tidy.resetPending_bareCells (h : p.Tidy A rest) :
    p.resetPending.bareCells = p.bareCells :=
  resetPending_coalesce h.coherent.wellFormed h.coherent.accounted

/-! ## Picks come to an end -/

/-- The free blocks that carry a token. -/
def bound (p : MemoryBlockPool) : List BlockId :=
  p.freeBlocks.filter fun b => !(p.block b).pending.isEmpty

theorem mem_bound : b ∈ p.bound ↔ b ∈ p.freeBlocks ∧ (p.block b).pending ≠ none := by
  cases h : (p.block b).pending <;> simp [bound, CommandToken.isEmpty, h]

/-- A pick leaves fewer free blocks with a token. -/
theorem Tidy.pick_bound (h : p.Tidy A rest) (hpick : Pick p q) :
    q.bound.length < p.bound.length := by
  obtain ⟨b, hb, htoken, rfl⟩ := hpick
  have hacquired := (h.acquire hb).coherent
  have hreleased := ((h.acquire hb).release none).coherent
  have hframe := release_frame (p.acquire b) b none
  have hnone : (((p.acquire b).release b none).block b).pending = none :=
    CommandToken.getTimeline_eq_none.mp (release_timeline hacquired.accounted)
  have hsub : ∀ c ∈ ((p.acquire b).release b none).bound, c ∈ p.bound ∧ c ≠ b := by
    intro c hc
    obtain ⟨hfree, hbound⟩ := mem_bound.mp hc
    have hcb : c ≠ b := by
      rintro rfl
      exact hbound hnone
    rw [hframe.block c (by simpa using hcb)] at hbound
    have hmerges := considerMergingBlock_merges (p := (p.acquire b).setPending b none)
      hacquired.accounted
    have hfree := (mem_insertFree.mp hfree).resolve_left hcb
    exact ⟨mem_bound.mpr ⟨List.mem_of_mem_erase ((merges_freeBlocks hmerges).subset hfree),
      hbound⟩, hcb⟩
  have hnd : (b :: ((p.acquire b).release b none).bound).Nodup :=
    List.nodup_cons.mpr ⟨fun h => (hsub b h).2 rfl, hreleased.wellFormed.freeNodup.filter _⟩
  apply (List.subperm_of_subset hnd _).length_le
  intro c hc
  rcases List.mem_cons.mp hc with rfl | hc
  · exact mem_bound.mpr ⟨hb, htoken⟩
  · exact (hsub c hc).1

/-- Where there is nothing to pick, no free block has a token. -/
theorem unbound_of_not_pick (h : ∀ q, ¬ Pick p q) : p.Unbound := by
  intro b hb
  by_contra htoken
  exact h _ ⟨b, hb, htoken, rfl⟩

/-- **Picks always end**, and wherever they do the pool looks like what
`reset_pending` makes of it. -/
structure Agrees (p : MemoryBlockPool) : Prop where
  ends : Acc (fun q p => Pick p q) p
  reaches : ∃ q, ReflTransGen Pick p q ∧ ∀ q', ¬ Pick q q'
  same : ∀ q, ReflTransGen Pick p q → (∀ q', ¬ Pick q q') → q.cells = p.resetPending.cells

theorem Tidy.agrees (h : p.Tidy A rest) : p.Agrees := by
  have hends : Acc (fun q p => Pick p q) p :=
    Runs.ends (fun _ _ h hpick => ⟨h.pick hpick, h.pick_bound hpick⟩) h
  refine ⟨hends, Runs.exists_end hends, fun q hrun hend => ?_⟩
  obtain ⟨hq, hbare⟩ := Runs.invariant
    (I := fun o : MemoryBlockPool => o.Tidy A rest ∧ o.bareCells = p.bareCells)
    (fun _ _ ho hpick => ⟨ho.1.pick hpick, (ho.1.pick_bareCells hpick).trans ho.2⟩)
    hrun ⟨h, rfl⟩
  have hu := resetPending_unbound h.coherent.wellFormed
  calc q.cells = q.bareCells := (hq.bareCells (unbound_of_not_pick hend)).symm
    _ = p.bareCells := hbare
    _ = p.resetPending.bareCells := h.resetPending_bareCells.symm
    _ = p.resetPending.cells := h.resetPending.bareCells hu

end MemoryBlockPool

namespace Session

variable {cfg : Config} {env : Environment} {s : Session}

/-- **Bulk and incremental merging agree** on every pool between operations. -/
theorem merging_agrees (hrun : ReflTransGen (Step cfg env .any) Session.empty s) :
    s.alloc.pool.Agrees := (Sound.tidy hrun).agrees

/-- There are four blocks to pick. Whichever is first, two of them end up in one
block and two in what was left of the heap. -/
theorem merging_agrees_scattered :
    scattered.alloc.pool.Agrees ∧
    scattered.alloc.pool.bound = [2, 5, 1, 4] ∧
    scattered.alloc.pool.cells = [⟨0, 0, 1024, true, some seventh⟩,
      ⟨0, 1024, 1024, true, some foreign⟩, ⟨0, 2048, 1024, false, none⟩,
      ⟨0, 3072, 1024, true, some ninth⟩, ⟨0, 4096, 1024, true, some foreign⟩,
      ⟨0, 5120, 2092032, true, none⟩] ∧
    scattered.alloc.pool.resetPending.cells = [⟨0, 0, 2048, true, none⟩,
      ⟨0, 2048, 1024, false, none⟩, ⟨0, 3072, 2094080, true, none⟩] :=
  ⟨merging_agrees (scattered_reached (by decide : 1000 < 2 ^ 64) fun _ _ _ => trivial),
    by decide, by decide, by decide⟩

end Session

end RexlibCuda
