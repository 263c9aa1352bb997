import Mathlib.Data.List.Perm.Subperm
import RexlibCuda.Coalescing

/-! Blocks may be given back in any order: each order goes through other
blocks, but the pool comes to look the same. -/

namespace RexlibCuda

open Coalesce

open Relation (ReflTransGen)

/-! ## What a cell was joined from -/

/-- **The pieces a cell was joined from**: consecutive ones that start where it
does and add up to it, and of whose tokens it carries the latest. -/
structure Absorbed (pieces : List Cell) (c : Cell) : Prop where
  start : pieces.head?.map Cell.offset = some c.offset
  size : (pieces.map Cell.size).sum = c.size
  heap : ∀ a ∈ pieces, a.heap = c.heap
  free : ∀ a ∈ pieces, a.free = c.free
  /-- Only free cells were joined. -/
  single : c.free = false → pieces = [c]
  timeline : ∀ a ∈ pieces, a.token.getTimeline = c.token.getTimeline
  carried : ∃ a ∈ pieces, a.token = c.token
  latest : ∀ a ∈ pieces, a.token.getId ≤ c.token.getId

theorem Absorbed.one (a : Cell) : Absorbed [a] a := by
  constructor <;> simp

namespace MemoryBlockPool

/-- The later of two tokens is one of them, and has the greater id. -/
theorem laterPending_latest (t t' : CommandToken) :
    (laterPending t t' = t ∨ laterPending t t' = t') ∧
      t.getId ≤ (laterPending t t').getId ∧
      (t'.getTimeline = t.getTimeline → t'.getId ≤ (laterPending t t').getId) := by
  cases t with
  | none =>
      cases t' with
      | none => simp [laterPending]
      | some d' =>
          refine ⟨?_, Nat.zero_le _, fun h => by cases h⟩
          unfold laterPending
          split
          · exact .inr rfl
          · exact .inl rfl
  | some d =>
      cases t' with
      | none => simp [laterPending_none]
      | some d' =>
          rw [laterPending_some]
          split
          · exact ⟨.inr rfl, by simp only [CommandToken.getId_some]; omega, fun _ => Nat.le_refl _⟩
          · exact ⟨.inl rfl, Nat.le_refl _, fun _ => by
              simp only [CommandToken.getId_some]; omega⟩

end MemoryBlockPool

theorem Absorbed.join {a b : Cell} {pieces : List Cell} (h : Absorbed pieces b)
    (hjoins : Cell.joining.joins a b) : Absorbed (a :: pieces) (Cell.joining.join a b) := by
  obtain ⟨ha, hb, hheap, ht⟩ := hjoins
  obtain ⟨hone, hle, hle'⟩ := MemoryBlockPool.laterPending_latest a.token b.token
  have htimeline : (MemoryBlockPool.laterPending a.token b.token).getTimeline
      = a.token.getTimeline := MemoryBlockPool.laterPending_timeline ht
  constructor
  · rfl
  · simp [Cell.joining, h.size]
  · intro c hc
    rcases List.mem_cons.mp hc with rfl | hc
    · rfl
    · exact (h.heap c hc).trans hheap
  · intro c hc
    rcases List.mem_cons.mp hc with rfl | hc
    · rfl
    · exact (h.free c hc).trans (hb.trans ha.symm)
  · intro hfree
    have hfree : a.free = false := hfree
    rw [ha] at hfree
    cases hfree
  · intro c hc
    rcases List.mem_cons.mp hc with rfl | hc
    · exact htimeline.symm
    · exact (h.timeline c hc).trans (ht.trans htimeline.symm)
  · rcases hone with hone | hone
    · exact ⟨a, List.mem_cons_self, hone.symm⟩
    · obtain ⟨c, hc, hcb⟩ := h.carried
      exact ⟨c, List.mem_cons_of_mem a hc, hcb.trans hone.symm⟩
  · intro c hc
    rcases List.mem_cons.mp hc with rfl | hc
    · exact hle
    · exact Nat.le_trans (h.latest c hc) (hle' ht)

/-! ## Giving back several blocks -/

/-- Blocks that are given back, each with a token. -/
abbrev Returns := List (BlockId × CommandToken)

namespace MemoryBlockPool

variable {A : Nat} {rest : List BlockId} {p : MemoryBlockPool} {b c : BlockId}
  {blocks blocks' : Returns}

/-- `memory_block_pool::release` on one after the other. -/
def releaseAll (p : MemoryBlockPool) (blocks : Returns) : MemoryBlockPool :=
  blocks.foldl (fun q x => q.release x.1 x.2) p

/-- Which token goes with a block that is to be given back. -/
def tokenOf (blocks : Returns) (b : BlockId) : Option CommandToken := blocks.lookup b

theorem tokenOf_self (t : CommandToken) : tokenOf ((b, t) :: blocks) b = some t := by
  simp [tokenOf]

theorem tokenOf_of_ne (t : CommandToken) (h : c ≠ b) :
    tokenOf ((b, t) :: blocks) c = tokenOf blocks c := by
  have hne : (c == b) = false := by simpa using h
  simp [tokenOf, List.lookup_cons, hne]

theorem tokenOf_eq_some (hnd : (blocks.map Prod.fst).Nodup) {t : CommandToken} :
    tokenOf blocks b = some t ↔ (b, t) ∈ blocks := by
  induction blocks with
  | nil => simp [tokenOf]
  | cons x blocks ih =>
      obtain ⟨c, u⟩ := x
      obtain ⟨hc, hnd⟩ := List.nodup_cons.mp hnd
      by_cases hbc : b = c
      · subst hbc
        have hnot : (b, t) ∉ blocks := fun h => hc (List.mem_map.mpr ⟨_, h, rfl⟩)
        simp [tokenOf_self, hnot, eq_comm]
      · simp [tokenOf_of_ne u hbc, ih hnd, hbc]

theorem tokenOf_perm (hnd : (blocks.map Prod.fst).Nodup) (h : blocks'.Perm blocks) :
    tokenOf blocks' = tokenOf blocks := by
  have hnd' : (blocks'.map Prod.fst).Nodup := (h.map _).nodup_iff.mpr hnd
  funext b
  ext t
  rw [tokenOf_eq_some hnd, tokenOf_eq_some hnd', h.mem_iff]

/-- What a pool looks like when the blocks that are to be given back are shown
free, each with its token. -/
def returned (p : MemoryBlockPool) (blocks : Returns) : List Cell :=
  p.showing (marking id [] (tokenOf blocks) p)

theorem returned_nil : p.returned [] = p.cells := by
  rw [cells_eq_showing]
  apply showing_congr
  intro b _
  simp [marking, freeToken, tokenOf]

/-- **Giving blocks back** leaves the normal form of what is shown free. -/
theorem Tidy.releaseAll_coalesce (h : p.Tidy A (blocks.map Prod.fst ++ rest)) :
    (p.releaseAll blocks).cells = coalesce Cell.joining (p.returned blocks) := by
  induction blocks generalizing p with
  | nil => rw [returned_nil, h.coalesce_cells, releaseAll, List.foldl_nil]
  | cons x blocks ih =>
      obtain ⟨b, t⟩ := x
      have hfree := h.coherent.accounted.not_free h.coherent.wellFormed List.mem_cons_self
      -- the block is shown with its token before and after it is given back
      have hshown : Function.update (marking id [] (tokenOf blocks) p) b (some t)
          = marking id [] (tokenOf ((b, t) :: blocks)) p := by
        funext c
        by_cases hcb : c = b
        · subst hcb
          rw [Function.update_self, marking_neg (by simpa using hfree), tokenOf_self]
        · rw [Function.update_of_ne hcb]
          simp only [marking, tokenOf_of_ne t hcb]
      calc ((p.release b t).releaseAll blocks).cells
          = coalesce Cell.joining ((p.release b t).returned blocks) := ih (h.release t)
        _ = coalesce Cell.joining (p.showing
              (Function.update (marking id [] (tokenOf blocks) p) b (some t))) :=
            release_coalesce .id h.coherent.wellFormed h.coherent.accounted
        _ = coalesce Cell.joining (p.returned ((b, t) :: blocks)) := by rw [hshown]; rfl

/-- **The order of the releases of `blocks` does not matter**, and the latest
token of what is merged is what is left. -/
structure OrderFree (p : MemoryBlockPool) (blocks : Returns) : Prop where
  same : ∀ blocks', blocks'.Perm blocks → (p.releaseAll blocks').cells = (p.releaseAll blocks).cells
  latest : ∃ groups : List (List Cell), groups.flatten = p.returned blocks ∧
    List.Forall₂ Absorbed groups (p.releaseAll blocks).cells

theorem Tidy.orderFree (h : p.Tidy A (blocks.map Prod.fst ++ rest)) : p.OrderFree blocks := by
  have hnd := h.coherent.accounted.nodup h.coherent.wellFormed
  constructor
  · intro blocks' hperm
    have h' : p.Tidy A (blocks'.map Prod.fst ++ rest) :=
      ⟨h.coherent.perm ((hperm.symm.map _).append_right rest), h.coalesced⟩
    have htoken := tokenOf_perm (List.nodup_append.mp hnd).1 hperm
    rw [h.releaseAll_coalesce, h'.releaseAll_coalesce, returned, returned, htoken]
  · rw [h.releaseAll_coalesce]
    exact coalesce_groups .one (fun _ _ _ h hjoins => h.join hjoins) _

end MemoryBlockPool

namespace Session

variable {cfg : Config} {env : Environment} {s : Session}

/-- **The order in which blocks that are handed out are released does not
matter**, whatever tokens they are released with. -/
theorem release_order (hrun : ReflTransGen (Step cfg env .any) Session.empty s)
    {blocks : Returns} (hnd : (blocks.map Prod.fst).Nodup)
    (hout : ∀ x ∈ blocks, x.1 ∈ s.out.map Prod.fst) : s.alloc.pool.OrderFree blocks := by
  have htidy := Sound.tidy hrun
  obtain ⟨others, hperm⟩ : ∃ others, (s.alloc.deferred.map Prod.fst ++ s.rest).Perm
      (blocks.map Prod.fst ++ others) := by
    have hsub : blocks.map Prod.fst ⊆ s.alloc.deferred.map Prod.fst ++ s.rest := by
      intro b hb
      obtain ⟨x, hx, rfl⟩ := List.mem_map.mp hb
      exact List.mem_append_right _ (List.mem_append_left _ (hout x hx))
    obtain ⟨l, hl, hsub⟩ := List.subperm_of_subset hnd hsub
    obtain ⟨others, hothers⟩ := hsub.exists_perm_append
    exact ⟨others, hothers.trans (hl.append_right others)⟩
  exact MemoryBlockPool.Tidy.orderFree ⟨htidy.coherent.perm hperm, htidy.coalesced⟩

/-- Of five kilobytes three are given back, two of them with tokens of one
timeline. Whether these go first or last, they are merged, under the later of
the tokens, and the third is not. -/
theorem release_order_kilobytes :
    (kilobytes 5).alloc.pool.OrderFree [(1, some seventh), (2, some ninth), (3, some foreign)] ∧
    ((kilobytes 5).alloc.pool.releaseAll
        [(3, some foreign), (2, some ninth), (1, some seventh)]).cells
      = ((kilobytes 5).alloc.pool.releaseAll
        [(1, some seventh), (2, some ninth), (3, some foreign)]).cells ∧
    ((kilobytes 5).alloc.pool.releaseAll
        [(1, some seventh), (2, some ninth), (3, some foreign)]).cells
      = [⟨0, 0, 2048, true, some ninth⟩, ⟨0, 2048, 1024, true, some foreign⟩,
        ⟨0, 3072, 1024, false, none⟩, ⟨0, 4096, 1024, false, none⟩,
        ⟨0, 5120, 2092032, true, none⟩] := by
  have hfree : (kilobytes 5).alloc.pool.OrderFree
      [(1, some seventh), (2, some ninth), (3, some foreign)] :=
    release_order (kilobytes_reached (by decide : 1000 < 2 ^ 64) 5) (by decide) (by decide)
  exact ⟨hfree, hfree.same _ (by decide), by decide⟩

end Session

end RexlibCuda
