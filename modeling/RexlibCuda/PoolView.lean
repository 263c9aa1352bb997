import RexlibCuda.Lib.Coalesce
import RexlibCuda.PoolReset

/-! A pool as it looks from outside: what each block spans, whether it is free
and which token it carries, in address order. A merge of the pool is one join
of this sequence, so that a pool in which nothing is left to merge looks like
the normal form of whatever it was merged from. -/

namespace RexlibCuda

open Coalesce Sequence

/-- What a block looks like. -/
structure Cell where
  heap : HeapId
  offset : Nat
  size : Nat
  free : Bool
  token : CommandToken
deriving DecidableEq

namespace MemoryBlockPool

open Relation (ReflTransGen)

variable {A : Nat} {strict : Prop} {B rest : List BlockId} {p q : MemoryBlockPool}
  {b c n : BlockId} {offset : Nat} {t t' t'' : CommandToken}

/-- The later token of a timeline is the one with the greater id. -/
theorem laterPending_some {d d' : Command} :
    laterPending (some d) (some d') = if d.id < d'.id then some d' else some d := by
  by_cases hlt : d.id < d'.id <;> simp [laterPending, CommandToken.isEmpty, hlt]

theorem laterPending_none : laterPending t none = t := rfl

/-- Which of two tokens of a timeline is asked first does not matter. -/
theorem laterPending_comm (h : t'.getTimeline = t.getTimeline) :
    laterPending t t' = laterPending t' t := by
  cases t with
  | none =>
      rw [CommandToken.getTimeline_eq_none.mp h]
  | some d =>
      cases t' with
      | none => cases h
      | some d' =>
          have htl : d'.timeline = d.timeline := Option.some.inj h
          rw [laterPending_some, laterPending_some]
          rcases Nat.lt_trichotomy d.id d'.id with hlt | heq | hlt
          · rw [if_pos hlt, if_neg (Nat.lt_asymm hlt)]
          · -- two tokens of a timeline with one id are the same
            obtain ⟨timeline, id⟩ := d
            obtain ⟨timeline', id'⟩ := d'
            cases htl
            cases heq
            rfl
          · rw [if_neg (Nat.lt_asymm hlt), if_pos hlt]

theorem laterPending_assoc (h : t'.getTimeline = t.getTimeline)
    (h' : t''.getTimeline = t'.getTimeline) :
    laterPending (laterPending t t') t'' = laterPending t (laterPending t' t'') := by
  cases t with
  | none =>
      obtain rfl := CommandToken.getTimeline_eq_none.mp h
      obtain rfl := CommandToken.getTimeline_eq_none.mp h'
      rfl
  | some d =>
      cases t' with
      | none => cases h
      | some d' =>
          cases t'' with
          | none => cases h'
          | some d'' =>
              by_cases hd : d.id < d'.id <;> by_cases hd' : d'.id < d''.id <;>
                simp only [laterPending_some, hd, hd', if_true, if_false]
              · exact (if_pos (Nat.lt_trans hd hd')).symm
              · exact if_neg fun hlt => hd' (by omega)

end MemoryBlockPool

/-- Free neighbours of a heap whose tokens are of one timeline can be merged. -/
def Cell.joining : Joining Cell where
  joins a b := a.free = true ∧ b.free = true ∧ b.heap = a.heap ∧
    b.token.getTimeline = a.token.getTimeline
  decidable _ _ := inferInstance
  join a b := { a with
    size := a.size + b.size
    token := MemoryBlockPool.laterPending a.token b.token }
  joins_left := by
    rintro a b c ⟨ha, hb, hheap, ht⟩
    simp only [MemoryBlockPool.laterPending_timeline ht, ha, hb, hheap, ht]
  joins_right := by
    rintro a b c ⟨hb, hc, hheap, ht⟩
    simp only [MemoryBlockPool.laterPending_timeline ht, hb]
  assoc := by
    rintro a b c ⟨-, -, -, ht⟩ ⟨-, -, -, ht'⟩
    simp only [MemoryBlockPool.laterPending_assoc ht ht', Nat.add_assoc]

namespace MemoryBlockPool

open Relation (ReflTransGen)

variable {A : Nat} {strict : Prop} {B rest : List BlockId} {p q : MemoryBlockPool}
  {b c n : BlockId} {offset : Nat} {t t' : CommandToken}

/-! ## The sequence of cells -/

/-- What a block looks like when `shown` says whether it is free, and with
which token. -/
def cellAs (p : MemoryBlockPool) (shown : BlockId → Option CommandToken) (b : BlockId) : Cell where
  heap := (p.block b).heap
  offset := (p.block b).offset
  size := (p.block b).size
  free := (shown b).isSome
  token := (shown b).getD (p.block b).pending

/-- The blocks in address order, where `shown` says which of them are free. -/
def showing (p : MemoryBlockPool) (shown : BlockId → Option CommandToken) : List Cell :=
  p.blocks.map (p.cellAs shown)

/-- The token of a block that is free. -/
def freeToken (p : MemoryBlockPool) (b : BlockId) : Option CommandToken :=
  if b ∈ p.freeBlocks then some (p.block b).pending else none

/-- **What a pool looks like**: the heap, the offset, the size, whether it is
free and the token of each block, in address order. -/
def cells (p : MemoryBlockPool) : List Cell :=
  p.blocks.map fun b =>
    ⟨(p.block b).heap, (p.block b).offset, (p.block b).size, p.isFree b, (p.block b).pending⟩

theorem cells_eq_showing : p.cells = p.showing p.freeToken := by
  refine List.map_congr_left fun b _ => ?_
  unfold cellAs freeToken isFree
  by_cases hb : b ∈ p.freeBlocks <;> simp [hb]

theorem showing_congr {shown shown' : BlockId → Option CommandToken}
    (h : ∀ b ∈ p.blocks, shown' b = shown b) : p.showing shown' = p.showing shown := by
  refine List.map_congr_left fun b hb => ?_
  simp only [cellAs, h b hb]

/-- What is shown of some blocks does not depend on the records of others. -/
theorem map_cellAs_congr {shown shown' : BlockId → Option CommandToken} {l : List BlockId}
    (hblock : ∀ c ∈ l, q.block c = p.block c) (hshown : ∀ c ∈ l, shown' c = shown c) :
    l.map (q.cellAs shown') = l.map (p.cellAs shown) := by
  refine List.map_congr_left fun c hc => ?_
  simp only [cellAs, hblock c hc, hshown c hc]

/-- A block that takes over its neighbour stands where the two stood, and the
others stand around it as before. -/
theorem absorb_sides (offset : Nat) (hp : p.WellFormed A strict) {x y : BlockId} {l r : List BlockId}
    (hl : p.blocks = l ++ x :: y :: r) (hxy : x = b ∧ y = n ∨ x = n ∧ y = b) :
    (p.absorb b n offset).blocks = l ++ b :: r ∧
      ∀ c ∈ l ++ r, c ∈ p.blocks ∧ c ≠ b ∧ c ≠ n := by
  have hnd := hp.nodup
  rw [hl] at hnd
  simp only [List.nodup_append, List.nodup_cons, List.mem_cons, not_or] at hnd
  obtain ⟨-, ⟨⟨hxy', hxr⟩, hyr, -⟩, hdisj⟩ := hnd
  have hsides : ∀ c ∈ l ++ r, c ∈ p.blocks ∧ c ≠ x ∧ c ≠ y := by
    intro c hc
    rcases List.mem_append.mp hc with hc | hc
    · exact ⟨by simp [hl, hc], hdisj c hc x (.inl rfl), hdisj c hc y (.inr (.inl rfl))⟩
    · exact ⟨by simp [hl, hc], fun h => hxr (h ▸ hc), fun h => hyr (h ▸ hc)⟩
  have hxl : x ∉ l := fun h => hdisj x h x (.inl rfl) rfl
  have hyl : y ∉ l := fun h => hdisj y h y (.inr (.inl rfl)) rfl
  rcases hxy with ⟨rfl, rfl⟩ | ⟨rfl, rfl⟩
  · refine ⟨?_, hsides⟩
    show p.blocks.erase y = _
    rw [hl, List.append_cons, erase_middle (by simp [hyl, Ne.symm hxy']), List.append_assoc]
    rfl
  · refine ⟨?_, fun c hc => ⟨(hsides c hc).1, (hsides c hc).2.2, (hsides c hc).2.1⟩⟩
    show p.blocks.erase x = _
    rw [hl, erase_middle hxl]

/-- **A merge is a join**: a block that takes over its neighbour changes what
the pool looks like by one join of what is shown free. -/
theorem coalesce_showing_absorb (hp : p.WellFormed A strict) (hadj : p.Adjacent b n offset)
    {shown shown' : BlockId → Option CommandToken} (hb : shown b = some t)
    (hn : shown n = some t') (ht : t'.getTimeline = t.getTimeline)
    (hb' : shown' b = some (laterPending t t'))
    (hother : ∀ c ∈ p.blocks, c ≠ b → c ≠ n → shown' c = shown c) :
    coalesce Cell.joining ((p.absorb b n offset).showing shown')
      = coalesce Cell.joining (p.showing shown) := by
  -- it is enough to see the two cells joined between the same others
  have hjoined : ∀ {x y : BlockId} {l r : List BlockId}, p.blocks = l ++ x :: y :: r →
      x = b ∧ y = n ∨ x = n ∧ y = b →
      Cell.joining.joins (p.cellAs shown x) (p.cellAs shown y) →
      (p.absorb b n offset).cellAs shown' b
        = Cell.joining.join (p.cellAs shown x) (p.cellAs shown y) →
      coalesce Cell.joining ((p.absorb b n offset).showing shown')
        = coalesce Cell.joining (p.showing shown) := by
    intro x y l r hl hxy hjoins hcell
    obtain ⟨hblocks, hsides⟩ := absorb_sides offset hp hl hxy
    have hside : ∀ m : List BlockId, (∀ c ∈ m, c ∈ l ++ r) →
        m.map ((p.absorb b n offset).cellAs shown') = m.map (p.cellAs shown) := by
      intro m hm
      apply map_cellAs_congr
      · exact fun c hc => block_absorb_of_ne (hsides c (hm c hc)).2.1
      · intro c hc
        obtain ⟨hcb, hne, hne'⟩ := hsides c (hm c hc)
        exact hother c hcb hne hne'
    rw [showing, hblocks, List.map_append, List.map_cons,
      hside l fun c => List.mem_append_left r, hside r fun c => List.mem_append_right l, hcell,
      coalesce_join hjoins, showing, hl, List.map_append, List.map_cons, List.map_cons]
  have hself := block_absorb hp hadj
  obtain ⟨hheap, l, r, ⟨hl, rfl⟩ | ⟨hl, rfl⟩⟩ := hadj
  · -- the neighbour comes after the block
    apply hjoined hl (.inl ⟨rfl, rfl⟩)
    · simp only [Cell.joining, cellAs, hb, hn, Option.isSome_some, Option.getD_some]
      exact ⟨trivial, trivial, hheap, ht⟩
    · simp only [Cell.joining, cellAs, hself, hb, hn, hb', Option.isSome_some,
        Option.getD_some]
  · -- the neighbour comes before the block
    apply hjoined hl (.inr ⟨rfl, rfl⟩)
    · simp only [Cell.joining, cellAs, hb, hn, Option.isSome_some, Option.getD_some]
      exact ⟨trivial, trivial, hheap.symm, ht.symm⟩
    · simp only [Cell.joining, cellAs, hself, hb, hn, hb', hheap, Option.isSome_some,
        Option.getD_some, laterPending_comm ht, Nat.add_comm]

/-! ## What merges leave of the sequence -/

/-- What is shown in place of a token keeps timelines together, and the later
token of two. -/
structure Shows (f : CommandToken → CommandToken) : Prop where
  timeline : ∀ {t t' : CommandToken}, t'.getTimeline = t.getTimeline →
    (f t').getTimeline = (f t).getTimeline
  later : ∀ {t t' : CommandToken}, t'.getTimeline = t.getTimeline →
    f (laterPending t t') = laterPending (f t) (f t')

theorem Shows.id : Shows id := ⟨fun h => h, fun _ => rfl⟩

/-- No token is shown. -/
theorem Shows.none : Shows fun _ => none := ⟨fun _ => rfl, fun _ => rfl⟩

/-- Blocks in hand are shown free, next to those that are, and so are those of
`extra`. -/
def marking (f : CommandToken → CommandToken) (B : List BlockId)
    (extra : BlockId → Option CommandToken) (p : MemoryBlockPool) (b : BlockId) :
    Option CommandToken :=
  if b ∈ B ∨ b ∈ p.freeBlocks then some (f (p.block b).pending) else extra b

variable {f : CommandToken → CommandToken} {extra : BlockId → Option CommandToken}

theorem marking_pos (h : b ∈ B ∨ b ∈ p.freeBlocks) :
    marking f B extra p b = some (f (p.block b).pending) := if_pos h

theorem marking_neg (h : ¬ (b ∈ B ∨ b ∈ p.freeBlocks)) : marking f B extra p b = extra b :=
  if_neg h

/-- What is shown of a block depends on its record, and on whether it is free. -/
theorem marking_congr {B' : List BlockId} (hblock : q.block c = p.block c)
    (hfree : c ∈ B' ∨ c ∈ q.freeBlocks ↔ c ∈ B ∨ c ∈ p.freeBlocks) :
    marking f B' extra q c = marking f B extra p c := by
  simp only [marking, hblock, hfree]

theorem Merge.coalesce (hf : Shows f) (hp : p.WellFormed A strict) (h : Merge B p q) :
    coalesce Cell.joining (q.showing (marking f B extra q))
      = coalesce Cell.joining (p.showing (marking f B extra p)) := by
  obtain ⟨b, hb, n, hn, offset, hadj, ht, rfl⟩ := h
  have hself := block_absorb hp hadj
  apply coalesce_showing_absorb hp hadj (marking_pos (.inl hb)) (marking_pos (.inr hn))
    (hf.timeline ht)
  · rw [marking_pos (.inl hb), hself, hf.later ht]
  · intro c _ hcb hcn
    apply marking_congr (block_absorb_of_ne hcb)
    show c ∈ B ∨ c ∈ p.freeBlocks.erase n ↔ _
    rw [List.mem_erase_of_ne hcn]

/-- **Merges leave the normal form of what is shown as it is.** -/
theorem merges_coalesce (hf : Shows f) (hp : p.WellFormed A strict)
    (h : ReflTransGen (Merge B) p q) :
    coalesce Cell.joining (q.showing (marking f B extra q))
      = coalesce Cell.joining (p.showing (marking f B extra p)) := by
  induction h with
  | refl => rfl
  | tail hrun hstep ih => exact (Merge.coalesce hf (hp.merges hrun) hstep).trans ih

/-- What is shown of a block as free does not show the token it has. -/
theorem showing_setPending {shown : BlockId → Option CommandToken} (hb : (shown b).isSome) :
    (p.setPending b t).showing shown = p.showing shown := by
  apply List.map_congr_left
  intro c _
  simp only [cellAs, setPending_heap, setPending_offset, setPending_size]
  by_cases hcb : c = b
  · subst hcb
    obtain ⟨t', ht'⟩ := Option.isSome_iff_exists.mp hb
    simp only [ht', Option.getD_some]
  · rw [setPending_of_ne hcb]

/-- **Giving a block back** shows it free, with the token it comes with. -/
theorem release_coalesce (hf : Shows f) (hp : p.WellFormed A strict)
    (ha : p.Accounted (b :: rest)) :
    coalesce Cell.joining ((p.release b t).showing (marking f [] extra (p.release b t)))
      = coalesce Cell.joining
          (p.showing (Function.update (marking f [] extra p) b (some (f t)))) := by
  have hm := considerMergingBlock_merges (p := p.setPending b t) ha
  have hp' : (p.setPending b t).WellFormed A strict := hp.setPending
  have hafter : (p.release b t).showing (marking f [] extra (p.release b t))
      = ((p.setPending b t).considerMergingBlock b).showing
          (marking f [b] extra ((p.setPending b t).considerMergingBlock b)) := by
    apply List.map_congr_left
    intro c _
    have hmark : marking f [] extra (p.release b t) c
        = marking f [b] extra ((p.setPending b t).considerMergingBlock b) c := by
      refine marking_congr (q := p.release b t) rfl ?_
      rw [release, mem_insertFree]
      simp
    show cellAs _ (marking f [] extra (p.release b t)) c = _
    simp only [cellAs, hmark]
    rfl
  have hbefore : ∀ c, marking f [b] extra (p.setPending b t) c
      = Function.update (marking f [] extra p) b (some (f t)) c := by
    intro c
    by_cases hcb : c = b
    · subst hcb
      rw [marking_pos (.inl List.mem_cons_self), setPending_pending, Function.update_self]
    · rw [Function.update_of_ne hcb]
      apply marking_congr (setPending_of_ne hcb)
      show c ∈ [b] ∨ c ∈ p.freeBlocks ↔ _
      simp [hcb]
  rw [hafter, merges_coalesce hf hp' hm, funext hbefore, showing_setPending]
  rw [Function.update_self]
  rfl

/-- **`reset_pending`** leaves the normal form of what the free blocks look
like without their tokens as it is. -/
theorem resetPending_coalesce (hp : p.WellFormed A strict) (ha : p.Accounted rest) :
    coalesce Cell.joining
        (p.resetPending.showing (marking (fun _ => none) [] extra p.resetPending))
      = coalesce Cell.joining (p.showing (marking (fun _ => none) [] extra p)) := by
  obtain ⟨hrun, -, -⟩ := mergeAll_spec hp
  have hwf := hp.unbind
  have ha' : p.unbind.mergeAll.Accounted rest := by
    refine Accounted.merges ?_ hrun
    have h : p.unbind.blocks.Perm (p.freeBlocks ++ rest) := by
      rw [unbind_blocks]
      exact ha
    exact h.trans (unbind_freeBlocks.symm.append_right rest)
  have hblocks : ∀ c ∈ p.unbind.mergeAll.blocks,
      (c ∈ p.freeBlocks ∨ c ∈ p.unbind.mergeAll.freeBlocks ↔ c ∈ p.unbind.mergeAll.freeBlocks) := by
    intro c hc
    refine ⟨fun h => ?_, .inr⟩
    -- a block that was free and is still there is one of the free blocks
    rcases List.mem_append.mp (ha'.mem_iff.mp hc) with hfree | hrest
    · exact hfree
    · exact h.elim (fun hf => absurd hf (ha.not_free hp hrest)) fun hf => hf
  have hafter : p.resetPending.showing (marking (fun _ => none) [] extra p.resetPending)
      = p.unbind.mergeAll.showing
          (marking (fun _ => none) p.freeBlocks extra p.unbind.mergeAll) := by
    apply List.map_congr_left
    intro c hc
    have hmark : marking (fun _ => none) [] extra p.resetPending c
        = marking (fun _ => none) p.freeBlocks extra p.unbind.mergeAll c := by
      refine marking_congr (q := p.resetPending) rfl ?_
      rw [hblocks c hc, resetPending, bindAgain_freeBlocks.mem_iff]
      simp
    show cellAs _ (marking (fun _ => none) [] extra p.resetPending) c = _
    simp only [cellAs, hmark]
    rfl
  have hbefore : p.unbind.showing (marking (fun _ => none) p.freeBlocks extra p.unbind)
      = p.showing (marking (fun _ => none) [] extra p) := by
    show p.unbind.blocks.map _ = p.blocks.map _
    rw [unbind_blocks]
    apply List.map_congr_left
    intro c _
    have hfree : c ∈ p.unbind.freeBlocks ↔ c ∈ p.freeBlocks := unbind_freeBlocks.mem_iff
    simp only [cellAs, marking, unbind_block, hfree, or_self, List.not_mem_nil, false_or]
    split <;> rfl
  rw [hafter, merges_coalesce Shows.none hwf hrun, hbefore]

end MemoryBlockPool

end RexlibCuda
