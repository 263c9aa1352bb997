import Mathlib.Data.List.TakeWhile
import RexlibCuda.PoolInvariant

/-! The searches of `memory_block_pool` on a set of free blocks that is in
order: what a search finds fits, what it does not find is not there, and the
walks from timeline to timeline come to an end and meet every block. -/

namespace RexlibCuda

namespace MemoryBlockPool

open Sequence Completion

variable {A : Nat} {strict : Prop} {p : MemoryBlockPool} {b c : BlockId} {size fuel : Nat}
  {timeline : Option Timeline}

/-- The timeline of the token a block carries. -/
def timelineOf (p : MemoryBlockPool) (b : BlockId) : Option Timeline :=
  (p.block b).pending.getTimeline

theorem Sorted.pairwise (hs : p.Sorted) :
    p.freeBlocks.Pairwise fun b c => p.sortKey b ≤ p.sortKey c :=
  hs.imp fun h => not_isLess_iff.mp h

theorem sortKey_le {j : FreeKey} :
    p.sortKey b ≤ toLex j ↔ timelineAddress (p.timelineOf b) < j.1 ∨
      timelineAddress (p.timelineOf b) = j.1 ∧ (p.block b).size ≤ j.2 := by
  rw [sortKey, Prod.Lex.toLex_le_toLex]
  rfl

theorem le_sortKey {j : FreeKey} :
    toLex j ≤ p.sortKey b ↔ j.1 < timelineAddress (p.timelineOf b) ∨
      j.1 = timelineAddress (p.timelineOf b) ∧ j.2 ≤ (p.block b).size := by
  rw [sortKey, Prod.Lex.toLex_le_toLex]
  rfl

/-! ## Within one timeline -/

/-- The first block from a lower bound on is not less than its key. -/
theorem lowerBound_head {key : FreeKey} {l : List BlockId} (hl : p.lowerBound key = b :: l) :
    toLex key ≤ p.sortKey b := by
  have hhead := List.head?_dropWhile_not (fun b => isLess (p.getKey b) key) p.freeBlocks
  rw [lowerBound] at hl
  rw [hl] at hhead
  exact not_isLess_iff.mp (by simpa using hhead)

/-- What `find_in_timeline` finds is free, of the timeline and big enough. -/
theorem findInTimeline_some (h : p.findInTimeline size timeline = some b) :
    b ∈ p.freeBlocks ∧ p.timelineOf b = timeline ∧ size ≤ (p.block b).size := by
  unfold findInTimeline at h
  split at h
  · cases h
  · rename_i b' l hl
    split at h
    · rename_i ht
      cases h
      have hmem : b ∈ p.lowerBound (timelineAddress timeline, size) := by rw [hl]; simp
      refine ⟨(List.dropWhile_sublist _).subset hmem, ht, ?_⟩
      have hle := le_sortKey.mp (lowerBound_head hl)
      rw [timelineOf, ht] at hle
      omega
    · cases h

/-- Everything in front of a lower bound is less than its key. -/
theorem mem_lowerBound {key : FreeKey} (hb : b ∈ p.freeBlocks)
    (hkey : toLex key ≤ p.sortKey b) : b ∈ p.lowerBound key := by
  have hsplit := List.takeWhile_append_dropWhile
    (p := fun b => isLess (p.getKey b) key) (l := p.freeBlocks)
  rw [← hsplit] at hb
  rcases List.mem_append.mp hb with hb | hb
  · have hless : isLess (p.getKey b) key = true := by simpa using List.mem_takeWhile_imp hb
    exact absurd hkey (not_le.mpr (isLess_iff.mp hless))
  · exact hb

/-- What `find_in_timeline` does not find is not there. -/
theorem Sorted.findInTimeline_none (hs : p.Sorted)
    (h : p.findInTimeline size timeline = none) (hb : b ∈ p.freeBlocks)
    (ht : p.timelineOf b = timeline) : (p.block b).size < size := by
  by_contra hge
  have hmem : b ∈ p.lowerBound (timelineAddress timeline, size) := by
    refine mem_lowerBound hb (le_sortKey.mpr (.inr ⟨by rw [ht], ?_⟩))
    exact Nat.le_of_not_lt hge
  unfold findInTimeline at h
  split at h
  · rename_i hl
    rw [hl] at hmem
    cases hmem
  · rename_i first l hl
    split at h
    · cases h
    · rename_i hfirst
      -- the first block from the lower bound on is of the same timeline
      have hsub : (p.lowerBound (timelineAddress timeline, size)).Sublist p.freeBlocks :=
        List.dropWhile_sublist _
      rw [hl] at hmem hsub
      have hle : p.sortKey first ≤ p.sortKey b := by
        rcases List.mem_cons.mp hmem with rfl | hmem
        · exact le_refl _
        · exact (List.pairwise_cons.mp (hs.pairwise.sublist hsub)).1 b hmem
      have hlow := le_sortKey.mp (lowerBound_head hl)
      have hhigh := sortKey_le.mp hle
      have hb : (p.getKey b).1 = timelineAddress timeline := congrArg timelineAddress ht
      refine hfirst (timelineAddress_injective ?_)
      show timelineAddress (p.timelineOf first) = _
      omega

/-- **`find_in_timeline`** finds the first of the blocks of the timeline that are
big enough. -/
theorem Sorted.findInTimeline_eq (hs : p.Sorted) (size : Nat) (timeline : Option Timeline) :
    p.findInTimeline size timeline
      = (p.freeBlocks.filter fun b => p.timelineOf b = timeline ∧ size ≤ (p.block b).size).head? := by
  cases hfind : p.findInTimeline size timeline with
  | none =>
      symm
      rw [List.head?_eq_none_iff, List.filter_eq_nil_iff]
      intro b hb hfits
      obtain ⟨ht, hfits⟩ := of_decide_eq_true hfits
      exact Nat.not_le.mpr (hs.findInTimeline_none hfind hb ht) hfits
  | some b =>
      obtain ⟨-, htb, hfits⟩ := findInTimeline_some hfind
      unfold findInTimeline at hfind
      split at hfind
      · cases hfind
      · rename_i first l hl
        split at hfind
        · cases hfind
          -- what stands in front of the lower bound is too small
          have hfront : ((p.freeBlocks.takeWhile fun b =>
              isLess (p.getKey b) (timelineAddress timeline, size)).filter fun b =>
                p.timelineOf b = timeline ∧ size ≤ (p.block b).size) = [] := by
            rw [List.filter_eq_nil_iff]
            intro c hc hcfits
            obtain ⟨ht, hcfits⟩ := of_decide_eq_true hcfits
            have hless : isLess (p.getKey c) (timelineAddress timeline, size) = true := by
              simpa using List.mem_takeWhile_imp hc
            have hless := isLess_iff.mp hless
            exact absurd (le_sortKey.mpr (.inr ⟨by rw [ht], hcfits⟩)) (not_le.mpr hless)
          rw [lowerBound] at hl
          rw [← List.takeWhile_append_dropWhile (p := fun b =>
            isLess (p.getKey b) (timelineAddress timeline, size)) (l := p.freeBlocks),
            List.filter_append, hfront, List.nil_append, hl, List.filter_cons_of_pos]
          · rfl
          · exact decide_eq_true ⟨htb, hfits⟩
        · cases hfind

/-- The blocks of one timeline are in the order of their sizes. -/
theorem Sorted.sizes (hs : p.Sorted) {l : List BlockId} (hl : l.Sublist p.freeBlocks)
    (ht : ∀ b ∈ l, p.timelineOf b = timeline) :
    l.Pairwise fun b c => (p.block b).size ≤ (p.block c).size := by
  refine List.Pairwise.imp_of_mem ?_ (hs.pairwise.sublist hl)
  intro b c hb hc hle
  have hkey := sortKey_le.mp hle
  have hsame : (p.getKey c).1 = timelineAddress (p.timelineOf c) := rfl
  rw [ht b hb] at hkey
  rw [ht c hc] at hsame
  have hsize : (p.getKey c).2 = (p.block c).size := rfl
  omega

theorem findSuitableBlock_some (h : p.findSuitableBlock size timeline = some b) :
    b ∈ p.freeBlocks ∧ size ≤ (p.block b).size := by
  unfold findSuitableBlock at h
  split at h
  · rename_i hfind
    cases h
    exact ⟨(findInTimeline_some hfind).1, (findInTimeline_some hfind).2.2⟩
  · split at h
    · exact ⟨(findInTimeline_some h).1, (findInTimeline_some h).2.2⟩
    · cases h

/-- When nothing suits, every free block with an empty token is too small. -/
theorem Sorted.findSuitableBlock_none (hs : p.Sorted)
    (h : p.findSuitableBlock size timeline = none) (hb : b ∈ p.freeBlocks)
    (ht : (p.block b).pending = none) : (p.block b).size < size := by
  have htl : p.timelineOf b = none := by rw [timelineOf, ht]; rfl
  unfold findSuitableBlock at h
  split at h
  · cases h
  · rename_i hown
    split at h
    · exact hs.findInTimeline_none h hb htl
    · rename_i hnone
      cases timeline with
      | none => exact hs.findInTimeline_none hown hb htl
      | some t => exact absurd rfl hnone

/-! ## From timeline to timeline -/

/-- The free blocks of any other timeline that are big enough. -/
def foreign (p : MemoryBlockPool) (size : Nat) (timeline : Option Timeline) : List BlockId :=
  p.freeBlocks.filter fun b =>
    (p.block b).pending ≠ none ∧ p.timelineOf b ≠ timeline ∧ size ≤ (p.block b).size

/-- Whether a block would be one of those if it was free. -/
abbrev Foreign (p : MemoryBlockPool) (size : Nat) (timeline : Option Timeline) (b : BlockId) :
    Prop :=
  (p.block b).pending ≠ none ∧ p.timelineOf b ≠ timeline ∧ size ≤ (p.block b).size

theorem mem_foreign :
    b ∈ p.foreign size timeline ↔ b ∈ p.freeBlocks ∧ p.Foreign size timeline b := by
  simp [foreign]

section Walk

variable {pre rest l : List BlockId} (hs : p.Sorted)
  (hsize : ∀ b ∈ p.freeBlocks, (p.block b).size ≤ sizeMax)

/-- Whether a block stands in front of the upper bound of a timeline. -/
def upTo (p : MemoryBlockPool) (timeline : Option Timeline) (c : BlockId) : Bool :=
  !isLess (timelineAddress timeline, sizeMax) (p.getKey c)

theorem upTo_iff :
    p.upTo timeline c = true ↔ p.sortKey c ≤ toLex (timelineAddress timeline, sizeMax) := by
  rw [upTo, Bool.not_eq_true', not_isLess_iff]
  rfl

theorem WellFormed.size_le (hp : p.WellFormed A strict) (hb : b ∈ p.freeBlocks) :
    (p.block b).size ≤ sizeMax := by
  have hlt := (hp.inside (hp.freeSub b hb)).2.2
  rw [sizeMax]
  omega

include hs

/-- A block between the first of a timeline and its upper bound is of it. -/
theorem Sorted.timelineOf_eq (hl : p.freeBlocks = pre ++ b :: rest) (hc : c ∈ rest)
    (hup : p.upTo (p.timelineOf b) c = true) : p.timelineOf c = p.timelineOf b := by
  have hle : p.sortKey b ≤ p.sortKey c := by
    have hpair := hs.pairwise
    rw [hl] at hpair
    exact (List.pairwise_cons.mp (List.pairwise_append.mp hpair).2.1).1 c hc
  have hlow := le_sortKey.mp hle
  have hhigh := sortKey_le.mp (upTo_iff.mp hup)
  have hb : (p.getKey b).1 = timelineAddress (p.timelineOf b) := rfl
  apply timelineAddress_injective
  omega

include hsize

/-- The walk moves on past the block it stands at. -/
theorem Sorted.findNextTimeline_eq (hl : p.freeBlocks = pre ++ b :: rest) :
    p.findNextTimeline (p.timelineOf b) = rest.dropWhile (p.upTo (p.timelineOf b)) := by
  have hupto : ∀ c ∈ pre ++ [b], p.upTo (p.timelineOf b) c = true := by
    intro c hc
    have hb : p.sortKey b ≤ toLex (timelineAddress (p.timelineOf b), sizeMax) :=
      sortKey_le.mpr (.inr ⟨rfl, hsize b (by simp [hl])⟩)
    refine upTo_iff.mpr (le_trans ?_ hb)
    rcases List.mem_append.mp hc with hc | hc
    · have hpair := hs.pairwise
      rw [hl] at hpair
      exact (List.pairwise_append.mp hpair).2.2 c hc b List.mem_cons_self
    · rw [List.mem_singleton.mp hc]
  show p.freeBlocks.dropWhile (p.upTo (p.timelineOf b)) = _
  rw [hl, List.append_cons, List.dropWhile_append_of_pos hupto]

/-- The next stop of the walk is further on in the set. -/
theorem Sorted.next_suffix (hl : p.freeBlocks = pre ++ b :: rest) :
    ∃ pre', p.freeBlocks = pre' ++ p.findNextTimeline (p.timelineOf b)
      ∧ (p.findNextTimeline (p.timelineOf b)).length ≤ rest.length := by
  rw [hs.findNextTimeline_eq hsize hl]
  refine ⟨pre ++ b :: rest.takeWhile (p.upTo (p.timelineOf b)), ?_, ?_⟩
  · rw [hl, List.append_assoc, List.cons_append, List.takeWhile_append_dropWhile]
  · exact (List.dropWhile_sublist _).length_le

omit hs hsize in
/-- `std::max_element` finds a block of the range, and none has a later token. -/
theorem latestOf_spec (cs : List BlockId) (b : BlockId) :
    p.latestOf b cs ∈ b :: cs ∧
      ∀ c ∈ b :: cs, (p.block c).pending.getId ≤ (p.block (p.latestOf b cs)).pending.getId := by
  induction cs generalizing b with
  | nil => simp [latestOf]
  | cons d cs ih =>
      rw [latestOf]
      split
      · rename_i hlt
        obtain ⟨hmem, hmax⟩ := ih d
        refine ⟨List.mem_cons_of_mem _ hmem, ?_⟩
        intro c hc
        rcases List.mem_cons.mp hc with rfl | hc
        · exact Nat.le_trans (Nat.le_of_lt hlt) (hmax d List.mem_cons_self)
        · exact hmax c hc
      · rename_i hge
        obtain ⟨hmem, hmax⟩ := ih b
        refine ⟨?_, ?_⟩
        · rcases List.mem_cons.mp hmem with h | h
          · rw [h]
            exact List.mem_cons_self
          · exact List.mem_cons_of_mem _ (List.mem_cons_of_mem _ h)
        · intro c hc
          rcases List.mem_cons.mp hc with rfl | hc
          · exact hmax c List.mem_cons_self
          · rcases List.mem_cons.mp hc with rfl | hc
            · exact Nat.le_trans (Nat.le_of_not_lt hge) (hmax b List.mem_cons_self)
            · exact hmax c (List.mem_cons_of_mem _ hc)

omit hs hsize in
/-- In a range of one timeline, waiting for the latest token is waiting for
each of them. -/
theorem latestOf_covers {cs : List BlockId} (hsame : ∀ c ∈ b :: cs, p.timelineOf c = p.timelineOf b)
    (hsome : (p.timelineOf b).isSome) :
    ∃ d, (p.block (p.latestOf b cs)).pending = some d ∧
      ∀ c ∈ b :: cs, ∀ e, (p.block c).pending = some e → Covers (some d) e := by
  obtain ⟨hlatest, hmax⟩ := latestOf_spec (p := p) cs b
  rw [← hsame _ hlatest] at hsome hsame
  simp only [timelineOf] at hsome hsame
  cases hpending : (p.block (p.latestOf b cs)).pending with
  | none => simp [hpending] at hsome
  | some d =>
      refine ⟨d, rfl, fun c hc e he => ?_⟩
      have htl := hsame c hc
      have hid := hmax c hc
      simp only [hpending, he] at htl hid
      exact ⟨d, rfl, by simpa using htl.symm, by simpa using hid⟩

/-- The blocks from one stop of the walk on are those of its timeline, and then
those from the next stop on. -/
theorem Sorted.group (hl : p.freeBlocks = pre ++ b :: rest) :
    ∃ group, rest.take (rest.length - (p.findNextTimeline (p.timelineOf b)).length) = group
      ∧ b :: rest = (b :: group) ++ p.findNextTimeline (p.timelineOf b)
      ∧ ∀ c ∈ b :: group, p.timelineOf c = p.timelineOf b := by
  rw [hs.findNextTimeline_eq hsize hl, take_sub_dropWhile]
  refine ⟨_, rfl, ?_, ?_⟩
  · rw [List.cons_append, List.takeWhile_append_dropWhile]
  · intro c hc
    rcases List.mem_cons.mp hc with rfl | hc
    · rfl
    · exact hs.timelineOf_eq hl ((List.takeWhile_sublist _).subset hc) (List.mem_takeWhile_imp hc)

/-- Behind the upper bound of a timeline there is none of its blocks. -/
theorem Sorted.next_apart (hc : c ∈ p.findNextTimeline timeline) (hfree : c ∈ p.freeBlocks) :
    p.timelineOf c ≠ timeline := by
  intro htl
  have hup : p.sortKey c ≤ toLex (timelineAddress timeline, sizeMax) :=
    sortKey_le.mpr (.inr ⟨by rw [htl], hsize c hfree⟩)
  have hsub : (p.findNextTimeline timeline).Sublist p.freeBlocks := List.dropWhile_sublist _
  have hpair := hs.pairwise.sublist hsub
  cases hnext : p.findNextTimeline timeline with
  | nil => simp [hnext] at hc
  | cons d ds =>
      -- the first of them stands behind the bound, and the others behind it
      have hd : ¬ p.upTo timeline d = true := by
        have hne : p.freeBlocks.dropWhile (p.upTo timeline) ≠ [] := by
          show p.findNextTimeline timeline ≠ []
          simp [hnext]
        have hhead := List.head_dropWhile_not (p.upTo timeline) hne
        have hfirst : (p.freeBlocks.dropWhile (p.upTo timeline)).head hne = d := by
          have : (p.findNextTimeline timeline).head? = some d := by rw [hnext]; rfl
          exact (List.head_eq_iff_head?_eq_some hne).mpr this
        rw [hfirst] at hhead
        simp [hhead]
      rw [hnext] at hc hpair
      rcases List.mem_cons.mp hc with rfl | hc
      · exact hd (upTo_iff.mpr hup)
      · exact hd (upTo_iff.mpr (le_trans ((List.pairwise_cons.mp hpair).1 c hc) hup))

/-- What `enumerate_pending` lists from one stop on: the latest token of each
timeline of the blocks from there on. -/
theorem Sorted.enumerateLoop_spec : ∀ (fuel : Nat) (pre l : List BlockId),
    p.freeBlocks = pre ++ l → l.length ≤ fuel → ∃ ts, p.enumerateLoop fuel l = some ts
      ∧ Latest (l.map fun b => (p.block b).pending) ts := by
  intro fuel
  induction fuel with
  | zero =>
      intro pre l hl hlen
      rw [List.eq_nil_of_length_eq_zero (Nat.le_zero.mp hlen)]
      exact ⟨[], rfl, .nil⟩
  | succ fuel ih =>
      intro pre l hl hlen
      cases l with
      | nil => exact ⟨[], rfl, .nil⟩
      | cons b rest =>
          obtain ⟨pre', hl', hlen'⟩ := hs.next_suffix hsize hl
          rw [List.length_cons] at hlen
          obtain ⟨ts, hts, hlatest⟩ := ih pre' _ hl' (by omega)
          obtain ⟨group, hgroup, hsplit, hsame⟩ := hs.group hsize hl
          have hlisted : (b :: rest).map (fun b => (p.block b).pending)
              = (b :: group).map (fun b => (p.block b).pending)
                ++ (p.findNextTimeline (p.timelineOf b)).map fun b => (p.block b).pending := by
            rw [hsplit, List.map_append]
          rw [hlisted]
          simp only [timelineOf] at hts hgroup
          simp only [enumerateLoop, hts, hgroup]
          split
          · -- the latest token of the group speaks for the group
            rename_i hsome
            obtain ⟨d, hd, hcovers⟩ := latestOf_covers hsame hsome
            have hmem := (latestOf_spec (p := p) group b).1
            rw [hd]
            refine ⟨_, rfl, hlatest.cons (List.mem_map.mpr ⟨_, hmem, hd⟩) ?_ ?_⟩
            · intro e he
              obtain ⟨c, hc, hpending⟩ := List.mem_map.mp he
              exact hcovers c hc e hpending
            · -- nothing behind the group is of its timeline
              intro e he htl
              obtain ⟨c, hc, hpending⟩ := List.mem_map.mp he
              have hfree : c ∈ p.freeBlocks := by
                rw [hl, hsplit]
                simp [hc]
              apply hs.next_apart hsize hc hfree
              rw [← hsame _ hmem, timelineOf, timelineOf, hpending, hd]
              exact congrArg some htl
          · -- the blocks of the group carry empty tokens
            rename_i hnone
            refine ⟨ts, rfl, hlatest.without fun e he => ?_⟩
            obtain ⟨c, hc, hpending⟩ := List.mem_map.mp he
            have htl : (p.block c).pending.getTimeline = (p.block b).pending.getTimeline :=
              hsame c hc
            rw [hpending] at htl
            exact hnone (congrArg Option.isSome htl.symm)

/-- **`enumerate_pending` speaks for every free block**: it comes to an end, and
lists the latest token of each timeline of the free blocks. -/
theorem Sorted.pendingTokens_latest : ∃ ts, p.pendingTokens = some ts
    ∧ Latest (p.freeBlocks.map fun b => (p.block b).pending) ts :=
  hs.enumerateLoop_spec hsize _ [] _ rfl (Nat.le_refl _)

/-- A round of `find_foreign_block` takes in the group of a timeline, of which
it looks at the first block that is big enough. -/
theorem Sorted.foreign_group {group : List BlockId}
    (hl : p.freeBlocks = pre ++ ((b :: group) ++ p.findNextTimeline (p.timelineOf b)))
    (hsame : ∀ c ∈ b :: group, p.timelineOf c = p.timelineOf b)
    (hpre : ∀ c ∈ pre, p.timelineOf c ≠ p.timelineOf b)
    (hforeign : p.timelineOf b ≠ timeline ∧ (p.timelineOf b).isSome) :
    p.findInTimeline size (p.timelineOf b)
      = ((b :: group).filter fun c => p.Foreign size timeline c).head? := by
  have hgroup : ((b :: group).filter fun c => p.Foreign size timeline c)
      = (b :: group).filter fun c => p.timelineOf c = p.timelineOf b ∧ size ≤ (p.block c).size := by
    apply List.filter_congr
    intro c hc
    have ht := hsame c hc
    have hsome : (p.block c).pending ≠ none := by
      intro hnone
      rw [← ht, timelineOf, hnone] at hforeign
      exact absurd hforeign.2 (by simp)
    simp [Foreign, ht, hsome, hforeign.1]
  have hout : ∀ l : List BlockId, (∀ c ∈ l, p.timelineOf c ≠ p.timelineOf b) →
      (l.filter fun c => p.timelineOf c = p.timelineOf b ∧ size ≤ (p.block c).size) = [] := by
    intro l hl
    rw [List.filter_eq_nil_iff]
    intro c hc hfits
    exact hl c hc (of_decide_eq_true hfits).1
  rw [hs.findInTimeline_eq, hl, List.filter_append, List.filter_append, hout pre hpre, hgroup,
    hout (p.findNextTimeline (p.timelineOf b)), List.nil_append, List.append_nil]
  intro c hc
  exact hs.next_apart hsize hc (by rw [hl]; simp [hc])

omit hs hsize in
/-- The group of the timeline itself has none of those blocks, nor has the one
without tokens. -/
theorem foreign_group_none {group : List BlockId}
    (hsame : ∀ c ∈ b :: group, p.timelineOf c = p.timelineOf b)
    (hnot : ¬ (p.timelineOf b ≠ timeline ∧ (p.timelineOf b).isSome)) :
    ((b :: group).filter fun c => p.Foreign size timeline c) = [] := by
  rw [List.filter_eq_nil_iff]
  intro c hc hforeign
  obtain ⟨hpending, ht, -⟩ := of_decide_eq_true hforeign
  rw [hsame c hc] at ht
  refine hnot ⟨ht, ?_⟩
  rw [← hsame c hc, Option.isSome_iff_ne_none]
  exact fun hnull => hpending (CommandToken.getTimeline_eq_none.mp hnull)

/-- **The walk of `find_foreign_block`** comes to an end. What it has found in
front of a stop is the first of the smallest blocks there. -/
theorem Sorted.findForeignLoop_eq : ∀ (fuel : Nat) (pre l : List BlockId),
    p.freeBlocks = pre ++ l → l.length ≤ fuel →
    (∀ c ∈ pre, ∀ d ∈ l, p.timelineOf c ≠ p.timelineOf d) →
    p.findForeignLoop size timeline fuel l
        ((pre.filter fun c => p.Foreign size timeline c).argmin fun c => (p.block c).size)
      = some ((p.foreign size timeline).argmin fun c => (p.block c).size) := by
  intro fuel
  induction fuel with
  | zero =>
      intro pre l hl hlen _
      obtain rfl := List.eq_nil_of_length_eq_zero (Nat.le_zero.mp hlen)
      rw [foreign, hl, List.append_nil]
      rfl
  | succ fuel ih =>
      intro pre l hl hlen hapart
      cases l with
      | nil =>
          rw [foreign, hl, List.append_nil]
          rfl
      | cons b rest =>
          obtain ⟨group, -, hsplit, hsame⟩ := hs.group hsize hl
          have hl' : p.freeBlocks = pre ++ ((b :: group) ++ p.findNextTimeline (p.timelineOf b)) := by
            rw [hl, hsplit]
          obtain ⟨-, -, hlen'⟩ := hs.next_suffix hsize hl
          have hrest := ih (pre ++ b :: group) (p.findNextTimeline (p.timelineOf b))
            (by rw [hl', List.append_assoc]) (by simp at hlen; omega) ?_
          · rw [← hrest, List.filter_append]
            simp only [findForeignLoop]
            congr 1
            split
            · rename_i hforeign
              have hpre : ∀ c ∈ pre, p.timelineOf c ≠ p.timelineOf b := fun c hc =>
                hapart c hc b List.mem_cons_self
              have hsub : ((b :: group).filter fun c => p.Foreign size timeline c).Sublist
                  p.freeBlocks := by
                rw [hl']
                refine List.filter_sublist.trans (.trans ?_ (List.sublist_append_right _ _))
                exact List.sublist_append_left _ _
              rw [argmin_append_sorted _ (hs.sizes hsub fun c hc =>
                hsame c (List.mem_of_mem_filter hc)),
                ← hs.foreign_group hsize hl' hsame hpre hforeign]
              simp only [timelineOf]
              cases p.findInTimeline size (p.block b).pending.getTimeline with
              | none => rfl
              | some candidate =>
                  cases (pre.filter fun c => p.Foreign size timeline c).argmin
                    fun c => (p.block c).size <;> rfl
            · rename_i hnot
              rw [foreign_group_none hsame hnot, List.append_nil]
          · intro c hc d hd
            have hd' : d ∈ b :: rest := by
              rw [hsplit]
              exact List.mem_append_right _ hd
            rcases List.mem_append.mp hc with hc | hc
            · exact hapart c hc d hd'
            · rw [hsame c hc]
              exact Ne.symm (hs.next_apart hsize hd (by rw [hl]; exact List.mem_append_right _ hd'))

/-- **`find_foreign_block`** finds the first of the smallest blocks of other
timelines that are big enough, if there are any. -/
theorem Sorted.findForeignBlock_eq (size : Nat) (timeline : Option Timeline) :
    p.findForeignBlock size timeline
      = some ((p.foreign size timeline).argmin fun c => (p.block c).size) :=
  hs.findForeignLoop_eq hsize p.freeBlocks.length [] p.freeBlocks rfl (Nat.le_refl _) (by simp)

end Walk

end MemoryBlockPool

end RexlibCuda
