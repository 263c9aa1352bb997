import RexlibCuda.BlockChoice
import RexlibCuda.DeferredRelease
import RexlibCuda.OutOfMemory

/-! Allocating a block from free memory and giving it straight back: the split
is undone and nothing else is merged, since nothing was left to merge before. -/

namespace RexlibCuda

open Coalesce Completion Prog

open Relation (ReflTransGen)

namespace MemoryBlockPool

variable {A r : Nat} {rest rest' : List BlockId} {p : MemoryBlockPool} {c d : BlockId}

theorem laterPending_self (t : CommandToken) : laterPending t t = t := by
  cases t with
  | none => rfl
  | some d => simp [laterPending_some]

/-- Two free halves with one token are joined to what was cut. -/
theorem halves_join (heap : HeapId) (offset first second : Nat) (t : CommandToken) :
    Cell.joining.joins ⟨heap, offset, first, true, t⟩ ⟨heap, offset + first, second, true, t⟩ ∧
      Cell.joining.join ⟨heap, offset, first, true, t⟩ ⟨heap, offset + first, second, true, t⟩
        = ⟨heap, offset, first + second, true, t⟩ :=
  ⟨⟨rfl, rfl, rfl, rfl⟩, by simp [Cell.joining, laterPending_self]⟩

/-- The others are shown as before while the block that was handed out is shown
free. -/
theorem handOut_cellAs (hp : p.WellFormed A False) (hc : c ∈ p.freeBlocks) (hd : d ∈ p.blocks)
    (hdc : d ≠ c) (t : CommandToken) :
    (p.handOut r c).2.cellAs
        (marking id [] (tokenOf [((p.handOut r c).1, t)]) (p.handOut r c).2) d
      = p.cellAs p.freeToken d := by
  have hne : d ≠ (p.handOut r c).1 := by
    by_cases hsize : (p.block c).size = r
    · rw [handOut_whole hsize]
      exact hdc
    · rw [handOut_cut hsize]
      exact hp.nextBlock_ne hd
  have hblock := (handOut_of_ne (r := r) hp hc hd hdc).2
  have hfree : d ∈ (p.handOut r c).2.freeBlocks ↔ d ∈ p.freeBlocks :=
    (handOut_free hp hc).trans (and_iff_left hne)
  have hnone : tokenOf [((p.handOut r c).1, t)] d = none := by
    rw [tokenOf_of_ne t hne]
    rfl
  simp only [cellAs, marking, freeToken, hblock, hfree, hnone, List.not_mem_nil, false_or, id_eq]

/-- What is handed out is shown free with its token. -/
theorem handOut_cellAs_self (hp : p.WellFormed A False) (hc : c ∈ p.freeBlocks)
    (t : CommandToken) :
    (p.handOut r c).2.cellAs
        (marking id [] (tokenOf [((p.handOut r c).1, t)]) (p.handOut r c).2) (p.handOut r c).1
      = ⟨(p.block c).heap, (p.block c).offset, r, true, t⟩ := by
  have hnot : (p.handOut r c).1 ∉ (p.handOut r c).2.freeBlocks := fun h =>
    ((handOut_free hp hc).mp h).2 rfl
  have hmark : marking id [] (tokenOf [((p.handOut r c).1, t)]) (p.handOut r c).2
      (p.handOut r c).1 = some t := by
    rw [marking_neg (by simpa using hnot), tokenOf_self]
  simp [cellAs, hmark, handOut_record]

theorem cellAs_free (hc : c ∈ p.freeBlocks) : p.cellAs p.freeToken c
    = ⟨(p.block c).heap, (p.block c).offset, (p.block c).size, true, (p.block c).pending⟩ := by
  simp [cellAs, freeToken, hc]

/-- Where nothing was cut off, the pool is shown as it was. -/
theorem returned_handOut_whole (hp : p.WellFormed A False) (hc : c ∈ p.freeBlocks)
    (hsize : (p.block c).size = r) :
    (p.handOut r c).2.returned [((p.handOut r c).1, (p.block c).pending)] = p.cells := by
  have hout := handOut_whole hsize
  have hblocks : (p.handOut r c).2.blocks = p.blocks := by rw [hout]; rfl
  have hone : (p.handOut r c).1 = c := by rw [hout]
  rw [cells_eq_showing]
  show (p.handOut r c).2.blocks.map _ = p.blocks.map _
  rw [hblocks]
  apply List.map_congr_left
  intro d hd
  by_cases hdc : d = c
  · have hself := handOut_cellAs_self (r := r) hp hc (p.block c).pending
    rw [hone] at hself ⊢
    rw [hdc, hself, cellAs_free hc, hsize]
  · exact handOut_cellAs hp hc hd hdc _

/-- Otherwise its two halves are shown free, and join to what was there. -/
theorem returned_handOut_cut (hp : p.WellFormed A False) (hc : c ∈ p.freeBlocks)
    (hle : r ≤ (p.block c).size) (hsize : (p.block c).size ≠ r) :
    coalesce Cell.joining ((p.handOut r c).2.returned [((p.handOut r c).1, (p.block c).pending)])
      = coalesce Cell.joining p.cells := by
  obtain ⟨front, behind, hl, hl', hrest⟩ := handOut_rest hp hc hle hsize
  have hnd := hp.nodup
  rw [hl, List.nodup_append, List.nodup_cons] at hnd
  -- the blocks on either side are shown as before
  have hside : ∀ l : List BlockId, (∀ d ∈ l, d ∈ p.blocks ∧ d ≠ c) →
      l.map ((p.handOut r c).2.cellAs (marking id []
        (tokenOf [((p.handOut r c).1, (p.block c).pending)]) (p.handOut r c).2))
      = l.map (p.cellAs p.freeToken) := by
    intro l hl
    apply List.map_congr_left
    intro d hd
    exact handOut_cellAs hp hc (hl d hd).1 (hl d hd).2 _
  have hfront := hside front fun d hd =>
    ⟨by simp [hl, hd], hnd.2.2 d hd c List.mem_cons_self⟩
  have hbehind := hside behind fun d hd =>
    ⟨by simp [hl, hd], fun hdc => hnd.2.1.1 (hdc ▸ hd)⟩
  have hfirst := handOut_cellAs_self (r := r) hp hc (p.block c).pending
  have hleft : c ∈ (p.handOut r c).2.freeBlocks := by
    refine (handOut_free hp hc).mpr ⟨hc, ?_⟩
    rw [handOut_cut hsize]
    exact hp.nextBlock_ne (hp.freeSub c hc)
  have hsecond : (p.handOut r c).2.cellAs (marking id []
      (tokenOf [((p.handOut r c).1, (p.block c).pending)]) (p.handOut r c).2) c
      = ⟨(p.block c).heap, (p.block c).offset + r, (p.block c).size - r, true,
        (p.block c).pending⟩ := by
    simp [cellAs, marking, hleft, hrest]
  obtain ⟨hjoins, hjoin⟩ := halves_join (p.block c).heap (p.block c).offset r
    ((p.block c).size - r) (p.block c).pending
  rw [Nat.add_sub_cancel' hle, ← cellAs_free hc] at hjoin
  rw [returned, showing, hl', List.map_append, List.map_cons, List.map_cons, hfront, hbehind,
    hfirst, hsecond, ← coalesce_join hjoins, hjoin, ← List.map_cons, ← List.map_append, ← hl,
    cells_eq_showing]
  rfl

/-- What is shown free joins to what the pool looked like before. -/
theorem Tidy.returned_handOut (h : p.Tidy A rest) (hc : c ∈ p.freeBlocks)
    (hle : r ≤ (p.block c).size) :
    coalesce Cell.joining
        ((p.handOut r c).2.returned [((p.handOut r c).1, (p.block c).pending)]) = p.cells := by
  have hwf := h.coherent.wellFormed
  by_cases hsize : (p.block c).size = r
  · rw [returned_handOut_whole hwf hc hsize, h.coalesce_cells]
  · rw [returned_handOut_cut hwf hc hle hsize, h.coalesce_cells]

/-- **Handing a free block out and giving it back with its token restores the
pool.** -/
theorem Tidy.giveBack (h : p.Tidy A rest) (hc : c ∈ p.freeBlocks)
    (hle : r ≤ (p.block c).size) (hout : (p.handOut r c).2.Tidy A ((p.handOut r c).1 :: rest')) :
    ((p.handOut r c).2.release (p.handOut r c).1 (p.block c).pending).cells = p.cells := by
  have hreleased : ((p.handOut r c).2.releaseAll
      [((p.handOut r c).1, (p.block c).pending)]).cells = _ := Tidy.releaseAll_coalesce hout
  exact hreleased.trans (h.returned_handOut hc hle)

end MemoryBlockPool

/-- The event is about the source of the memory. -/
def Event.OfSource : Event → Prop
  | .sourceAllocate _ _ => True
  | .sourceDeallocate _ _ => True
  | .heapReleased _ => True
  | _ => False

theorem Event.Asks.not_ofSource {e : Event} (h : e.Asks) : ¬ e.OfSource := by
  cases e <;> first | exact id | exact absurd h id

namespace MemoryBlockAllocator

variable {cfg : Config} {env : Environment} {r : Nat} {k : Clock Timeline}
  {touched : HeapId → Nat → Command → Prop} {strict : Prop} {rest : List BlockId}
  {timeline : Option Timeline} {s t u a : MemoryBlockAllocator} {b c : BlockId}

/-- No block that is held back is ready to go back: `process` would give none
to the pool. -/
def NoneReady (cfg : Config) (env : Environment) (s : MemoryBlockAllocator) : Prop :=
  (process cfg env s).2.deferred.map Prod.fst = s.deferred.map Prod.fst

/-- **The pool looks as it did**, the same blocks are held back, and the source
has not been reached. -/
structure Restored (s u : MemoryBlockAllocator) : Prop where
  cells : u.pool.cells = s.pool.cells
  deferred : u.deferred.map Prod.fst = s.deferred.map Prod.fst
  trace : ∃ es, u.trace = es ++ s.trace ∧ ∀ e ∈ es, ¬ e.OfSource

theorem Restored.refl (s : MemoryBlockAllocator) : Restored s s := ⟨rfl, rfl, [], rfl, by simp⟩

theorem Restored.trans (h : Restored s t) (h' : Restored t u) : Restored s u := by
  obtain ⟨hcells, hdeferred, es, htrace, hes⟩ := h
  obtain ⟨hcells', hdeferred', es', htrace', hes'⟩ := h'
  refine ⟨hcells'.trans hcells, hdeferred'.trans hdeferred, es' ++ es, ?_, fun e he => ?_⟩
  · rw [htrace', htrace, List.append_assoc]
  · exact (List.mem_append.mp he).elim (hes' e) (hes e)

/-- Where no block is ready, `process` leaves the pool alone. -/
theorem NoneReady.process (hready : NoneReady cfg env s) :
    wp (process cfg env) (fun _ t => t.pool = s.pool ∧ Restored s t) (fun _ _ => True) s := by
  have hspec : wp (MemoryBlockAllocator.process cfg env)
      (fun _ a => ∃ queries lefts, Processed (fun _ _ => True) s a queries lefts) _ s :=
    process_spec (Permanent.always env)
  refine wp_mono (wp_and hspec (wp_run _ s)) ?_ fun _ _ _ => trivial
  intro _ t h
  obtain ⟨⟨queries, lefts, hasks, hleft, rfl⟩, hrun⟩ := h
  have hheld : (waiting lefts).map Prod.fst = s.deferred.map Prod.fst := by
    rw [NoneReady, hrun] at hready
    exact hready
  -- all blocks are held, so that none is left to give back
  have hreduced := Drain.reduced_of_left hleft
  have hperm := (Drain.ready_waiting hreduced).2.2.length_eq
  rw [Drain.blocks_eq hreduced, ← hheld, List.length_append] at hperm
  have hnil : ready lefts = [] := by
    apply List.eq_nil_of_length_eq_zero
    simpa using hperm
  rw [hnil]
  refine ⟨rfl, rfl, hheld, queries, rfl, fun e he => (hasks e he).not_ofSource⟩

/-- **What `allocate` does when free memory serves it**: what `process` asks,
and then a block is handed out. It throws only where something refuses. -/
theorem Sound.allocate_served (hs : Sound cfg k touched strict rest s) (henv : Truthful k env)
    (hready : NoneReady cfg env s) {size alignment : Nat}
    (hserved : s.pool.candidates (alignCeil (max size 1) cfg.maxAlignment) timeline ≠ []) :
    wp (allocate cfg env size alignment timeline)
      (fun b a => ∃ t c, t.pool = s.pool ∧ Restored s t ∧
        HandedOut (alignCeil (max size 1) cfg.maxAlignment) c t b a)
      (fun _ _ => ¬ (Obliging env ∧ hasSingleBit alignment ∧ alignment ≤ cfg.maxAlignment)) s := by
  have hprocess : wp (process cfg env) (fun _ t => t.pool = s.pool ∧ Restored s t)
      (fun _ _ => ¬ Obliging env) s := by
    by_cases ho : Obliging env
    · exact wp_mono ((process_returns ho s).and hready.process) (fun _ _ h => h) fun _ _ h => h.elim
    · exact wp_mono hready.process (fun _ _ h => h) fun _ _ _ => ho
  apply hs.wp_allocate henv uncut_pos
  · exact fun hinvalid _ h => hinvalid h.2
  · exact wp_mono hprocess (fun _ _ h => h) fun _ _ h hvalid => h hvalid.1
  · intro t (_ : ReflTransGen (Internal cfg env True uncut) s t) ht h
    obtain ⟨hpool, hrestored⟩ := h
    rw [← hpool] at hserved
    obtain ⟨c, -, hacquire⟩ := ht.acquireBlock_scan hserved
    refine wp_mono hacquire ?_ ?_
    · intro b a hout
      exact ⟨t, c, hpool, hrestored, hout⟩
    · intro e a hrefused h
      obtain ⟨ho, -⟩ := h
      rw [ho.hostAllocate] at hrefused
      cases hrefused

end MemoryBlockAllocator

namespace Session

open MemoryBlockAllocator (NoneReady Restored)

variable {cfg : Config} {env : Environment} {s t : Session} {size alignment : Nat}
  {timeline : Option Timeline} {a : MemoryBlockAllocator} {b : BlockId}

/-- The tokens of a block that is given back with exactly the token it carries. -/
def ownTokens (a : MemoryBlockAllocator) (b : BlockId) : List CommandToken :=
  (a.pool.block b).pending.toList.map some

/-- A block that is given back with the token it carries is released with it. -/
theorem recycle_ownTokens (env : Environment) (a : MemoryBlockAllocator) (b : BlockId) :
    MemoryBlockAllocator.recycle env b (ownTokens a b) a
      = (.ok (), a.release b (a.pool.block b).pending) := by
  unfold ownTokens
  cases (a.pool.block b).pending <;> rfl

/-- **One pair restores the pool.** -/
theorem give_back_once (hrun : ReflTransGen (Step cfg env .any) Session.empty s)
    (hsize : size < 2 ^ 64) (hready : NoneReady cfg env s.alloc)
    (hserved : s.alloc.pool.candidates (alignCeil (max size 1) cfg.maxAlignment) timeline ≠ [])
    (h : MemoryBlockAllocator.allocate cfg env size alignment timeline s.alloc = (.ok b, a)) :
    Restored s.alloc (a.release b (a.pool.block b).pending) := by
  have hs := Sound.reached hrun
  obtain ⟨u, c, hpool, hrestored, hout⟩ :=
    wp_returned (hs.alloc.allocate_served (.always env) hready hserved) h
  have htidy := Sound.tidy hrun
  have htidy' := Sound.tidy (hrun.tail (.allocated hsize h))
  have hfree := hout.free
  have hfits := hout.fits
  have hpool' := hout.pool
  have hblock := hout.block
  rw [hpool] at hfree hfits hpool' hblock
  have hpending : (a.pool.block b).pending = (s.alloc.pool.block c).pending := by
    rw [hpool', hblock, MemoryBlockPool.handOut_record]
  -- the block that was handed out is one of those that are not free
  have hmem : b ∈ a.deferred.map Prod.fst ++
      (b :: s.out.map Prod.fst ++ lostBlocks a.trace) := by simp
  have hcoh := htidy'.coherent.perm (List.perm_cons_erase hmem)
  rw [hpool', hblock] at hcoh
  have hcells := htidy.giveBack hfree hfits ⟨hcoh, hpool' ▸ htidy'.coalesced⟩
  obtain ⟨es, htrace, hes⟩ := hrestored.trace
  obtain ⟨hosts, hquiet, htrace'⟩ := hout.trace
  refine ⟨?_, hout.deferred ▸ hrestored.deferred, .released b :: .acquired b :: (hosts ++ es), ?_, ?_⟩
  · rw [hpending]
    show (a.pool.release b _).cells = _
    rw [hpool', hblock]
    exact hcells
  · show _ :: a.trace = _
    rw [htrace', htrace]
    simp
  · intro e he
    simp only [List.mem_cons, List.mem_append] at he
    rcases he with rfl | rfl | he | he
    · exact id
    · exact id
    · obtain ⟨granted, rfl⟩ := hquiet e he
      exact id
    · exact hes e he

/-- `allocate` followed by `recycle` of what it returned, where no block that
is held back is ready and free memory can serve the request. -/
inductive RoundTrip (cfg : Config) (env : Environment) : Session → Session → Prop
  | pair {s : Session} {size alignment : Nat} {timeline : Option Timeline} {b : BlockId}
      {a u : MemoryBlockAllocator} (sized : size < 2 ^ 64) (ready : NoneReady cfg env s.alloc)
      (served : s.alloc.pool.candidates (alignCeil (max size 1) cfg.maxAlignment) timeline ≠ [])
      (returned : MemoryBlockAllocator.allocate cfg env size alignment timeline s.alloc
        = (.ok b, a))
      (given : MemoryBlockAllocator.recycle env b (ownTokens a b) a = (.ok (), u)) :
      RoundTrip cfg env s { s with alloc := u }

/-- What a pair leads to is reached, and restored. -/
theorem RoundTrip.restored (hrun : ReflTransGen (Step cfg env .any) Session.empty s)
    (h : RoundTrip cfg env s t) :
    ReflTransGen (Step cfg env .any) Session.empty t ∧ Restored s.alloc t.alloc := by
  cases h with
  | @pair size alignment timeline b a u sized ready served returned given =>
      have hallocated := hrun.tail (.allocated sized returned)
      have hrecycled := hallocated.tail
        (@Step.recycled cfg env .any _ [] s.out b _ (ownTokens a b) rfl trivial)
      rw [recycle_ownTokens] at given hrecycled
      cases given
      exact ⟨hrecycled, give_back_once hrun sized ready served returned⟩

/-- **Allocating and giving straight back restores the pool**, for every size,
alignment and timeline, and so does any number of such pairs. -/
theorem give_back (hrun : ReflTransGen (Step cfg env .any) Session.empty s) :
    (∀ size alignment timeline, size < 2 ^ 64 → NoneReady cfg env s.alloc →
      s.alloc.pool.candidates (alignCeil (max size 1) cfg.maxAlignment) timeline ≠ [] →
      (∀ b a, MemoryBlockAllocator.allocate cfg env size alignment timeline s.alloc = (.ok b, a) →
        ∃ u, MemoryBlockAllocator.recycle env b (ownTokens a b) a = (.ok (), u) ∧
          Restored s.alloc u) ∧
      (Obliging env → hasSingleBit alignment → alignment ≤ cfg.maxAlignment →
        ∃ b a, MemoryBlockAllocator.allocate cfg env size alignment timeline s.alloc
          = (.ok b, a))) ∧
    ∀ t, ReflTransGen (RoundTrip cfg env) s t → Restored s.alloc t.alloc := by
  constructor
  · intro size alignment timeline hsize hready hserved
    constructor
    · intro b a returned
      exact ⟨_, recycle_ownTokens env a b, give_back_once hrun hsize hready hserved returned⟩
    · intro ho hbit hle
      cases hcall : MemoryBlockAllocator.allocate cfg env size alignment timeline s.alloc with
      | mk result a =>
          cases result with
          | ok b => exact ⟨b, a, rfl⟩
          | error e =>
              have hrefused := wp_thrown
                ((Sound.reached hrun).alloc.allocate_served (.always env) hready hserved) hcall
              exact absurd ⟨ho, hbit, hle⟩ hrefused
  · intro t htrips
    suffices h : ReflTransGen (Step cfg env .any) Session.empty t ∧ Restored s.alloc t.alloc from
      h.2
    induction htrips with
    | refl => exact ⟨hrun, .refl s.alloc⟩
    | tail _ htrip ih =>
        obtain ⟨hreached, hrestored⟩ := htrip.restored ih.1
        exact ⟨hreached, ih.2.trans hrestored⟩

/-- A kilobyte is asked for without a timeline. It is cut from what is left of
the heap, which has no token, and given straight back. -/
theorem give_back_recycled : ∃ b a u,
    MemoryBlockAllocator.allocate .default .generous 1000 256 none recycledKilobyte.alloc
      = (.ok b, a) ∧
    MemoryBlockAllocator.recycle .generous b (ownTokens a b) a = (.ok (), u) ∧
    Restored recycledKilobyte.alloc u := by
  have hpairs := (give_back recycledKilobyte_reached).1 1000 256 none (by decide) rfl (by decide)
  obtain ⟨u, hrecycled, hrestored⟩ := hpairs.1 _ _ rfl
  exact ⟨_, _, u, rfl, hrecycled, hrestored⟩

end Session

end RexlibCuda
