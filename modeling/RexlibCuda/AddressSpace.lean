import RexlibCuda.HeapRange
import RexlibCuda.Lib.Arena
import RexlibCuda.SourceLedger

/-! Where the blocks are in memory. As long as the source keeps what it
documents, each block has addresses of its own, and what the allocator does
inside its functions is what an arena does. -/

namespace RexlibCuda

open Completion

open Relation (ReflTransGen)

/-! ## What the source promises -/

/-- Every region the source gave began at a multiple of `align`, ended in the
address space, and was apart from those it was owed. -/
def Lawful (align : Nat) : List Event → Prop
  | [] => True
  | .sourceAllocate bytes (.region allocation) :: trace =>
      (align ∣ allocation ∧ allocation + bytes < 2 ^ 64 ∧
        ∀ r ∈ outstanding trace, Arena.Apart (allocation, bytes) r) ∧ Lawful align trace
  | _ :: trace => Lawful align trace

section Lawful

variable {align : Nat} {trace : List Event}

theorem Lawful.tail {e : Event} (h : Lawful align (e :: trace)) : Lawful align trace := by
  cases e with
  | sourceAllocate bytes answer =>
      cases answer with
      | region allocation => exact h.2
      | refused => exact h
      | failed => exact h
  | _ => exact h

/-- A promise that was kept to the end was kept all along. -/
theorem Lawful.suffix {earlier : List Event} (h : Lawful align trace) (hsuf : earlier <:+ trace) :
    Lawful align earlier := by
  obtain ⟨es, rfl⟩ := hsuf
  induction es with
  | nil => exact h
  | cons e es ih => exact ih h.tail

/-- What is owed is aligned, in the address space, and apart. -/
theorem Lawful.outstanding (h : Lawful align trace) :
    (∀ r ∈ outstanding trace, align ∣ r.1 ∧ r.1 + r.2 < 2 ^ 64) ∧
      (outstanding trace).Pairwise Arena.Apart := by
  induction trace with
  | nil => exact ⟨by simp [RexlibCuda.outstanding], .nil⟩
  | cons e trace ih =>
      obtain ⟨hmem, hapart⟩ := ih h.tail
      cases e with
      | sourceAllocate bytes answer =>
          cases answer with
          | region allocation =>
              obtain ⟨⟨haligned, hfits, hnew⟩, -⟩ := h
              refine ⟨?_, .cons hnew hapart⟩
              intro r hr
              rcases List.mem_cons.mp hr with rfl | hr
              · exact ⟨haligned, hfits⟩
              · exact hmem r hr
          | refused => exact ⟨hmem, hapart⟩
          | failed => exact ⟨hmem, hapart⟩
      | sourceDeallocate allocation bytes =>
          refine ⟨fun r hr => hmem r (List.mem_of_mem_erase hr), ?_⟩
          exact hapart.sublist List.erase_sublist
      | _ => exact ⟨hmem, hapart⟩

end Lawful

namespace MemoryBlockAllocator

variable {cfg : Config} {env : Environment} {k : Clock Timeline}
  {touched : HeapId → Nat → Command → Prop} {strict patient : Prop} {rest : List BlockId}
  {s t : MemoryBlockAllocator} {b c : BlockId} {r : Nat}

/-! ## Where the blocks are -/

/-- The usable bytes of each heap begin where the constructor of `memory_heap`
puts them. -/
def Based (cfg : Config) (p : MemoryBlockPool) : Prop :=
  ∀ h ∈ p.heaps, (p.heap h).data = alignCeil (p.heap h).allocation cfg.maxAlignment

theorem Based.congr {p q : MemoryBlockPool} (hp : Based cfg p) (hheap : q.heap = p.heap)
    (hheaps : ∀ h ∈ q.heaps, h ∈ p.heaps) : Based cfg q := by
  intro h hh
  rw [hheap]
  exact hp h (hheaps h hh)

theorem Based.release {p : MemoryBlockPool} (hp : Based cfg p) (b : BlockId)
    (token : CommandToken) : Based cfg (p.release b token) := by
  have hframe := p.release_frame b token
  exact hp.congr hframe.heap fun h hh => hframe.heaps ▸ hh

theorem Based.registerHeap {p : MemoryBlockPool} (hp : Based cfg p)
    (hfresh : ∀ h ∈ p.heaps, h < p.nextHeap) (allocation size : Nat) :
    Based cfg (p.registerHeap
      ⟨allocation, alignCeil allocation cfg.maxAlignment, size⟩).2 := by
  intro h hh
  show ((p.addHeap _).heap h).data = alignCeil ((p.addHeap _).heap h).allocation _
  rcases List.mem_append.mp hh with hh | hh
  · rw [MemoryBlockPool.addHeap_heap_of_ne (Nat.ne_of_lt (hfresh h hh))]
    exact hp h hh
  · rw [List.mem_singleton.mp hh, MemoryBlockPool.addHeap_heap]

theorem Sound.based (hs : Sound cfg k touched strict rest s) (h : Internal cfg env patient r s t)
    (hp : Based cfg s.pool) : Based cfg t.pool := by
  have hwf := hs.coherent.wellFormed
  cases h with
  | grew hosts quiet sized aligned => exact hp.registerHeap hwf.heapsFresh _ _
  | released at_ kept => exact hp.release _ _
  | reset settled =>
      have hframe := MemoryBlockPool.resetPending_frame hwf
      exact hp.congr hframe.heap fun h hh => hframe.heaps ▸ hh
  | destroyed free empty whole => exact hp.congr rfl fun h hh => List.mem_of_mem_erase hh
  | _ => exact hp

theorem kept_based : Kept cfg env fun s => Based cfg s.pool where
  internal hs hstep hp := hs.based hstep hp
  handedOut _ _ hout hp := by
    rw [hout.pool]
    unfold MemoryBlockPool.handOut
    split <;> exact hp
  release _ _ hp token := hp.release _ token
  defer _ hp := hp
  lost _ hp := hp
  emptied _ _ hp := hp

/-- The addresses of a block. -/
def span (p : MemoryBlockPool) (b : BlockId) : Nat × Nat := (p.getData b, (p.block b).size)

section Span

variable (hs : Sound cfg k touched strict rest s) (hbased : Based cfg s.pool)
  (hlawful : Lawful cfg.baseAlignment s.trace)

include hs hlawful

/-- The regions behind the heaps are apart. -/
theorem Sound.regions_apart {g h : HeapId} (hg : g ∈ s.pool.heaps) (hh : h ∈ s.pool.heaps)
    (hne : g ≠ h) : Arena.Apart (region cfg s.pool g) (region cfg s.pool h) := by
  have hapart := hlawful.outstanding.2
  rw [hs.outstanding.pairwise_iff fun h => h.symm, List.pairwise_map] at hapart
  have hsymm : Std.Symm fun g h => Arena.Apart (region cfg s.pool g) (region cfg s.pool h) :=
    ⟨fun _ _ h => h.symm⟩
  exact hapart.forall hg hh hne

include hbased

/-- The usable bytes of a heap are in its region. -/
theorem Sound.heap_within {h : HeapId} (hh : h ∈ s.pool.heaps) :
    (s.pool.heap h).Within cfg.maxAlignment (regionBytes cfg (s.pool.heap h).size) ∧
      (s.pool.heap h).allocation + regionBytes cfg (s.pool.heap h).size < 2 ^ 64 := by
  have hwf := hs.coherent.wellFormed
  obtain ⟨hpos, hlt⟩ := hwf.heapSize h hh
  have hal := hwf.heapAligned h hh
  have hmem : region cfg s.pool h ∈ RexlibCuda.outstanding s.trace :=
    hs.outstanding.mem_iff.mpr (List.mem_map_of_mem hh)
  obtain ⟨halloc, hfits⟩ := hlawful.outstanding.1 _ hmem
  have hbytes : regionBytes cfg (s.pool.heap h).size
      = (s.pool.heap h).size + padding cfg cfg.maxAlignment :=
    sizeAdd_of_lt (request_fits cfg.maxAlignment_pow hlt hal)
  refine ⟨?_, hfits⟩
  have hfits' : (s.pool.heap h).allocation + ((s.pool.heap h).size + padding cfg cfg.maxAlignment)
      < 2 ^ 64 := hbytes ▸ hfits
  have halloc : cfg.baseAlignment ∣ (s.pool.heap h).allocation := halloc
  have hwithin := MemoryBlockAllocator.heap_within cfg.maxAlignment_pow hpos hal halloc hfits'
  rw [← hbased h hh] at hwithin
  rw [hbytes]
  exact hwithin

/-- **Where a block is**: at an aligned address, in the region of its heap. -/
theorem Sound.span_within (hb : b ∈ s.pool.blocks) :
    cfg.maxAlignment ∣ s.pool.getData b ∧
      Arena.Within (span s.pool b) (region cfg s.pool (s.pool.block b).heap) := by
  have hwf := hs.coherent.wellFormed
  obtain ⟨hheap, hin, -⟩ := hwf.inside hb
  obtain ⟨hwithin, hfits⟩ := hs.heap_within hbased hlawful hheap
  obtain ⟨haligned, hlo, hhi⟩ := hwithin.getData hfits rfl (hwf.aligned b hb).1 hin
  exact ⟨haligned, hlo, hhi⟩

/-- Two blocks have no address in common. -/
theorem Sound.spans_apart (hb : b ∈ s.pool.blocks) (hc : c ∈ s.pool.blocks) (hne : b ≠ c) :
    Arena.Apart (span s.pool b) (span s.pool c) := by
  have hwf := hs.coherent.wellFormed
  obtain ⟨hbh, hbin, -⟩ := hwf.inside hb
  obtain ⟨hch, hcin, -⟩ := hwf.inside hc
  by_cases hheap : (s.pool.block b).heap = (s.pool.block c).heap
  · -- in one heap it is the offsets that tell them apart
    obtain ⟨hwithin, hfits⟩ := hs.heap_within hbased hlawful hbh
    have hinside := hwithin.inside
    have hbdata : s.pool.getData b
        = (s.pool.heap (s.pool.block b).heap).data + (s.pool.block b).offset :=
      sizeAdd_of_lt (by omega)
    have hcdata : s.pool.getData c
        = (s.pool.heap (s.pool.block b).heap).data + (s.pool.block c).offset := by
      rw [MemoryBlockPool.getData, ← hheap]
      exact sizeAdd_of_lt (by rw [← hheap] at hcin; omega)
    intro x hx hx'
    simp only [Arena.Has, span, hbdata, hcdata] at hx hx'
    have hxb : (s.pool.extent b).Has (x - (s.pool.heap (s.pool.block b).heap).data) := by
      simp only [MemoryBlockPool.extent, Tiling.Extent.Has]
      omega
    apply hwf.apart hb hc hne hheap hxb
    simp only [MemoryBlockPool.extent, Tiling.Extent.Has]
    omega
  · have hregions := hs.regions_apart hlawful hbh hch hheap
    have hcw := (hs.span_within hbased hlawful hc).2
    exact ((hregions.within (hs.span_within hbased hlawful hb).2).symm.within hcw).symm

end Span

/-! ## The arena behind an allocator -/

/-- What the source is owed, and where the blocks `out` are. -/
def arena (s : MemoryBlockAllocator) (out : List BlockId) : Arena BlockId :=
  ⟨RexlibCuda.outstanding s.trace, out.map fun b => (b, span s.pool b)⟩

/-- Where the blocks are left alone, only what is owed changes. -/
theorem arena_eq {out : List BlockId} (hspan : ∀ b ∈ out, span t.pool b = span s.pool b) :
    t.arena out = { s.arena out with held := RexlibCuda.outstanding t.trace } := by
  unfold arena
  congr 1
  exact List.map_congr_left fun b hb => by rw [hspan b hb]

theorem Sound.span_evolves (hs : Sound cfg k touched strict rest s) {q : MemoryBlockPool}
    {out : List BlockId} (hev : s.pool.Evolves out q) (hout : ∀ b ∈ out, b ∈ s.pool.blocks) :
    ∀ b ∈ out, span q b = span s.pool b := by
  intro b hb
  have hwf := hs.coherent.wellFormed
  have hheap := hev.heap _ (hwf.heapsFresh _ (hwf.inside (hout b hb)).1)
  simp only [span, MemoryBlockPool.getData, hev.block b hb, hheap]

section Arena

variable {out : List BlockId} (hs : Sound cfg k touched strict rest s)
  (hbased : Based cfg s.pool) (hout : ∀ b ∈ out, b ∈ rest)

include hs hout

theorem Sound.out_blocks : ∀ b ∈ out, b ∈ s.pool.blocks :=
  fun b hb => hs.coherent.accounted.mem (List.mem_append_right _ (hout b hb))

include hbased

/-- What is handed out is apart from a region that is apart from all that is owed. -/
theorem Sound.out_apart (hlawful : Lawful cfg.baseAlignment s.trace) {r : Nat × Nat}
    (hr : ∀ r' ∈ RexlibCuda.outstanding s.trace, Arena.Apart r r') :
    ∀ e ∈ (s.arena out).out, Arena.Apart e.2 r := by
  intro e he
  obtain ⟨b, hb, rfl⟩ := List.mem_map.mp he
  have hmem := hs.out_blocks hout b hb
  have hheap := (hs.coherent.wellFormed.inside hmem).1
  have hregion := hs.outstanding.mem_iff.mpr (List.mem_map_of_mem hheap)
  exact (hr _ hregion).symm.within (hs.span_within hbased hlawful hmem).2

/-- What is handed out is apart from a heap that is one free block. -/
theorem Sound.out_apart_whole (hlawful : Lawful cfg.baseAlignment s.trace)
    (hfree : b ∈ s.pool.freeBlocks) (hwhole : s.pool.isPartition b = false) :
    ∀ e ∈ (s.arena out).out, Arena.Apart e.2 (region cfg s.pool (s.pool.block b).heap) := by
  intro e he
  obtain ⟨c, hc, rfl⟩ := List.mem_map.mp he
  have hwf := hs.coherent.wellFormed
  have hmem := hs.out_blocks hout c hc
  have hb := hwf.freeSub b hfree
  have hcb : c ≠ b := by
    rintro rfl
    exact hs.coherent.accounted.not_free hwf (List.mem_append_right _ (hout c hc)) hfree
  have hheap : (s.pool.block c).heap ≠ (s.pool.block b).heap := by
    intro heq
    have hpart := (hwf.isPartition_iff hb).mpr ⟨c, hmem, hcb, heq⟩
    simp [hwhole] at hpart
  have hregions := hs.regions_apart hlawful (hwf.inside hmem).1 (hwf.inside hb).1 hheap
  exact hregions.within (hs.span_within hbased hlawful hmem).2

/-- **A step inside the allocator is at most two of the arena**: a region is
obtained, or one that nothing is handed out of is returned. -/
theorem Sound.arena_internal (h : Internal cfg env patient r s t)
    (hlawful : Lawful cfg.baseAlignment t.trace) :
    ReflTransGen (Arena.Step cfg.maxAlignment) (s.arena out) (t.arena out) := by
  have hpasses := hs.passes h
  have hbefore := hlawful.suffix hpasses.trace
  have hspan := hs.span_evolves (hpasses.evolves.subset hout) (hs.out_blocks hout)
  rw [arena_eq hspan]
  cases h with
  | asked answered waits =>
      rw [show RexlibCuda.outstanding (s.log _).trace = _ from answered.outstanding]
      exact .refl
  | @grew allocation size hosts quiet sized aligned =>
      obtain ⟨-, houtstanding, -⟩ :=
        quiet_spec quiet (.sourceAllocate (regionBytes cfg size) (.region allocation) :: s.trace)
      obtain ⟨⟨-, -, hnew⟩, -⟩ := hlawful.suffix (List.suffix_append hosts _)
      rw [houtstanding]
      exact .single (.obtained hnew)
  | @declined allocation bytes hosts quiet =>
      obtain ⟨-, houtstanding, -⟩ :=
        quiet_spec quiet (.sourceAllocate bytes (.region allocation) :: s.trace)
      obtain ⟨⟨-, -, hnew⟩, -⟩ := hlawful.tail.suffix (List.suffix_append hosts _)
      have hobtained : Arena.Step cfg.maxAlignment (s.arena out) _ := .obtained hnew
      have hreturned := Arena.Step.returned (A := cfg.maxAlignment)
        (a := { s.arena out with held := (allocation, bytes) :: (s.arena out).held })
        List.mem_cons_self (hs.out_apart hbased hout hbefore hnew)
      simp only [List.erase_cons_head] at hreturned
      simp only [RexlibCuda.outstanding, houtstanding, List.erase_cons_head]
      exact (ReflTransGen.single hobtained).tail hreturned
  | dropped at_ kept => exact .refl
  | released at_ kept => exact .refl
  | partitioned free sized left aligned => exact .refl
  | reset settled => exact .refl
  | @destroyed b free empty whole =>
      have hwf := hs.coherent.wellFormed
      have hheap := (hwf.inside (hwf.freeSub b free)).1
      have hregion := hs.outstanding.mem_iff.mpr (List.mem_map_of_mem hheap)
      exact .single (.returned hregion (hs.out_apart_whole hbased hout hbefore free whole))

/-- So many are a run of them. -/
theorem Sound.arena_run (henv : Truthful k env) (hr : strict → 0 < r)
    (hrun : ReflTransGen (Internal cfg env patient r) s t)
    (hlawful : Lawful cfg.baseAlignment t.trace) :
    ReflTransGen (Arena.Step cfg.maxAlignment) (s.arena out) (t.arena out) := by
  induction hrun with
  | refl => exact .refl
  | tail hrun hstep ih =>
      have hu := (hs.run henv hr hrun).1
      have hubased := hs.run_invariant henv hr (fun _ _ hs h => hs.based h) hrun hbased
      have hbefore := hlawful.suffix (hu.passes hstep).trace
      exact (ih hbefore).trans (hu.arena_internal hubased hout hstep hlawful)

end Arena

end MemoryBlockAllocator

end RexlibCuda
