import RexlibCuda.SearchOutcome

/-! Large requests and the heaps they own. The heap a large request makes the
pool grow by is its own, but what the searches find before that is not always a
heap of the size asked for, and smaller requests may find it later. -/

namespace RexlibCuda

open Completion Prog

open Relation (ReflTransGen)

namespace Session

open MemoryBlockAllocator (CanDefer ComesOf Found HandedOut Internal RefusesHeap Whole uncut)

variable {cfg : Config} {env : Environment} {s t : Session} {size alignment r : Nat}
  {timeline : Option Timeline} {a u : MemoryBlockAllocator} {b c : BlockId} {g : HeapId}

/-- What a request is rounded up to. -/
def rounded (cfg : Config) (size : Nat) : Nat := alignCeil (max size 1) cfg.maxAlignment

/-- **A request of `r` bytes gets what it asks for from the start**: in the pool
that is searched a plain scan chooses no block but one that is all of its heap
and of that size. Where it has nothing to choose from and there is no memory
for a heap, then giving back all that can be had back makes no room either. -/
structure FindsWhole (cfg : Config) (env : Environment) (s : Session) (r : Nat)
    (timeline : Option Timeline) : Prop where
  chosen : ∀ c, (s.alloc.searched cfg env).choice r timeline = some c →
    (s.alloc.searched cfg env).Exact r c
  roomless : (s.alloc.searched cfg env).choice r timeline = none →
    RefusesHeap cfg env r (s.alloc.searchTime cfg env) → ¬ s.alloc.pool.Roomy s.rest r

/-- Then every search of the call finds that. -/
theorem FindsWhole.exact (hs : Sound cfg (Clock.always Timeline) False s) (hlt : r < 2 ^ 64)
    (hal : cfg.maxAlignment ∣ r) (hlarge : cfg.largeAllocation ≤ r)
    (h : s.FindsWhole cfg env r timeline) (hfound : Found cfg env r timeline s.alloc u c) :
    u.pool.Exact r c := by
  rcases hfound with ⟨hprocess, hfound⟩ | ⟨w, v, n, hprocess, hfind, hforeign, hgrow, htrim, hfound⟩
  · rw [(process_pool hprocess).1]
    exact h.chosen c ((hs.process_choice hprocess r timeline c).mp hfound)
  · exfalso
    have hrefuses := wp_thrown (MemoryBlockAllocator.grow_refuses hlarge w) hgrow rfl
    rw [(process_pool hprocess).2] at hrefuses
    apply h.roomless _ hrefuses
    · exact (hs.refused_finds hprocess hlt hal timeline hgrow htrim).1.mp ⟨c, hfound⟩
    · rw [Option.eq_none_iff_forall_ne_some]
      intro d hd
      have hnone := (hs.process_choice hprocess r timeline d).mpr hd
      simp [hfind, hforeign] at hnone

/-- Where a large request finds nothing in the pool that is searched, and there
is no memory for a heap, the call goes on from `u` with a trim that returns. -/
def TrimsFor (cfg : Config) (env : Environment) (s : Session) (r : Nat)
    (timeline : Option Timeline) (u : MemoryBlockAllocator) : Prop :=
  cfg.largeAllocation ≤ r → (s.alloc.searched cfg env).choice r timeline = none →
    RefusesHeap cfg env r (s.alloc.searchTime cfg env) →
    ∃ v n t, MemoryBlockAllocator.grow cfg env r u = (.error .badAlloc, v) ∧
      MemoryBlockAllocator.trimLocked cfg env v = (.ok n, t)

theorem Sound.chooseBlock_trims (hs : Sound cfg (Clock.always Timeline) False s)
    (hprocess : MemoryBlockAllocator.process cfg env s.alloc = (.ok (), u)) :
    wp (MemoryBlockAllocator.chooseBlock cfg env r timeline)
      (fun _ _ => TrimsFor cfg env s r timeline u) (fun _ _ => True) u := by
  by_cases hrefused : cfg.largeAllocation ≤ r ∧
      (s.alloc.searched cfg env).choice r timeline = none ∧
      RefusesHeap cfg env r (s.alloc.searchTime cfg env)
  · obtain ⟨hlarge, hnone, hrefuses⟩ := hrefused
    obtain ⟨hfind, hforeign⟩ := hs.process_none hprocess hnone
    rw [← (process_pool hprocess).2] at hrefuses
    exact wp_mono (MemoryBlockAllocator.chooseBlock_refused hlarge hfind hforeign hrefuses)
      (fun _ _ htrim _ _ _ => htrim) fun _ _ _ => trivial
  · exact wp_mono (wp_run _ u)
      (fun _ _ _ hlarge hnone hrefuses => absurd ⟨hlarge, hnone, hrefuses⟩ hrefused)
      fun _ _ _ => trivial

section Returned

variable (hs : Sound cfg (Clock.always Timeline) False s)
  (h : MemoryBlockAllocator.allocate cfg env size alignment timeline s.alloc = (.ok b, a))

include hs h

/-- Where a search finds a block, that is the one that is handed out. -/
theorem Sound.found_handedOut (hfound : Found cfg env (rounded cfg size) timeline s.alloc u c) :
    ReflTransGen (Internal cfg env True uncut) s.alloc u ∧
      HandedOut (rounded cfg size) c u b a := by
  obtain ⟨v, d, hrun, hout, rfl, rfl⟩ := wp_returned
    (hs.alloc.allocate_via (.always env) fun w hprocess _ => hfound.chooseBlock hprocess) h
  exact ⟨hrun, hout⟩

/-- What is handed out is what a search finds, or what the pool has grown by. -/
theorem Sound.allocate_comesOf :
    ∃ u c, ReflTransGen (Internal cfg env True uncut) s.alloc u ∧
      HandedOut (rounded cfg size) c u b a ∧
      ComesOf cfg env (rounded cfg size) timeline s.alloc u c :=
  wp_returned
    (hs.alloc.allocate_via (.always env) fun _ hprocess hsu =>
      hs.alloc.chooseBlock_comesOf (.always env) (cfg.alignCeil_lt _) (cfg.alignCeil_dvd _) hsu
        hprocess) h

/-- A call that returns has processed what was held back, and trimmed the pool
if it had to. -/
theorem Sound.trims_returned : ∃ u, MemoryBlockAllocator.process cfg env s.alloc = (.ok (), u) ∧
    TrimsFor cfg env s (rounded cfg size) timeline u := by
  obtain ⟨-, -, -, -, htrims⟩ := wp_returned (hs.alloc.allocate_via
    (Q := fun _ _ => ∃ u, MemoryBlockAllocator.process cfg env s.alloc = (.ok (), u) ∧
      TrimsFor cfg env s (rounded cfg size) timeline u) (.always env)
    fun u hprocess _ => wp_mono (hs.chooseBlock_trims hprocess)
      (fun _ _ htrims => ⟨u, hprocess, htrims⟩) fun _ _ h => h) h
  exact htrims

/-- What a large request finds is all of a heap of its size just where it gets
what it asks for from the start. -/
theorem Sound.findsWhole_iff (hlarge : cfg.largeAllocation ≤ rounded cfg size) :
    s.FindsWhole cfg env (rounded cfg size) timeline ↔
      ∀ u c, Found cfg env (rounded cfg size) timeline s.alloc u c →
        u.pool.Exact (rounded cfg size) c := by
  have hlt := cfg.alignCeil_lt (max size 1)
  have hal := cfg.alignCeil_dvd (max size 1)
  constructor
  · exact fun hfinds u c hfound => hfinds.exact hs hlt hal hlarge hfound
  · intro hexact
    obtain ⟨u, hprocess, htrims⟩ := hs.trims_returned h
    constructor
    · intro c hc
      rw [← (process_pool hprocess).1]
      exact hexact u c (.inl ⟨hprocess, (hs.process_choice hprocess _ timeline c).mpr hc⟩)
    · intro hnone hrefuses hroomy
      -- the search after the trim would find a part of a heap
      obtain ⟨v, n, t, hgrow, htrim⟩ := htrims hlarge hnone hrefuses
      obtain ⟨hfinds, hpartition⟩ :=
        hs.refused_finds hprocess hlt hal timeline hgrow htrim
      obtain ⟨c, hc⟩ := hfinds.mpr hroomy
      obtain ⟨hfind, hforeign⟩ := hs.process_none hprocess hnone
      have hwhole := (hexact t c
        (.inr ⟨u, v, n, hprocess, hfind, hforeign, hgrow, htrim, hc⟩)).1
      simp [hpartition c hc] at hwhole

/-- A large request owns its heap just where each block a search finds for it is
all of its heap, and of its size. -/
theorem Sound.ownsHeap_iff_found (hlarge : cfg.largeAllocation ≤ rounded cfg size) :
    a.pool.OwnsHeap (rounded cfg size) b ↔
      ∀ u c, Found cfg env (rounded cfg size) timeline s.alloc u c →
        u.pool.Exact (rounded cfg size) c := by
  have hwf : ∀ u, ReflTransGen (Internal cfg env True uncut) s.alloc u →
      u.pool.WellFormed cfg.maxAlignment False := fun u hrun =>
    (hs.alloc.run (.always env) MemoryBlockAllocator.uncut_pos hrun).1.coherent.wellFormed
  have howns : ∀ u c, ReflTransGen (Internal cfg env True uncut) s.alloc u →
      HandedOut (rounded cfg size) c u b a →
      (a.pool.OwnsHeap (rounded cfg size) b ↔ u.pool.Exact (rounded cfg size) c) := by
    intro u c hrun hout
    rw [hout.pool, hout.block]
    exact MemoryBlockPool.handOut_ownsHeap_iff (hwf u hrun) hout.free hout.fits
  constructor
  · intro h' u c hfound
    obtain ⟨hrun, hout⟩ := hs.found_handedOut h hfound
    exact (howns u c hrun hout).mp h'
  · intro hexact
    obtain ⟨u, c, hrun, hout, hfound | ⟨v, n, hsv, hn, hgrown⟩⟩ := hs.allocate_comesOf h
    · exact (howns u c hrun hout).mpr (hexact u c hfound)
    · -- the pool has grown by a heap of just that size
      obtain ⟨heap, hheap, hpool⟩ := hgrown.pool
      apply (howns u c hrun hout).mpr
      have hwf' := hwf u hrun
      rw [hpool] at hwf' ⊢
      rw [hgrown.block, ← hn hlarge, ← hheap]
      exact (MemoryBlockPool.registerHeap_exact (hwf v hsv) heap hwf').1

/-- **A large request owns its heap** just where it gets what it asks for from the
start. -/
theorem Sound.ownsHeap_iff (hlarge : cfg.largeAllocation ≤ rounded cfg size) :
    a.pool.OwnsHeap (rounded cfg size) b ↔
      s.FindsWhole cfg env (rounded cfg size) timeline :=
  (hs.ownsHeap_iff_found h hlarge).trans (hs.findsWhole_iff h hlarge).symm

/-- What `allocate` has to cut nothing of stays whole. -/
theorem Sound.whole_allocated (hwhole : Whole r g s.alloc)
    (hcut : ∀ u c, ComesOf cfg env (rounded cfg size) timeline s.alloc u c →
      (u.pool.block c).heap ≠ g ∨ (u.pool.block c).size = rounded cfg size) :
    Whole r g a := by
  obtain ⟨u, c, hrun, hout, hcomes⟩ := hs.allocate_comesOf h
  have hwf := (hs.alloc.run (.always env) MemoryBlockAllocator.uncut_pos hrun).1.coherent.wellFormed
  have hu := (MemoryBlockAllocator.kept_whole r g).run hs.alloc hrun hwhole
  have hunsplit := hu.unsplit.handOut hwf hout.free hout.fits (hcut u c hcomes)
  rw [← hout.pool] at hunsplit
  refine ⟨?_, hunsplit, ?_⟩
  · simpa [hout.pool] using hu.known
  · simpa [hout.pool] using hu.size

end Returned

/-! ## The heaps large requests own -/

/-- **The heap `g`, of `r` bytes, is owned by a large request**: it is not
split, and its block has not been lost. -/
structure OwnedHeap (cfg : Config) (g : HeapId) (r : Nat) (s : Session) : Prop where
  large : cfg.largeAllocation ≤ r
  whole : Whole r g s.alloc
  unlost : ∀ b ∈ lostBlocks s.alloc.trace, (s.alloc.pool.block b).heap ≠ g

/-- Blocks that are lost stay where they are. -/
theorem unlost_passes (hpasses : s.alloc.Passes s.rest a)
    (h : ∀ b ∈ lostBlocks s.alloc.trace, (s.alloc.pool.block b).heap ≠ g) :
    ∀ b ∈ lostBlocks a.trace, (a.pool.block b).heap ≠ g := by
  intro b hb
  rw [hpasses.lost] at hb
  rw [hpasses.evolves.block b (List.mem_append_right _ hb)]
  exact h b hb

section Steps

variable (hs : Sound cfg (Clock.always Timeline) False s)

include hs

/-- An `allocate` that cuts no block of the heap leaves it owned. -/
theorem OwnedHeap.allocated (h : MemoryBlockAllocator.allocate cfg env size alignment timeline s.alloc
      = (.ok b, a)) (hg : OwnedHeap cfg g r s)
    (hcut : ∀ u c, ComesOf cfg env (rounded cfg size) timeline s.alloc u c →
      (u.pool.block c).heap ≠ g ∨ (u.pool.block c).size = rounded cfg size)
    (out : List (BlockId × List Command)) : OwnedHeap cfg g r { s with alloc := a, out } := by
  refine ⟨hg.large, hs.whole_allocated h hg.whole hcut, ?_⟩
  obtain ⟨u, hrun, -, -, rfl⟩ := hs.allocate_returned (.always env) False.elim h
  have hunlost : ∀ c ∈ lostBlocks u.trace, (u.pool.block c).heap ≠ g :=
    unlost_passes (hs.alloc.run (.always env) False.elim hrun).2 hg.unlost
  exact hunlost

/-- The heap a block spans that has just been handed out is owned from then
on. -/
theorem OwnedHeap.ofOwnsHeap (hb : b ∈ s.out.map Prod.fst) (hlarge : cfg.largeAllocation ≤ r)
    (howns : s.alloc.pool.OwnsHeap r b) : OwnedHeap cfg (s.alloc.pool.block b).heap r s := by
  have hwf := hs.alloc.coherent.wellFormed
  have hacc := hs.alloc.coherent.accounted
  have hrest : ∀ c ∈ s.rest, c ∈ s.alloc.pool.blocks := fun c hc =>
    hacc.mem (List.mem_append_right _ hc)
  have hbb := hrest b (List.mem_append_left _ hb)
  refine ⟨hlarge, ⟨hwf.heapsFresh _ (hwf.inside hbb).1, howns.alone, howns.heap⟩, ?_⟩
  intro c hc hheap
  -- the heap has but one block, and that one is not lost
  obtain rfl := howns.alone c (hrest c (List.mem_append_right _ hc)) b hbb hheap rfl
  have hnd := (List.nodup_append.mp (hacc.nodup hwf)).2.1
  exact (List.nodup_append.mp hnd).2.2 c hb c hc rfl

/-- A block that is given back leaves a heap owned, unless it is lost there. -/
theorem OwnedHeap.recycled {before after : List (BlockId × List Command)} {commands : List Command}
    {tokens : List CommandToken} (hhas : s.out = before ++ (b, commands) :: after)
    (hkept : (s.alloc.pool.block b).heap = g → CanDefer env tokens s.alloc)
    (hg : OwnedHeap cfg g r s) : OwnedHeap cfg g r { s with
      alloc := (MemoryBlockAllocator.recycle env b tokens s.alloc).2
      out := before ++ after } := by
  have hstep := @Step.recycled cfg env .any s before after b commands tokens hhas trivial
  refine ⟨hg.large, ?_, ?_⟩
  · rcases KeptInside.step (MemoryBlockAllocator.kept_whole r g) hs hstep hg.whole with
      hwhole | ⟨_, _, _, _, -, hout⟩
    · exact hwhole
    · -- nothing was handed out
      have hlen := congrArg List.length hout
      simp [hhas] at hlen
      omega
  · intro c hc
    have hc : c ∈ lostBlocks (MemoryBlockAllocator.recycle env b tokens s.alloc).2.trace := hc
    show ((MemoryBlockAllocator.recycle env b tokens s.alloc).2.pool.block c).heap ≠ g
    rw [(MemoryBlockAllocator.recycle_frame env b tokens s.alloc).blockHeap c]
    by_cases hbg : (s.alloc.pool.block b).heap = g
    · rw [(hkept hbg).unlost b] at hc
      exact hg.unlost c hc
    · rcases MemoryBlockAllocator.recycle_lost env b tokens s.alloc c hc with rfl | hc
      · exact hbg
      · exact hg.unlost c hc

/-- Whatever else happens leaves a heap owned. -/
theorem OwnedHeap.other (hstep : Step cfg env .any s t)
    (hout : t.out.map Prod.fst = s.out.map Prod.fst) (hg : OwnedHeap cfg g r s) :
    OwnedHeap cfg g r t := by
  have hlen : t.out.length = s.out.length := by simpa using congrArg List.length hout
  refine ⟨hg.large, ?_, ?_⟩
  · rcases KeptInside.step (MemoryBlockAllocator.kept_whole r g) hs hstep hg.whole with
      hwhole | ⟨_, _, _, _, -, hout⟩
    · exact hwhole
    · simp [hout] at hlen
  · cases hstep with
    | allocated promised returned => simp at hlen
    | threw promised thrown =>
        have hrun := hs.allocate_threw (.always env) False.elim thrown
        exact unlost_passes (hs.alloc.run (.always env) False.elim hrun).2 hg.unlost
    | recycled has promised =>
        simp [has] at hlen
    | trimmed =>
        have hrun : ReflTransGen (Internal cfg env True 1) s.alloc _ := hs.trim_run (.always env)
        exact unlost_passes (hs.alloc.run (.always env) False.elim hrun).2 hg.unlost
    | used c has => exact hg.unlost
    | emptied has =>
        intro c hc
        simpa using hg.unlost c hc
    | asked answered =>
        have hpasses := hs.alloc.passes (r := 0) (.asked answered fun _ => trivial)
        exact unlost_passes hpasses hg.unlost

end Steps

end Session

/-- A session, with the heaps that have been handed to large requests and what
these were rounded up to. -/
structure Owners where
  session : Session
  owned : List (HeapId × Nat)

namespace Owners

open MemoryBlockAllocator (CanDefer ComesOf Found HandedOut Internal uncut)

open Session (OwnedHeap Sound rounded)

variable {cfg : Config} {env : Environment} {o o' : Owners} {size alignment r n : Nat}
  {timeline : Option Timeline} {a u : MemoryBlockAllocator} {b c : BlockId} {g : HeapId}

/-- Nothing has happened. -/
def start : Owners := ⟨.empty, []⟩

/-- **What is asked of a request of `r` bytes**: a large one gets a heap of its own
from the start, and for a smaller one a plain scan of the pool that is searched
chooses no block of a heap that a large one owns. -/
def Meets (cfg : Config) (env : Environment) (o : Owners) (r : Nat)
    (timeline : Option Timeline) : Prop :=
  if cfg.largeAllocation ≤ r then o.session.FindsWhole cfg env r timeline
  else ∀ c, (o.session.alloc.searched cfg env).choice r timeline = some c →
    ∀ n, (((o.session.alloc.searched cfg env).block c).heap, n) ∉ o.owned

/-- What the searches of the call then find. -/
def Spares (cfg : Config) (env : Environment) (o : Owners) (r : Nat)
    (timeline : Option Timeline) : Prop :=
  ∀ u c, Found cfg env r timeline o.session.alloc u c →
    if cfg.largeAllocation ≤ r then u.pool.Exact r c
    else ∀ n, ((u.pool.block c).heap, n) ∉ o.owned

/-- A call or something between calls, where the requests are as asked, and no
block of a heap that is owned is lost. -/
inductive Step (cfg : Config) (env : Environment) : Owners → Owners → Prop
  /-- `allocate` returns. -/
  | allocated {o : Owners} {a : MemoryBlockAllocator} {b : BlockId} {size alignment : Nat}
      {timeline : Option Timeline} (promised : size < 2 ^ 64)
      (returned : MemoryBlockAllocator.allocate cfg env size alignment timeline o.session.alloc
        = (.ok b, a))
      (meets : o.Meets cfg env (rounded cfg size) timeline) :
      Step cfg env o
        { session := { o.session with
            alloc := a
            out := (b, (a.pool.block b).pending.toList) :: o.session.out }
          owned := if cfg.largeAllocation ≤ rounded cfg size
            then ((a.pool.block b).heap, rounded cfg size) :: o.owned else o.owned }
  /-- A block that is handed out is given back. -/
  | recycled {o : Owners} {before after : List (BlockId × List Command)} {b : BlockId}
      {commands : List Command} {tokens : List CommandToken}
      (has : o.session.out = before ++ (b, commands) :: after)
      (kept : ∀ n, ((o.session.alloc.pool.block b).heap, n) ∈ o.owned →
        CanDefer env tokens o.session.alloc) :
      Step cfg env o
        { o with session := { o.session with
            alloc := (MemoryBlockAllocator.recycle env b tokens o.session.alloc).2
            out := before ++ after } }
  /-- Anything else, where no block changes hands. -/
  | other {o : Owners} {s : Session} (step : Session.Step cfg env .any o.session s)
      (out : s.out.map Prod.fst = o.session.out.map Prod.fst) : Step cfg env o { o with session := s }

theorem Step.session (h : Step cfg env o o') : Session.Step cfg env .any o.session o'.session := by
  cases h with
  | allocated promised returned meets => exact .allocated promised returned
  | recycled has kept => exact .recycled has trivial
  | other step out => exact step

theorem run_session (hrun : ReflTransGen (Step cfg env) .start o) :
    ReflTransGen (Session.Step cfg env .any) Session.empty o.session :=
  ReflTransGen.lift Owners.session (fun _ _ h => Step.session h) _ _ hrun

theorem reached (hrun : ReflTransGen (Step cfg env) .start o) :
    Sound cfg (Clock.always Timeline) False o.session :=
  Sound.reached (run_session hrun)

/-- **The heaps that are owned are those of large requests, and whole.** -/
def Whole (cfg : Config) (o : Owners) : Prop := ∀ g r, (g, r) ∈ o.owned → OwnedHeap cfg g r o.session

section Step

variable (hs : Sound cfg (Clock.always Timeline) False o.session) (hwhole : o.Whole cfg)

include hs hwhole

/-- The searches of a smaller request find no block of a heap that is owned just
where the scan chooses none. -/
theorem Whole.spares_iff (hsmall : ¬ cfg.largeAllocation ≤ rounded cfg size)
    (h : MemoryBlockAllocator.allocate cfg env size alignment timeline o.session.alloc
      = (.ok b, a)) :
    o.Meets cfg env (rounded cfg size) timeline ↔ o.Spares cfg env (rounded cfg size) timeline := by
  simp only [Meets, Spares, if_neg hsmall]
  constructor
  · intro hmeets u c hfound n hg
    obtain ⟨hrun, hout⟩ := hs.found_handedOut h hfound
    rcases hfound with
      ⟨hprocess, hfound⟩ | ⟨w, v, m, hprocess, hfind, hforeign, hgrow, htrim, hfound⟩
    · rw [(Session.process_pool hprocess).1] at hg
      exact hmeets c ((hs.process_choice hprocess _ timeline c).mp hfound) n hg
    · -- what is left after a trim is of heaps that are split
      have hpartition := (hs.refused_finds hprocess (cfg.alignCeil_lt _)
        (cfg.alignCeil_dvd _) timeline hgrow htrim).2 c hfound
      have hwf := (hs.alloc.run (.always env) MemoryBlockAllocator.uncut_pos
        hrun).1.coherent.wellFormed
      have hu := (MemoryBlockAllocator.kept_whole n _).run hs.alloc hrun (hwhole _ n hg).whole
      have hunsplit := (hwf.unsplit_iff (hwf.freeSub c hout.free)).mp hu.unsplit
      simp [hpartition] at hunsplit
  · intro hspares c hc
    obtain ⟨u, hprocess, -⟩ := hs.trims_returned h
    have hfound := hspares u c (.inl ⟨hprocess, (hs.process_choice hprocess _ timeline c).mpr hc⟩)
    rw [(Session.process_pool hprocess).1] at hfound
    exact hfound

theorem Whole.meets_spares (h : MemoryBlockAllocator.allocate cfg env size alignment timeline
      o.session.alloc = (.ok b, a)) :
    o.Meets cfg env (rounded cfg size) timeline ↔ o.Spares cfg env (rounded cfg size) timeline := by
  by_cases hlarge : cfg.largeAllocation ≤ rounded cfg size
  · simp only [Meets, Spares, if_pos hlarge]
    exact hs.findsWhole_iff h hlarge
  · exact hwhole.spares_iff hs hlarge h

/-- What a search may find, and what the pool grows by, are cut in no heap that
is owned. -/
theorem Spares.cuts (h : o.Spares cfg env r timeline) (hg : (g, n) ∈ o.owned)
    (hcomes : ComesOf cfg env r timeline o.session.alloc u c) :
    (u.pool.block c).heap ≠ g ∨ (u.pool.block c).size = r := by
  rcases hcomes with hfound | ⟨v, m, hsv, -, hgrown⟩
  · have hmeets := h u c hfound
    split at hmeets
    · exact .inr hmeets.2
    · refine .inl ?_
      rintro rfl
      exact hmeets _ hg
  · -- a new heap is none of those that are there
    obtain ⟨heap, -, hpool⟩ := hgrown.pool
    have hknown := ((MemoryBlockAllocator.kept_whole n g).run hs.alloc hsv (hwhole g n hg).whole).known
    have hrec : ((v.pool.registerHeap heap).2.block v.pool.nextBlock).heap = v.pool.nextHeap :=
      congrArg MemoryBlock.heap MemoryBlockPool.addHeap_block
    rw [hpool, hgrown.block, hrec]
    exact .inl (Nat.ne_of_gt hknown)

/-- One step keeps them whole. -/
theorem Whole.step (h : Step cfg env o o') : o'.Whole cfg := by
  cases h with
  | @allocated a b size alignment timeline promised returned meets =>
      intro g r hg
      have hspares := (hwhole.meets_spares hs returned).mp meets
      have hold : (g, r) ∈ o.owned → OwnedHeap cfg g r { o.session with
          alloc := a
          out := (b, (a.pool.block b).pending.toList) :: o.session.out } := fun hg =>
        (hwhole g r hg).allocated hs returned (fun u c => hspares.cuts hs hwhole hg) _
      split at hg
      · rename_i hlarge
        rcases List.mem_cons.mp hg with hnew | hg
        · cases hnew
          -- the block that has just been handed out is all of its heap
          rw [Meets, if_pos hlarge] at meets
          have howns := (hs.ownsHeap_iff returned hlarge).mpr meets
          have hs' := hs.allocated (.always env) False.elim returned
          exact OwnedHeap.ofOwnsHeap hs' List.mem_cons_self hlarge howns
        · exact hold hg
      · exact hold hg
  | recycled has kept =>
      intro g r hg
      refine (hwhole g r hg).recycled hs has ?_
      rintro rfl
      exact kept r hg
  | other step out =>
      intro g r hg
      exact (hwhole g r hg).other hs step out

end Step

/-- So does a run. -/
theorem Whole.run (hrun : ReflTransGen (Step cfg env) .start o) : o.Whole cfg := by
  induction hrun with
  | refl =>
      intro g r hg
      simp [start] at hg
  | tail hrun hstep ih => exact ih.step (reached hrun) hstep

/-- **What large requests are promised**, and what it takes. -/
structure Promised (cfg : Config) (env : Environment) (o : Owners) : Prop where
  /-- While a heap that is owned is in the pool, one block spans it. -/
  whole : ∀ g r, (g, r) ∈ o.owned → ∀ b ∈ o.session.alloc.pool.blocks,
    (o.session.alloc.pool.block b).heap = g → o.session.alloc.pool.OwnsHeap r b
  /-- Once that block is not handed out any more, a trim that returns has given
  the heap back. -/
  back : ∀ g r, (g, r) ∈ o.owned →
    (∀ b ∈ o.session.out.map Prod.fst, (o.session.alloc.pool.block b).heap ≠ g) →
    ∀ n a, MemoryBlockAllocator.trim cfg env o.session.alloc = (.ok n, a) → g ∉ a.pool.heaps ∧
      (g ∈ o.session.alloc.pool.heaps →
        ∃ es, a.trace = es ++ o.session.alloc.trace ∧ .heapReleased g ∈ es)
  /-- The next request keeps the promise just where it is as asked. -/
  next : ∀ size alignment timeline b a,
    MemoryBlockAllocator.allocate cfg env size alignment timeline o.session.alloc = (.ok b, a) →
    (o.Meets cfg env (rounded cfg size) timeline ↔
      (cfg.largeAllocation ≤ rounded cfg size → a.pool.OwnsHeap (rounded cfg size) b) ∧
        ∀ g r, (g, r) ∈ o.owned → a.pool.Unsplit g)

section Promised

variable (hs : Sound cfg (Clock.always Timeline) False o.session) (hwhole : o.Whole cfg)

include hs hwhole

theorem Whole.spans (hg : (g, r) ∈ o.owned) (hb : b ∈ o.session.alloc.pool.blocks)
    (hheap : (o.session.alloc.pool.block b).heap = g) : o.session.alloc.pool.OwnsHeap r b := by
  have hwf := hs.alloc.coherent.wellFormed
  have hkeeps := (hwhole g r hg).whole
  subst hheap
  have hall := (hwf.unsplit_iff hb).mp hkeeps.unsplit
  obtain ⟨-, hsize, -, -⟩ := hwf.whole hb hall
  exact hwf.ownsHeap hb ⟨hall, hsize.trans hkeeps.size⟩

theorem Whole.trimmed {n : Nat} (hg : (g, r) ∈ o.owned)
    (hout : ∀ b ∈ o.session.out.map Prod.fst, (o.session.alloc.pool.block b).heap ≠ g)
    (h : MemoryBlockAllocator.trim cfg env o.session.alloc = (.ok n, a)) :
    g ∉ a.pool.heaps ∧ (g ∈ o.session.alloc.pool.heaps →
      ∃ es, a.trace = es ++ o.session.alloc.trace ∧ .heapReleased g ∈ es) := by
  have houtcome := hs.trim_returned h
  have hgone : g ∉ a.pool.heaps := by
    intro hmem
    obtain ⟨b, hb, hheap⟩ := (houtcome.owned g).mp hmem
    rw [(houtcome.unchanged b hb).2.2] at hheap
    rcases List.mem_append.mp hb with hb | hb
    · exact hout b hb hheap
    · exact (hwhole g r hg).unlost b hb hheap
  refine ⟨hgone, fun hmem => ?_⟩
  obtain ⟨given, hgiven⟩ := houtcome.given
  obtain ⟨es, htrace, hes⟩ := hgiven.released
  have hin := (List.mem_append.mp (hgiven.heaps.mem_iff.mp hmem)).resolve_right hgone
  exact ⟨es, htrace, (hes g).mpr hin⟩

/-- A smaller request that finds a block of a heap that is owned splits it. -/
theorem Whole.split (hsmall : ¬ cfg.largeAllocation ≤ rounded cfg size)
    (h : MemoryBlockAllocator.allocate cfg env size alignment timeline o.session.alloc = (.ok b, a))
    (hfound : Found cfg env (rounded cfg size) timeline o.session.alloc u c)
    (hg : ((u.pool.block c).heap, n) ∈ o.owned) : ¬ a.pool.Unsplit (u.pool.block c).heap := by
  obtain ⟨hrun, hout⟩ := hs.found_handedOut h hfound
  have hwf := (hs.alloc.run (.always env) MemoryBlockAllocator.uncut_pos hrun).1.coherent.wellFormed
  have howned := hwhole _ n hg
  have hu := (MemoryBlockAllocator.kept_whole n _).run hs.alloc hrun howned.whole
  have hcb := hwf.freeSub c hout.free
  obtain ⟨-, hsize, -, -⟩ := hwf.whole hcb ((hwf.unsplit_iff hcb).mp hu.unsplit)
  have hlarge := howned.large
  have hheap := hu.size
  rw [hout.pool]
  exact MemoryBlockPool.handOut_splits hwf hout.free hout.fits (by omega)

theorem Whole.meets_iff
    (h : MemoryBlockAllocator.allocate cfg env size alignment timeline o.session.alloc
      = (.ok b, a)) :
    o.Meets cfg env (rounded cfg size) timeline ↔
      (cfg.largeAllocation ≤ rounded cfg size → a.pool.OwnsHeap (rounded cfg size) b) ∧
        ∀ g r, (g, r) ∈ o.owned → a.pool.Unsplit g := by
  constructor
  · intro hmeets
    constructor
    · intro hlarge
      rw [Meets, if_pos hlarge] at hmeets
      exact (hs.ownsHeap_iff h hlarge).mpr hmeets
    · intro g r hg
      have hspares := (hwhole.meets_spares hs h).mp hmeets
      exact (hs.whole_allocated h (hwhole g r hg).whole
        fun u c => hspares.cuts hs hwhole hg).unsplit
  · rintro ⟨howns, hunsplit⟩
    by_cases hlarge : cfg.largeAllocation ≤ rounded cfg size
    · rw [Meets, if_pos hlarge]
      exact (hs.ownsHeap_iff h hlarge).mp (howns hlarge)
    · apply (hwhole.meets_spares hs h).mpr
      intro u c hfound
      rw [if_neg hlarge]
      intro n hg
      exact hwhole.split hs hlarge h hfound hg (hunsplit _ n hg)

end Promised

/-- **When a large request owns its heap.** In every session that is reached it
does just where a plain scan of the pool it searches chooses a whole heap of its
size or nothing, and what can be had back makes no room where the pool cannot
grow. And along a run whose requests are so, where smaller ones keep off such
heaps, it owns the heap for as long as the pool has it, and a trim gives it back
whole. -/
theorem large_requests (cfg : Config) (env : Environment) :
    (∀ s, ReflTransGen (Session.Step cfg env .any) Session.empty s →
      ∀ size alignment timeline b a,
        MemoryBlockAllocator.allocate cfg env size alignment timeline s.alloc = (.ok b, a) →
        cfg.largeAllocation ≤ rounded cfg size →
        (a.pool.OwnsHeap (rounded cfg size) b ↔
          s.FindsWhole cfg env (rounded cfg size) timeline)) ∧
    ∀ o, ReflTransGen (Step cfg env) .start o → Promised cfg env o := by
  constructor
  · intro s hrun size alignment timeline b a h hlarge
    exact (Sound.reached hrun).ownsHeap_iff h hlarge
  · intro o hrun
    have hs := reached hrun
    have hwhole : o.Whole cfg := .run hrun
    constructor
    · intro g r hg b hb hheap
      exact hwhole.spans hs hg hb hheap
    · intro g r hg hout n a h
      exact hwhole.trimmed hs hg hout h
    · intro size alignment timeline b a h
      exact hwhole.meets_iff hs h

/-- A large request has been served from an empty pool, and a small one after
it. -/
def both : Owners where
  session := (Session.empty.allocate .default .generous (2 ^ 26) 256 none).allocate
    .default .generous 1000 256 none
  owned := [(0, 2 ^ 26)]

/-- The large one has been given back, and another small one has been served. -/
def served : Owners where
  session := (both.session.recycle .generous 0 []).allocate .default .generous 1000 256 none
  owned := [(0, 2 ^ 26)]

/-- There is nothing to choose from in an empty pool, nor room. -/
theorem start_meets : start.Meets .default .generous (rounded .default (2 ^ 26)) none := by
  rw [Meets, if_pos (by decide)]
  constructor
  · intro c hc
    cases hc
  · intro _ _ hroomy
    exact absurd hroomy (by decide)

/-- A small request that returns, of which the scan chooses no block of a heap
that is owned. -/
theorem Step.small {o : Owners} {size : Nat} (hsize : size < 2 ^ 64)
    (hsmall : ¬ cfg.largeAllocation ≤ rounded cfg size)
    (hreturned : (MemoryBlockAllocator.allocate cfg env size alignment timeline
      o.session.alloc).1.toOption = some b)
    (hspares : ∀ c, (o.session.alloc.searched cfg env).choice (rounded cfg size) timeline = some c →
      ((o.session.alloc.searched cfg env).block c).heap ∉ o.owned.map Prod.fst) :
    Step cfg env o ⟨o.session.allocate cfg env size alignment timeline, o.owned⟩ := by
  have hmeets : o.Meets cfg env (rounded cfg size) timeline := by
    rw [Meets, if_neg hsmall]
    intro c hc n hn
    exact hspares c hc (List.mem_map_of_mem hn)
  unfold Session.allocate
  split
  · rename_i returned
    have hstep := Step.allocated hsize returned hmeets
    rw [if_neg hsmall] at hstep
    exact hstep
  · rename_i thrown
    rw [thrown] at hreturned
    cases hreturned

theorem served_reached : ReflTransGen (Step .default .generous) start served := by
  have hlarge := @Step.allocated .default .generous start _ 0 (2 ^ 26) 256 none (by decide) rfl
    start_meets
  have hsmall : Step .default .generous
      ⟨Session.empty.allocate .default .generous (2 ^ 26) 256 none, [(0, 2 ^ 26)]⟩ both :=
    .small (by decide) (by decide) (show _ = some 2 by decide) fun c hc => by cases hc
  have hrecycle := @Step.recycled .default .generous both [(2, [])] [] 0 [] [] rfl
    fun _ _ => .inl (by decide)
  have hagain : Step .default .generous ⟨both.session.recycle .generous 0 [], both.owned⟩ served :=
    .small (by decide) (by decide) (show _ = some 3 by decide) fun c hc => by
      obtain rfl := Option.some.inj ((show _ = some 1 by decide).symm.trans hc)
      decide
  exact (((ReflTransGen.single hlarge).tail hsmall).tail hrecycle).tail hagain

/-- The next large one gets the same heap, and what is promised holds. -/
theorem large_requests_served :
    (∃ a, MemoryBlockAllocator.allocate .default .generous (2 ^ 26) 256 none
        served.session.alloc = (.ok 0, a) ∧ a.pool.OwnsHeap (2 ^ 26) 0) ∧
    Promised .default .generous served := by
  constructor
  · have howns := (large_requests .default .generous).1 served.session (run_session served_reached)
      (2 ^ 26) 256 none 0 _ rfl (by decide)
    refine ⟨_, rfl, howns.mpr ⟨?_, ?_⟩⟩
    · intro c hc
      obtain rfl := Option.some.inj ((show _ = some 0 by decide).symm.trans hc)
      exact ⟨by decide, by decide⟩
    · intro hnone
      exact absurd hnone (by decide)
  · exact (large_requests .default .generous).2 served served_reached

/-- **A large request may be handed a part of a heap**: one of 64 MiB finds the
128 MiB that another one has given back. -/
theorem large_requests_fail : ∃ s b a,
    ReflTransGen (Session.Step .default .generous .any) Session.empty s ∧
    Config.default.largeAllocation ≤ rounded .default (2 ^ 26) ∧
    MemoryBlockAllocator.allocate .default .generous (2 ^ 26) 256 none s.alloc = (.ok b, a) ∧
    ¬ a.pool.OwnsHeap (rounded .default (2 ^ 26)) b := by
  have hallocate : Session.Step .default .generous .any Session.empty
      (Session.empty.allocate .default .generous (2 ^ 27) 256 none) :=
    Session.allocate_step 256 none _ (by decide : 2 ^ 27 < 2 ^ 64)
  have hrecycle := @Session.Step.recycled .default .generous .any
    (Session.empty.allocate .default .generous (2 ^ 27) 256 none) [] [] 0 [] [] rfl trivial
  refine ⟨_, 1, _, (ReflTransGen.single hallocate).tail hrecycle, by decide, rfl, ?_⟩
  intro h
  exact absurd h.heap (by decide)

end Owners

end RexlibCuda
