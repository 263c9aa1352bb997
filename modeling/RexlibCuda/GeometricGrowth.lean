import Mathlib.Data.Nat.Log
import RexlibCuda.GiveBack
import RexlibCuda.GrowthRetries
import RexlibCuda.LargeRequests

/-! How `memory_block_allocator` grows over whole runs: for small requests it
doubles until it holds what the biggest shared heap does. -/

namespace RexlibCuda

open Completion Prog

open Relation (ReflTransGen)

/-! ## What a pool holds -/

namespace MemoryBlockPool

variable {A : Nat} {strict : Prop} {o p q : MemoryBlockPool} {b : BlockId}

/-- The number of bytes in the heaps of the pool. -/
def held (p : MemoryBlockPool) : Nat := p.bytesOf p.heaps

/-- All that is known of heaps is the same. -/
structure SameHeaps (p q : MemoryBlockPool) : Prop where
  heaps : q.heaps = p.heaps
  heap : q.heap = p.heap
  size : q.size = p.size
  nextHeap : q.nextHeap = p.nextHeap

theorem SameHeaps.refl (p : MemoryBlockPool) : SameHeaps p p := ⟨rfl, rfl, rfl, rfl⟩

theorem SameHeaps.trans (h : SameHeaps o p) (h' : SameHeaps p q) : SameHeaps o q :=
  ⟨h'.heaps.trans h.heaps, h'.heap.trans h.heap, h'.size.trans h.size,
    h'.nextHeap.trans h.nextHeap⟩

theorem SameHeaps.held (h : SameHeaps p q) : q.held = p.held := by
  simp only [MemoryBlockPool.held, bytesOf, h.heaps, h.heap]

/-- What joins two pools with the same heaps leaves them with the same heaps. -/
theorem SameHeaps.registerHeap (h : SameHeaps p q) (heap : MemoryHeap) :
    SameHeaps (p.registerHeap heap).2 (q.registerHeap heap).2 := by
  constructor <;> simp [MemoryBlockPool.registerHeap, insertFree, addHeap, h.heaps, h.heap, h.size,
    h.nextHeap]

theorem release_sameHeaps (p : MemoryBlockPool) (b : BlockId) (t : CommandToken) :
    SameHeaps p (p.release b t) := by
  have hframe := p.release_frame b t
  exact ⟨hframe.heaps, hframe.heap, hframe.size, hframe.nextHeap⟩

theorem releaseAll_sameHeaps (blocks : RexlibCuda.Returns) :
    ∀ p : MemoryBlockPool, SameHeaps p (p.releaseAll blocks) := by
  induction blocks with
  | nil => exact .refl
  | cons x blocks ih => exact fun p => (release_sameHeaps p x.1 x.2).trans (ih _)

/-- A heap that joins the pool adds all of its bytes. -/
theorem WellFormed.held_registerHeap (hp : p.WellFormed A strict) (heap : MemoryHeap) :
    (p.registerHeap heap).2.held = p.held + heap.size := by
  show (p.addHeap heap).bytesOf (p.heaps ++ [p.nextHeap]) = p.bytesOf p.heaps + heap.size
  rw [bytesOf_append, bytesOf_congr fun g hg => addHeap_heap_of_mem hp hg]
  simp [addHeap_heap]

/-- `get_size` is what the pool holds where that does not wrap. -/
theorem WellFormed.getSize_eq (hp : p.WellFormed A strict) (hlt : p.held < 2 ^ 64) :
    p.getSize = p.held :=
  hp.total.trans (Nat.mod_eq_of_lt hlt)

end MemoryBlockPool

namespace MemoryBlockAllocator

open MemoryBlockPool (SameHeaps)

variable {cfg : Config} {env : Environment} {k : Clock Timeline}
  {touched : HeapId → Nat → Command → Prop} {strict : Prop} {rest : List BlockId} {r : Nat}
  {timeline : Option Timeline} {s t u : MemoryBlockAllocator} {b : BlockId}

/-! ## The size of the next heap -/

section HeapSize

variable {p size : Nat}

/-- The bounds on heaps fit together as those of `config.hpp` do. -/
structure Proportioned (cfg : Config) : Prop where
  positive : 0 < cfg.minHeap
  bounds : cfg.minHeap ≤ cfg.maxHeap
  large : cfg.largeAllocation ≤ cfg.maxHeap
  aligned : cfg.maxAlignment ∣ cfg.minHeap ∧ cfg.maxAlignment ∣ cfg.maxHeap ∧
    cfg.maxAlignment ∣ cfg.largeAllocation

variable (hcfg : Proportioned cfg) (hsmall : size < cfg.largeAllocation)

include hcfg

theorem Proportioned.room : cfg.maxHeap + cfg.maxAlignment ≤ 2 ^ 64 := by
  obtain ⟨k, hk, hpow⟩ := cfg.maxAlignment_pow
  have haligned := hcfg.aligned.2.1
  rw [hpow] at haligned ⊢
  exact add_le_of_aligned hk cfg.maxHeap_lt haligned

include hsmall

/-- A pool that holds no more than the biggest shared heap is at least doubled,
by no less than the smallest. -/
theorem le_getHeapSize (hp : p ≤ cfg.maxHeap) : max p cfg.minHeap ≤ getHeapSize cfg p size := by
  have hroom := hcfg.room
  have hbounds := hcfg.bounds
  have hlarge := hcfg.large
  -- no bound from above has any effect
  have hclamp : min (max (max p size) cfg.minHeap) cfg.maxHeap = max (max p size) cfg.minHeap := by
    omega
  have hceil := (cfg.le_alignCeil (x := max (max p size) cfg.minHeap) (by omega)).1
  simp only [getHeapSize, if_neg (Nat.not_le_of_lt hsmall), hclamp]
  omega

/-- One that holds more is given the biggest shared heap. -/
theorem getHeapSize_eq (hp : cfg.maxHeap < p) : getHeapSize cfg p size = cfg.maxHeap := by
  have hroom := hcfg.room
  have hlarge := hcfg.large
  have hclamp : min (max (max p size) cfg.minHeap) cfg.maxHeap = cfg.maxHeap := by omega
  have hceil : alignCeil cfg.maxHeap cfg.maxAlignment = cfg.maxHeap :=
    Nat.le_antisymm (cfg.alignCeil_le hroom (Nat.le_refl _) hcfg.aligned.2.1)
      (cfg.le_alignCeil hroom).1
  simp only [getHeapSize, if_neg (Nat.not_le_of_lt hsmall), hclamp, hceil]
  omega

end HeapSize

/-! ## What a call does to the heaps -/

/-- The heaps are what they were, and the source has not been asked. -/
structure Steady (s t : MemoryBlockAllocator) : Prop where
  told : Told [] s t
  pool : SameHeaps s.pool t.pool

/-- A heap of this size was asked for, and has joined the pool. -/
structure Grew (cfg : Config) (heapSize : Nat) (s t : MemoryBlockAllocator) (a : Nat) : Prop where
  told : Told [(heapSize + padding cfg cfg.maxAlignment, .region a)] s t
  pool : SameHeaps (s.pool.registerHeap ⟨a, alignCeil a cfg.maxAlignment, heapSize⟩).2 t.pool

/-- What a call of `allocate` may do to the heaps where its source always gives
what it is asked for. -/
inductive Outcome (cfg : Config) (env : Environment) (r : Nat) (s t : MemoryBlockAllocator) :
    Prop where
  | refused (host : HostRefused env s t)
  | steady (same : Steady s t)
  | grew {a : Nat} (grown : Grew cfg (getHeapSize cfg s.pool.getSize r) s t a)

theorem Steady.refl (s : MemoryBlockAllocator) : Steady s s := ⟨⟨[], rfl, rfl⟩, .refl _⟩

theorem Steady.trans (h : Steady s t) (h' : Steady t u) : Steady s u :=
  ⟨h.told.trans h'.told, h.pool.trans h'.pool⟩

/-- Before anything is done to the heaps. -/
theorem Outcome.after (h : Outcome cfg env r t u) (hst : Steady s t) : Outcome cfg env r s u := by
  cases h with
  | refused host => exact .refused (host.earlier hst.told.suffix)
  | steady same => exact .steady (hst.trans same)
  | grew grown =>
      have hsize : t.pool.getSize = s.pool.getSize := hst.pool.size
      rw [hsize] at grown
      exact .grew ⟨hst.told.trans grown.told, (hst.pool.registerHeap _).trans grown.pool⟩

/-- Once it has been done. -/
theorem Outcome.before (h : Outcome cfg env r s t) (htu : Steady t u) : Outcome cfg env r s u := by
  cases h with
  | refused host => exact .refused (host.later htu.told.suffix)
  | steady same => exact .steady (same.trans htu)
  | grew grown => exact .grew ⟨grown.told.trans htu.told, grown.pool.trans htu.pool⟩

theorem Told.ofAsks {es : List Event} (hasks : ∀ e ∈ es, ¬ e.OfSource)
    (htrace : t.trace = es ++ s.trace) : Told [] s t := by
  refine ⟨es, htrace, List.filterMap_eq_nil_iff.mpr fun e he => ?_⟩
  have hnone := hasks e (List.mem_reverse.mp he)
  cases e with
  | sourceAllocate bytes answer => exact absurd trivial hnone
  | _ => rfl

/-! ## One call -/

theorem process_steady (s : MemoryBlockAllocator) :
    wp (process cfg env) (fun _ t => Steady s t) (fun _ t => Steady s t) s := by
  have hspec : wp (process cfg env) _ _ s := process_spec (Permanent.always env)
  refine wp_mono hspec ?_ ?_
  · rintro _ t ⟨queries, lefts, hasks, -, rfl⟩
    refine ⟨.ofAsks ?_ (List.append_assoc ..).symm, MemoryBlockPool.releaseAll_sameHeaps _ _⟩
    intro e he
    rcases List.mem_append.mp he with he | he
    · obtain ⟨x, -, rfl⟩ := List.mem_map.mp (List.mem_reverse.mp he)
      exact id
    · exact (hasks e he).not_ofSource
  · rintro e t ⟨queries, front, item, behind, lefts, hasks, -, -, -, rfl⟩
    exact ⟨.ofAsks (fun e he => (hasks e he).not_ofSource) rfl, .refl _⟩

theorem cutTo_steady (r : Nat) (b : BlockId) (s : MemoryBlockAllocator) :
    wp (cutTo env r b) (fun _ t => Steady s t) (fun _ t => Steady s t) s := by
  simp only [cutTo, partitionBlock, wp_bind, wp_get, wp_ite, wp_hostAllocate, wp_modify, wp_pure]
  split
  · split
    · exact ⟨⟨[.hostAllocate true], rfl, rfl⟩, ⟨rfl, rfl, rfl, rfl⟩⟩
    · exact ⟨⟨[.hostAllocate false], rfl, rfl⟩, ⟨rfl, rfl, rfl, rfl⟩⟩
  · exact .refl s

theorem recycle_steady (env : Environment) (b : BlockId) (tokens : List CommandToken)
    (s : MemoryBlockAllocator) : Steady s (recycle env b tokens s).2 := by
  have hquiet : ∀ {hosts : List Event} {e : Event},
      (∀ e ∈ hosts, ∃ granted, e = Event.hostAllocate granted) → e ∈ hosts → ¬ e.OfSource := by
    intro hosts e hhosts he
    obtain ⟨granted, rfl⟩ := hhosts e he
    exact id
  rcases recycle_spec env b tokens s with ⟨-, hfinal⟩ | ⟨hosts, hhosts, hfinal | hfinal⟩
  · rw [hfinal]
    exact ⟨⟨[.released b], rfl, rfl⟩, MemoryBlockPool.release_sameHeaps ..⟩
  · rw [hfinal]
    exact ⟨.ofAsks (fun e => hquiet hhosts) rfl, .refl _⟩
  · rw [hfinal]
    refine ⟨.trans (.ofAsks (t := { s with trace := hosts ++ s.trace }) (fun e => hquiet hhosts) rfl)
      ⟨[.lost b], rfl, rfl⟩, .refl _⟩

section Grow

variable (hsource : ∀ n bytes, ∃ a, env.sourceAllocate n bytes = .region a) (hpos : 0 < r)
  (hlt : r < 2 ^ 64) (hal : cfg.maxAlignment ∣ r)

include hsource hpos hlt hal

/-- **The first heap that is asked for is the one that is had**, unless the host
has no memory for it. -/
theorem grow_outcome (s : MemoryBlockAllocator) :
    wp (grow cfg env r) (fun _ t => Outcome cfg env r s t)
      (fun e t => Outcome cfg env r s t ∧ (e = .badAlloc → HostRefused env s t)) s := by
  have hfirst := @Askable.first cfg r hlt hal s.pool.getSize
  show wp (growLoop cfg env r env.fuel _) _ _ s
  cases env.fuel with
  | zero => exact ⟨.steady (.refl s), by simp⟩
  | succ fuel =>
      simp only [growLoop, wp_tryCatch]
      refine wp_mono (takeHeap_told hpos hfirst s) ?_ ?_
      · rintro b t ⟨a, htold, -, hpool⟩
        exact .grew ⟨htold, hpool ▸ .refl _⟩
      · intro e t hround
        have hrefused : HostRefused env s t := by
          cases hround with
          | host refused told asked => exact refused
          | @source n answer answered told refused =>
              obtain ⟨a, hregion⟩ := hsource n
                (getHeapSize cfg s.pool.getSize r + padding cfg cfg.maxAlignment)
              obtain rfl := answered.symm.trans hregion
              simp at refused
        have hlater : ∀ {u : MemoryBlockAllocator}, t.trace <:+ u.trace → HostRefused env s u :=
          hrefused.later
        cases e with
        | badAlloc =>
            show wp (if _ ≤ r then Prog.throw Exn.badAlloc else _) _ _ t
            split
            · exact ⟨.refused hrefused, fun _ => hrefused⟩
            · -- what is asked for from here on does not matter
              have hrest := @growLoop_requested cfg env r hpos hlt hal fuel _ t
                (Askable.next hlt hal (getHeapSize cfg s.pool.getSize r))
              refine wp_mono hrest ?_ ?_
              · rintro b u ⟨sizes, ⟨requests, htold, -⟩, -⟩
                exact .refused (hlater htold.suffix)
              · rintro e u ⟨sizes, ⟨requests, htold, -⟩, -⟩
                exact ⟨.refused (hlater htold.suffix), fun _ => hlater htold.suffix⟩
        | _ => exact ⟨.refused hrefused, by simp⟩

variable (hs : Sound cfg k touched strict rest s) (henv : Truthful k env) (hr : strict → 0 < r)

include hs henv hr

theorem chooseBlock_outcome :
    wp (chooseBlock cfg env r timeline) (fun _ t => Outcome cfg env r s t)
      (fun _ t => Outcome cfg env r s t) s := by
  apply hs.wp_chooseBlock
  · exact fun _ _ _ _ => .steady (.refl s)
  · intro _ _
    have hgrow : Tracks (Internal cfg env True r) (grow cfg env r) _ s := grow_tracks hlt hal
    refine wp_mono (wp_and hgrow (grow_outcome hsource hpos hlt hal s)) ?_ ?_
    · intro b t h
      exact h.2
    · intro e t h
      obtain ⟨hst, houtcome, hrefused⟩ := h
      refine ⟨fun hbad => ?_, fun _ => houtcome⟩
      -- only the host can have refused, and the trim does not hide that
      have ht := (hs.run henv hr hst).1
      have hlater : ∀ {u}, ReflTransGen (Internal cfg env True r) t u → Outcome cfg env r s u :=
        fun htu => .refused ((hrefused hbad).later (ht.run henv hr htu).2.trace)
      have hretry : Tracks (Internal cfg env True r) (retry cfg env r timeline) _ t :=
        retry_tracks ht henv hr hlt hal trivial
      exact wp_mono hretry (fun _ _ h => hlater h.1) fun _ _ h => hlater h

/-- **What `allocate` does to the heaps**: nothing, or it adds the one heap
`get_heap_size` tells, unless the host has no memory. -/
theorem allocate_outcome {size alignment : Nat}
    (hsize : alignCeil (max size 1) cfg.maxAlignment = r) :
    wp (allocate cfg env size alignment timeline) (fun _ t => Outcome cfg env r s t)
      (fun _ t => Outcome cfg env r s t) s := by
  apply hs.wp_allocate henv hr
  · exact fun _ _ => .steady (.refl s)
  · exact wp_mono (process_steady s) (fun _ _ h => h) fun _ _ h => .steady h
  · intro t (_ : ReflTransGen (Internal cfg env True r) s t) ht hsteady
    simp only [hsize, acquireBlock, wp_bind, wp_modify, wp_pure]
    have hchoose : wp (chooseBlock cfg env r timeline) _ _ t :=
      chooseBlock_outcome hsource hpos hlt hal ht henv hr
    refine wp_mono hchoose ?_ fun _ _ houtcome => houtcome.after hsteady
    intro b u houtcome
    have hsu := houtcome.after hsteady
    refine wp_mono (cutTo_steady r b u) ?_ fun _ _ huv => hsu.before huv
    intro c v huv
    exact (hsu.before huv).before ⟨⟨[.acquired c], rfl, rfl⟩, ⟨rfl, rfl, rfl, rfl⟩⟩

end Grow

end MemoryBlockAllocator

/-! ## Whole runs -/

/-- A call of `allocate`: the request rounded up, what the pool held before and
after the call, and what the source was asked for in it. -/
structure AllocateCall where
  size : Nat
  before : Nat
  after : Nat
  asked : List SourceRequest

namespace AllocateCall

/-- The pool grew in the call, and the request was a small one. -/
def isSmallGrowth (cfg : Config) (c : AllocateCall) : Bool :=
  decide (c.before < c.after) && decide (c.size < cfg.largeAllocation)

/-- The pool grew by one heap, which the source was asked for once, or not at
all. -/
inductive Explained (cfg : Config) (c : AllocateCall) : Prop where
  | steady (asked : c.asked = []) (after : c.after = c.before)
  | grew {a heapSize : Nat} (sized : heapSize = MemoryBlockAllocator.getHeapSize cfg c.before c.size)
      (positive : 0 < heapSize)
      (asked : c.asked
        = [(heapSize + MemoryBlockAllocator.padding cfg cfg.maxAlignment, .region a)])
      (after : c.after = c.before + heapSize)

end AllocateCall

/-- The calls in which the pool grew for a small request. -/
def smallGrowths (cfg : Config) (calls : List AllocateCall) : List AllocateCall :=
  calls.filter (AllocateCall.isSmallGrowth cfg)

/-- Those of them in which it held no more than the biggest shared heap does. -/
def earlyGrowths (cfg : Config) (calls : List AllocateCall) : List AllocateCall :=
  (smallGrowths cfg calls).filter fun c => c.before ≤ cfg.maxHeap

/-- A call in which the host had the memory. -/
theorem MemoryBlockAllocator.Outcome.explained {cfg : Config} {env : Environment} {A r : Nat}
    {strict : Prop} {s t : MemoryBlockAllocator} {es : List Event}
    (h : MemoryBlockAllocator.Outcome cfg env r s t) (hpos : 0 < r) (hlt : r < 2 ^ 64)
    (hal : cfg.maxAlignment ∣ r) (hwf : s.pool.WellFormed A strict) (hheld : s.pool.held < 2 ^ 64)
    (htold : t.trace = es ++ s.trace) (hhost : .hostAllocate false ∉ es) :
    AllocateCall.Explained cfg ⟨r, s.pool.held, t.pool.held, sourceRequests es⟩ := by
  have hasked : Told (sourceRequests es) s t := ⟨es, htold, rfl⟩
  cases h with
  | refused host =>
      obtain ⟨-, es', htold', hrefused⟩ := host
      rw [htold, List.append_cancel_right_eq] at htold'
      exact absurd (htold' ▸ hrefused) hhost
  | steady same => exact .steady (hasked.unique same.told) same.pool.held
  | grew grown =>
      rw [hwf.getSize_eq hheld] at grown
      have hfirst := @Askable.first cfg r hlt hal s.pool.held
      refine .grew rfl (Nat.lt_of_lt_of_le hpos hfirst.enough) (hasked.unique grown.told) ?_
      exact grown.pool.held.trans (hwf.held_registerHeap _)

section Doubling

open MemoryBlockAllocator (Proportioned getHeapSize le_getHeapSize getHeapSize_eq)

variable {cfg : Config} {c : AllocateCall} {calls : List AllocateCall} {held : Nat}

theorem AllocateCall.Explained.le (h : c.Explained cfg) : c.before ≤ c.after := by
  cases h with
  | steady asked after => exact Nat.le_of_eq after.symm
  | grew sized positive asked after => exact after ▸ Nat.le_add_right _ _

theorem AllocateCall.Explained.requests (h : c.Explained cfg) :
    c.before ≤ c.after ∧ c.asked.length = if c.before < c.after then 1 else 0 := by
  refine ⟨h.le, ?_⟩
  cases h with
  | steady asked after => simp [asked, after]
  | grew sized positive asked after => simp [asked, after, positive]

/-- A small growth adds the heap `get_heap_size` tells. -/
theorem AllocateCall.Explained.small (h : c.Explained cfg) (hsmall : c.isSmallGrowth cfg = true) :
    c.size < cfg.largeAllocation ∧ c.after = c.before + getHeapSize cfg c.before c.size := by
  simp only [isSmallGrowth, Bool.and_eq_true, decide_eq_true_eq] at hsmall
  cases h with
  | steady asked after => omega
  | grew sized positive asked after => exact ⟨hsmall.2, sized ▸ after⟩

/-- **One small growth** at least doubles the pool up to the size of the biggest
shared heap, and adds just that from there on. -/
theorem AllocateCall.Explained.growth (h : c.Explained cfg) (hcfg : Proportioned cfg)
    (hsmall : c.isSmallGrowth cfg = true) :
    (c.before ≤ cfg.maxHeap → max (2 * c.before) cfg.minHeap ≤ c.after) ∧
      (cfg.maxHeap < c.before → c.after = c.before + cfg.maxHeap) := by
  obtain ⟨hsize, hafter⟩ := h.small hsmall
  constructor
  · intro hle
    have hheap := le_getHeapSize hcfg hsize hle
    omega
  · intro hlt
    rw [hafter, getHeapSize_eq hcfg hsize hlt]

/-- **How far the pool has come after some calls**, `held` being what it holds. -/
structure Doubled (cfg : Config) (calls : List AllocateCall) (held : Nat) : Prop where
  least : 0 < (smallGrowths cfg calls).length →
    min (2 ^ ((smallGrowths cfg calls).length - 1) * cfg.minHeap) cfg.maxHeap ≤ held
  early : 0 < (earlyGrowths cfg calls).length →
    2 ^ ((earlyGrowths cfg calls).length - 1) * cfg.minHeap ≤ held
  few : (earlyGrowths cfg calls).length ≤ Nat.log 2 (cfg.maxHeap / cfg.minHeap) + 2

theorem Doubled.nil : Doubled cfg [] held where
  least h := by simp [smallGrowths] at h
  early h := by simp [earlyGrowths, smallGrowths] at h
  few := Nat.zero_le _

/-- A call in which nothing grows for a small request takes nothing away. -/
theorem Doubled.other (h : Doubled cfg calls c.before) (hle : c.before ≤ c.after)
    (hsmall : c.isSmallGrowth cfg = false) : Doubled cfg (calls ++ [c]) c.after := by
  have hsame : smallGrowths cfg (calls ++ [c]) = smallGrowths cfg calls := by
    simp [smallGrowths, hsmall]
  have hsame' : earlyGrowths cfg (calls ++ [c]) = earlyGrowths cfg calls := by
    rw [earlyGrowths, hsame, earlyGrowths]
  constructor
  · rw [hsame]
    exact fun hn => Nat.le_trans (h.least hn) hle
  · rw [hsame']
    exact fun hn => Nat.le_trans (h.early hn) hle
  · rw [hsame']
    exact h.few

theorem two_pow_mul {n : Nat} (hpos : 0 < n) (least : Nat) :
    2 ^ n * least = 2 * (2 ^ (n - 1) * least) := by
  obtain ⟨m, rfl⟩ := Nat.exists_eq_add_one_of_ne_zero (Nat.ne_of_gt hpos)
  rw [Nat.add_sub_cancel, Nat.pow_succ', Nat.mul_assoc]

section SmallGrowth

variable (h : Doubled cfg calls c.before) (hcfg : Proportioned cfg) (hc : c.Explained cfg)
  (hsmall : c.isSmallGrowth cfg = true)

include hsmall

theorem smallGrowths_concat : smallGrowths cfg (calls ++ [c]) = smallGrowths cfg calls ++ [c] := by
  simp [smallGrowths, hsmall]

theorem earlyGrowths_concat (hle : c.before ≤ cfg.maxHeap) :
    earlyGrowths cfg (calls ++ [c]) = earlyGrowths cfg calls ++ [c] := by
  simp [earlyGrowths, smallGrowths_concat hsmall, hle]

theorem earlyGrowths_late (hlt : cfg.maxHeap < c.before) :
    earlyGrowths cfg (calls ++ [c]) = earlyGrowths cfg calls := by
  simp [earlyGrowths, smallGrowths_concat hsmall, hlt]

include h hcfg hc

theorem Doubled.least_growth :
    min (2 ^ (smallGrowths cfg calls).length * cfg.minHeap) cfg.maxHeap ≤ c.after := by
  obtain ⟨hdouble, -⟩ := hc.growth hcfg hsmall
  have hleast := h.least
  have hle := hc.le
  generalize (smallGrowths cfg calls).length = n at hleast ⊢
  rcases Nat.lt_or_ge cfg.maxHeap c.before with hlt | hge
  · omega
  · have hafter := hdouble hge
    rcases Nat.eq_zero_or_pos n with rfl | hpos
    · simp only [Nat.pow_zero, Nat.one_mul]
      omega
    · have htwice := two_pow_mul hpos cfg.minHeap
      have hbefore := hleast hpos
      omega

theorem Doubled.early_growth (hle : c.before ≤ cfg.maxHeap) :
    2 ^ (earlyGrowths cfg calls).length * cfg.minHeap ≤ c.after := by
  have hafter := (hc.growth hcfg hsmall).1 hle
  have hearly := h.early
  generalize (earlyGrowths cfg calls).length = n at hearly ⊢
  rcases Nat.eq_zero_or_pos n with rfl | hpos
  · simp only [Nat.pow_zero, Nat.one_mul]
    omega
  · have htwice := two_pow_mul hpos cfg.minHeap
    have hbefore := hearly hpos
    omega

omit hc hsmall in
/-- There have not been many early growths before one. -/
theorem Doubled.few_growth (hle : c.before ≤ cfg.maxHeap) :
    (earlyGrowths cfg calls).length ≤ Nat.log 2 (cfg.maxHeap / cfg.minHeap) + 1 := by
  have hearly := h.early
  generalize (earlyGrowths cfg calls).length = n at hearly ⊢
  rcases Nat.eq_zero_or_pos n with rfl | hpos
  · exact Nat.zero_le _
  · have hquotient : 2 ^ (n - 1) ≤ cfg.maxHeap / cfg.minHeap :=
      (Nat.le_div_iff_mul_le hcfg.positive).mpr (Nat.le_trans (hearly hpos) hle)
    have hlog := Nat.le_log_of_pow_le (by decide) hquotient
    omega

/-- **A small growth doubles once more.** -/
theorem Doubled.growth : Doubled cfg (calls ++ [c]) c.after where
  least _ := by
    rw [smallGrowths_concat hsmall, List.length_append, List.length_singleton, Nat.add_sub_cancel]
    exact h.least_growth hcfg hc hsmall
  early hpos := by
    rcases Nat.lt_or_ge cfg.maxHeap c.before with hlt | hge
    · rw [earlyGrowths_late hsmall hlt] at hpos ⊢
      exact Nat.le_trans (h.early hpos) hc.le
    · rw [earlyGrowths_concat hsmall hge, List.length_append, List.length_singleton,
        Nat.add_sub_cancel]
      exact h.early_growth hcfg hc hsmall hge
  few := by
    rcases Nat.lt_or_ge cfg.maxHeap c.before with hlt | hge
    · rw [earlyGrowths_late hsmall hlt]
      exact h.few
    · rw [earlyGrowths_concat hsmall hge, List.length_append, List.length_singleton]
      exact Nat.succ_le_succ (h.few_growth hcfg hge)

end SmallGrowth

end Doubling

namespace Session

open MemoryBlockAllocator (Outcome Proportioned padding)

variable {cfg : Config} {env : Environment} {calls : List AllocateCall} {s t : Session}
  {size alignment : Nat} {timeline : Option Timeline}

/-- **A run of calls of `allocate` and `recycle`**, with what is told of each
call of `allocate`. Nothing wraps, and the host has the memory `allocate` asks
it for. -/
inductive Growing (cfg : Config) (env : Environment) : List AllocateCall → Session → Prop
  | start : Growing cfg env [] .empty
  | allocated {calls : List AllocateCall} {s : Session} {size alignment : Nat} {timeline : Option Timeline}
      {es : List Event} (run : Growing cfg env calls s) (sized : size ≤ 2 ^ 64 - cfg.maxAlignment)
      (told : (s.allocate cfg env size alignment timeline).alloc.trace = es ++ s.alloc.trace)
      (host : .hostAllocate false ∉ es)
      (fits : (s.allocate cfg env size alignment timeline).alloc.pool.held < 2 ^ 64) :
      Growing cfg env
        (calls ++ [{
          size := rounded cfg size
          before := s.alloc.pool.held
          after := (s.allocate cfg env size alignment timeline).alloc.pool.held
          asked := sourceRequests es }])
        (s.allocate cfg env size alignment timeline)
  | recycled {calls : List AllocateCall} {s : Session} {before after : List (BlockId × List Command)}
      {b : BlockId} {commands : List Command} {tokens : List CommandToken}
      (run : Growing cfg env calls s) (has : s.out = before ++ (b, commands) :: after) :
      Growing cfg env calls { s with
        alloc := (MemoryBlockAllocator.recycle env b tokens s.alloc).2
        out := before ++ after }
  /-- Time passes. -/
  | passed {calls : List AllocateCall} {s : Session} (run : Growing cfg env calls s) :
      Growing cfg env calls { s with alloc := s.alloc.log .passed }

theorem Growing.reached (h : Growing cfg env calls s) :
    ReflTransGen (Step cfg env (.sized cfg)) Session.empty s := by
  induction h with
  | start => exact .refl
  | allocated run sized told host fits ih => exact ih.tail (allocate_step _ _ _ sized)
  | recycled run has ih => exact ih.tail (.recycled has trivial)
  | passed run ih => exact ih.tail (.asked trivial)

theorem Growing.held_lt (h : Growing cfg env calls s) : s.alloc.pool.held < 2 ^ 64 := by
  induction h with
  | start => decide
  | allocated run sized told host fits ih => exact fits
  | @recycled calls s before after b commands tokens run has ih =>
      have hsteady := MemoryBlockAllocator.recycle_steady env b tokens s.alloc
      exact hsteady.pool.held ▸ ih
  | passed run ih => exact ih

/-- **What `allocate` does to the heaps**, as a step of the session. -/
theorem Growing.outcome (h : Growing cfg env calls s)
    (hsource : ∀ n bytes, ∃ a, env.sourceAllocate n bytes = .region a)
    (hsized : size ≤ 2 ^ 64 - cfg.maxAlignment) :
    Outcome cfg env (rounded cfg size) s.alloc
      (s.allocate cfg env size alignment timeline).alloc := by
  have hsound := Sound.reached h.reached
  have houtcome : wp (MemoryBlockAllocator.allocate cfg env size alignment timeline) _ _ s.alloc :=
    MemoryBlockAllocator.allocate_outcome hsource (Contract.sized_pos hsized) (cfg.alignCeil_lt _)
      (cfg.alignCeil_dvd _) hsound.alloc (.always env) (fun h => h.elim) rfl
  have hfinal := wp_final (P := Outcome cfg env (rounded cfg size) s.alloc) houtcome
  unfold allocate
  split
  · rename_i hreturned
    rwa [hreturned] at hfinal
  · rename_i hthrown
    rwa [hthrown] at hfinal

theorem Growing.explained (h : Growing cfg env calls s)
    (hsource : ∀ n bytes, ∃ a, env.sourceAllocate n bytes = .region a) :
    ∀ c ∈ calls, c.Explained cfg := by
  induction h with
  | start => simp
  | @allocated calls s size alignment timeline es run sized told host fits ih =>
      intro c hc
      rcases List.mem_append.mp hc with hc | hc
      · exact ih c hc
      · obtain rfl := List.mem_singleton.mp hc
        have hwf := (Sound.reached run.reached).alloc.coherent.wellFormed
        exact (run.outcome hsource sized).explained (Contract.sized_pos sized)
          (cfg.alignCeil_lt _) (cfg.alignCeil_dvd _) hwf run.held_lt told host
  | recycled run has ih => exact ih
  | passed run ih => exact ih

/-- **The pool doubles all along a run.** -/
theorem Growing.doubled (h : Growing cfg env calls s)
    (hsource : ∀ n bytes, ∃ a, env.sourceAllocate n bytes = .region a)
    (hcfg : Proportioned cfg) : Doubled cfg calls s.alloc.pool.held := by
  induction h with
  | start => exact .nil
  | @allocated calls s size alignment timeline es run sized told host fits ih =>
      have hc := (Growing.allocated run sized told host fits).explained hsource _
        (List.mem_append_right calls List.mem_cons_self)
      cases hsmall : AllocateCall.isSmallGrowth cfg _ with
      | true => exact Doubled.growth ih hcfg hc hsmall
      | false => exact Doubled.other ih hc.le hsmall
  | @recycled calls s before after b commands tokens run has ih =>
      have hsteady := MemoryBlockAllocator.recycle_steady env b tokens s.alloc
      exact hsteady.pool.held ▸ ih
  | passed run ih => exact ih

/-- **Growth is geometric.** In a run in which nothing is refused and nothing
wraps, the source is asked once each time the pool grows. A small request that
makes it grow at least doubles it, by no less than the smallest heap, up to the
size of the biggest shared heap, and adds one of those from there on. So after
`n` of them the pool holds at least that or the smallest heap doubled `n - 1`
times, whatever large requests came in between, and there are only so many
until it does. -/
theorem geometric_growth (hcfg : Proportioned cfg)
    (hsource : ∀ n bytes, ∃ a, env.sourceAllocate n bytes = .region a)
    (hrun : Growing cfg env calls s) :
    (∀ c ∈ calls, c.before ≤ c.after ∧ c.asked.length = if c.before < c.after then 1 else 0) ∧
    (∀ c ∈ smallGrowths cfg calls,
      (c.before ≤ cfg.maxHeap → max (2 * c.before) cfg.minHeap ≤ c.after) ∧
      (cfg.maxHeap < c.before → c.after = c.before + cfg.maxHeap)) ∧
    (1 ≤ (smallGrowths cfg calls).length →
      min (2 ^ ((smallGrowths cfg calls).length - 1) * cfg.minHeap) cfg.maxHeap
        ≤ s.alloc.pool.held) ∧
    (earlyGrowths cfg calls).length ≤ Nat.log 2 (cfg.maxHeap / cfg.minHeap) + 2 := by
  have hexplained := hrun.explained hsource
  have hdoubled := hrun.doubled hsource hcfg
  refine ⟨fun c hc => (hexplained c hc).requests, ?_, hdoubled.least, hdoubled.few⟩
  intro c hc
  obtain ⟨hc, hsmall⟩ := List.mem_filter.mp hc
  exact (hexplained c hc).growth hcfg hsmall

/-- Two small requests with a large one in between, none of which is given
back: how far the run has come after `n` of the three. -/
def mixed : Nat → Session
  | 0 => .empty
  | n + 1 =>
      (mixed n).allocate .default .generous ([2 <<< 20, 64 <<< 20, 1024].getD n 0) 256 none

/-- The second small request doubles what the first and the large one took. -/
theorem geometric_growth_mixed : ∃ calls, Growing .default .generous calls (mixed 3) ∧
    (mixed 3).alloc.pool.held = 132 <<< 20 ∧ (smallGrowths .default calls).length = 2 ∧
    (earlyGrowths .default calls).length ≤ 11 ∧
    ∀ c ∈ smallGrowths .default calls, c.before ≤ 1 <<< 30 → 2 * c.before ≤ c.after := by
  have hcfg : Proportioned .default := ⟨by decide, by decide, by decide, by decide⟩
  have hsource : ∀ n bytes, ∃ a, Environment.generous.sourceAllocate n bytes = .region a :=
    fun n _ => ⟨(n + 1) * 2 ^ 40, rfl⟩
  have hfirst := @Growing.allocated .default .generous [] (mixed 0) (2 <<< 20) 256 none
    ((mixed 1).alloc.trace.take 5) .start (by decide) rfl (by decide) (by decide)
  have hsecond := @Growing.allocated .default .generous _ (mixed 1) (64 <<< 20) 256 none
    ((mixed 2).alloc.trace.take 5) hfirst (by decide) rfl (by decide) (by decide)
  have hthird := @Growing.allocated .default .generous _ (mixed 2) 1024 256 none
    ((mixed 3).alloc.trace.take 6) hsecond (by decide) rfl (by decide) (by decide)
  obtain ⟨-, hgrowth, -, hfew⟩ := geometric_growth hcfg hsource hthird
  have hlog : Nat.log 2 (Config.default.maxHeap / Config.default.minHeap) = 9 :=
    Nat.log_pow (by decide) 9
  rw [hlog] at hfew
  refine ⟨_, hthird, rfl, by decide, hfew, ?_⟩
  intro c hc hle
  exact Nat.le_trans (Nat.le_max_left _ _) ((hgrowth c hc).1 hle)

end Session

end RexlibCuda
