import RexlibCuda.HeapRange
import RexlibCuda.HeapOwnership
import RexlibCuda.OutOfMemory

/-! The heap sizes `memory_block_allocator::grow` asks its source for until it
is given one: each is less than the one before, and none is less than what was
requested. -/

namespace RexlibCuda

open Prog

/-- What a source was asked for, and its answer. -/
abbrev SourceRequest := Nat × SourceAnswer

def Event.sourceRequest : Event → Option SourceRequest
  | .sourceAllocate bytes answer => some (bytes, answer)
  | _ => none

/-- The requests to the source among some events, the first one first. -/
def sourceRequests (es : List Event) : List SourceRequest :=
  es.reverse.filterMap Event.sourceRequest

theorem sourceRequests_append (es es' : List Event) :
    sourceRequests (es ++ es') = sourceRequests es' ++ sourceRequests es := by
  simp [sourceRequests]

namespace MemoryBlockAllocator

variable {cfg : Config} {env : Environment} {size heapSize top fuel : Nat}
  {sizes : List Nat} {s t u : MemoryBlockAllocator}

/-! ## The next size to ask for -/

/-- What `grow` asks for after `heapSize` has been refused. -/
def nextHeapSize (cfg : Config) (size heapSize : Nat) : Nat :=
  max size (alignCeil (heapSize / 2) cfg.maxAlignment)

/-- A heap size that is worth asking for. -/
structure Askable (cfg : Config) (size heapSize : Nat) : Prop where
  enough : size ≤ heapSize
  aligned : cfg.maxAlignment ∣ heapSize
  below : heapSize < 2 ^ 64

theorem Askable.first (hlt : size < 2 ^ 64) (hal : cfg.maxAlignment ∣ size) (poolSize : Nat) :
    Askable cfg size (getHeapSize cfg poolSize size) := by
  obtain ⟨henough, hbelow, haligned⟩ := getHeapSize_spec poolSize hlt hal
  exact ⟨henough, haligned, hbelow⟩

theorem Askable.next (hlt : size < 2 ^ 64) (hal : cfg.maxAlignment ∣ size) (heapSize : Nat) :
    Askable cfg size (nextHeapSize cfg size heapSize) where
  enough := Nat.le_max_left _ _
  aligned := by
    have hceil := cfg.alignCeil_dvd (heapSize / 2)
    rcases Nat.le_total (alignCeil (heapSize / 2) cfg.maxAlignment) size with h | h
    · rwa [nextHeapSize, Nat.max_eq_left h]
    · rwa [nextHeapSize, Nat.max_eq_right h]
  below := Nat.max_lt.mpr ⟨hlt, cfg.alignCeil_lt _⟩

/-- **Halving and rounding up comes down**, as there is a whole alignment
between a size that is more than enough and what is enough. -/
theorem nextHeapSize_lt (hpos : 0 < size) (hal : cfg.maxAlignment ∣ size)
    (ha : Askable cfg size heapSize) (hgt : size < heapSize) :
    nextHeapSize cfg size heapSize < heapSize := by
  have hmax := cfg.maxAlignment_le
  have halign := cfg.maxAlignment_pos
  have hbelow := ha.below
  have hsize : cfg.maxAlignment ≤ size := Nat.le_of_dvd hpos hal
  have hroom : size + cfg.maxAlignment ≤ heapSize :=
    Nat.le_of_lt_add_of_dvd (by omega) (Nat.dvd_add hal (Nat.dvd_refl _)) ha.aligned
  have hceil : alignCeil (heapSize / 2) cfg.maxAlignment ≤ heapSize - cfg.maxAlignment :=
    cfg.alignCeil_le (by omega) (by omega) (Nat.dvd_sub ha.aligned (Nat.dvd_refl _))
  exact Nat.max_lt.mpr ⟨hgt, by omega⟩

/-! ## What is asked for -/

/-- Sizes that were asked for one after the other, none of them over `top`. -/
structure Descent (cfg : Config) (size top : Nat) (sizes : List Nat) : Prop where
  falls : sizes.Pairwise (· > ·)
  askable : ∀ h ∈ sizes, Askable cfg size h
  top : ∀ h ∈ sizes, h ≤ top

theorem Descent.nil : Descent cfg size top [] := ⟨.nil, by simp, by simp⟩

theorem Descent.cons (ha : Askable cfg size top) (h : Descent cfg size heapSize sizes)
    (hlt : heapSize < top) : Descent cfg size top (top :: sizes) where
  falls := by
    refine List.pairwise_cons.mpr ⟨?_, h.falls⟩
    intro n hn
    exact Nat.lt_of_le_of_lt (h.top n hn) hlt
  askable := by
    intro n hn
    rcases List.mem_cons.mp hn with rfl | hn
    · exact ha
    · exact h.askable n hn
  top := by
    intro n hn
    rcases List.mem_cons.mp hn with rfl | hn
    · exact Nat.le_refl n
    · exact Nat.le_of_lt (Nat.lt_of_le_of_lt (h.top n hn) hlt)

theorem Descent.weaken (h : Descent cfg size heapSize sizes) (hle : heapSize ≤ top) :
    Descent cfg size top sizes :=
  ⟨h.falls, h.askable, fun n hn => Nat.le_trans (h.top n hn) hle⟩

/-- Between the two states the source was asked for this, and told so. -/
def Told (requests : List SourceRequest) (s t : MemoryBlockAllocator) : Prop :=
  ∃ es, t.trace = es ++ s.trace ∧ sourceRequests es = requests

theorem Told.trans {requests requests' : List SourceRequest} (h : Told requests s t)
    (h' : Told requests' t u) : Told (requests ++ requests') s u := by
  obtain ⟨es, htrace, rfl⟩ := h
  obtain ⟨es', htrace', rfl⟩ := h'
  exact ⟨es' ++ es, by rw [htrace', htrace, List.append_assoc], sourceRequests_append _ _⟩

/-- What was asked between two states is what the trace tells. -/
theorem Told.unique {requests requests' : List SourceRequest} (h : Told requests s t)
    (h' : Told requests' s t) : requests = requests' := by
  obtain ⟨es, htrace, rfl⟩ := h
  obtain ⟨es', htrace', rfl⟩ := h'
  rw [htrace, List.append_cancel_right_eq] at htrace'
  rw [htrace']

/-- Heaps of these sizes were asked for. -/
def Requested (cfg : Config) (sizes : List Nat) (s t : MemoryBlockAllocator) : Prop :=
  ∃ requests, Told requests s t ∧
    requests.map Prod.fst = sizes.map (· + padding cfg cfg.maxAlignment)

theorem Requested.trans {sizes' : List Nat} (h : Requested cfg sizes s t)
    (h' : Requested cfg sizes' t u) : Requested cfg (sizes ++ sizes') s u := by
  obtain ⟨requests, htold, hsizes⟩ := h
  obtain ⟨requests', htold', hsizes'⟩ := h'
  exact ⟨_, htold.trans htold', by rw [List.map_append, List.map_append, hsizes, hsizes']⟩

/-! ## One round -/

/-- The host had no memory for something that happened between the two states. -/
structure HostRefused (env : Environment) (s t : MemoryBlockAllocator) : Prop where
  answered : ∃ n, env.hostAllocate n = false
  told : ∃ es, t.trace = es ++ s.trace ∧ .hostAllocate false ∈ es

theorem HostRefused.later (h : HostRefused env s t) (hlater : t.trace <:+ u.trace) :
    HostRefused env s u := by
  obtain ⟨hanswered, es, htrace, hes⟩ := h
  obtain ⟨es', htrace'⟩ := hlater
  refine ⟨hanswered, es' ++ es, ?_, List.mem_append_right es' hes⟩
  rw [← htrace', htrace, List.append_assoc]

theorem HostRefused.earlier (h : HostRefused env t u) (hearlier : s.trace <:+ t.trace) :
    HostRefused env s u := by
  obtain ⟨hanswered, es, htrace, hes⟩ := h
  obtain ⟨es', htrace'⟩ := hearlier
  refine ⟨hanswered, es ++ es', ?_, List.mem_append_left es' hes⟩
  rw [htrace, ← htrace', List.append_assoc]

theorem Told.suffix {requests : List SourceRequest} (h : Told requests s t) :
    s.trace <:+ t.trace := by
  obtain ⟨es, htrace, -⟩ := h
  exact ⟨es, htrace.symm⟩

/-- The source is not asked while a heap is registered. -/
theorem registerHeap_told (heap : MemoryHeap) (s : MemoryBlockAllocator) :
    wp (registerHeap cfg env (some heap))
      (fun b t => Told [] s t ∧ b = s.pool.nextBlock ∧ t.pool = (s.pool.registerHeap heap).2)
      (fun _ t => Told [] s t ∧ HostRefused env s t) s := by
  simp only [registerHeap, wp_bind, wp_tryCatch, wp_hostAllocate, wp_modify, wp_throw, wp_get,
    wp_pure]
  split
  · split
    · exact ⟨⟨[.hostAllocate true, .hostAllocate true], rfl, rfl⟩, rfl, rfl⟩
    · rename_i hrefused
      let es : List Event :=
        [.sourceDeallocate heap.allocation (regionBytes cfg heap.size), .hostAllocate false,
          .hostAllocate true]
      exact ⟨⟨es, rfl, rfl⟩, ⟨_, Bool.eq_false_iff.mpr hrefused⟩, es, rfl, by simp [es]⟩
  · rename_i hrefused
    let es : List Event :=
      [.sourceDeallocate heap.allocation (regionBytes cfg heap.size), .hostAllocate false]
    exact ⟨⟨es, rfl, rfl⟩, ⟨_, Bool.eq_false_iff.mpr hrefused⟩, es, rfl, by simp [es]⟩

/-- How a round of `grow` fails that asks for so many bytes: for want of the
heap, or of memory of the host. -/
inductive RoundFailed (env : Environment) (bytes : Nat) (e : Exn) (s t : MemoryBlockAllocator) :
    Prop where
  | source {n : Nat} {answer : SourceAnswer} (answered : env.sourceAllocate n bytes = answer)
      (told : Told [(bytes, answer)] s t)
      (refused : answer = .refused ∧ e = .badAlloc ∨ answer = .failed ∧ e = .error)
  | host {requests : List SourceRequest} (refused : HostRefused env s t)
      (told : Told requests s t)
      (asked : requests = [] ∨ ∃ answer, requests = [(bytes, answer)])

/-- **One round of `grow`** asks for one heap, unless the host has no memory
for the heap itself. -/
theorem takeHeap_told (hpos : 0 < size) (ha : Askable cfg size heapSize)
    (s : MemoryBlockAllocator) :
    let bytes := heapSize + padding cfg cfg.maxAlignment
    wp (do
        let heap ← makeHeap cfg env heapSize cfg.maxAlignment
        registerHeap cfg env (some heap))
      (fun b t => ∃ a, Told [(bytes, .region a)] s t ∧ b = s.pool.nextBlock ∧
        t.pool = (s.pool.registerHeap ⟨a, alignCeil a cfg.maxAlignment, heapSize⟩).2)
      (fun e t => RoundFailed env bytes e s t) s := by
  intro bytes
  have hheap : 0 < heapSize := Nat.lt_of_lt_of_le hpos ha.enough
  have hbytes : sizeAdd heapSize (padding cfg cfg.maxAlignment) = bytes :=
    sizeAdd_of_lt (request_fits cfg.maxAlignment_pow ha.below ha.aligned)
  have hmake := @makeHeap_spec cfg env cfg.maxAlignment heapSize hheap s
  rw [hbytes] at hmake
  have hasked : ∀ answer, Told [(bytes, answer)] s
      ((s.log (.hostAllocate true)).log (.sourceAllocate bytes answer)) := fun answer =>
    ⟨[.sourceAllocate bytes answer, .hostAllocate true], rfl, rfl⟩
  rw [wp_bind]
  refine wp_mono hmake ?_ ?_
  · rintro heap t ⟨hheap, rfl⟩
    refine wp_mono (registerHeap_told heap _) ?_ ?_
    · rintro b u ⟨htold, hb, hpool⟩
      refine ⟨heap.allocation, (hasked _).trans htold, hb, ?_⟩
      rw [← hheap]
      exact hpool
    · rintro e u ⟨htold, hrefused⟩
      have hfirst := hasked (.region heap.allocation)
      exact .host (hrefused.earlier hfirst.suffix) (hfirst.trans htold) (.inr ⟨_, rfl⟩)
  · rintro e t (⟨hhost, -, rfl⟩ | ⟨n, answer, hanswer, hresult, rfl⟩)
    · exact .host ⟨⟨_, hhost⟩, [.hostAllocate false], rfl, by simp⟩ ⟨[.hostAllocate false], rfl, rfl⟩
        (.inl rfl)
    · exact .source hanswer (hasked answer) hresult

theorem takeHeap_requested (hpos : 0 < size) (ha : Askable cfg size heapSize)
    (s : MemoryBlockAllocator) :
    wp (do
        let heap ← makeHeap cfg env heapSize cfg.maxAlignment
        registerHeap cfg env (some heap))
      (fun _ t => Requested cfg [heapSize] s t)
      (fun _ t => Requested cfg [heapSize] s t ∨ Requested cfg [] s t) s := by
  refine wp_mono (takeHeap_told hpos ha s) ?_ ?_
  · rintro b t ⟨a, htold, -⟩
    exact ⟨_, htold, rfl⟩
  · rintro e t (⟨-, htold, -⟩ | ⟨-, htold, rfl | ⟨answer, rfl⟩⟩)
    · exact .inl ⟨_, htold, rfl⟩
    · exact .inr ⟨_, htold, rfl⟩
    · exact .inl ⟨_, htold, rfl⟩

/-! ## The loop -/

/-- **The loop of `grow` asks for less and less.** -/
theorem growLoop_requested (hpos : 0 < size) (hlt : size < 2 ^ 64) (hal : cfg.maxAlignment ∣ size)
    (fuel : Nat) : ∀ (heapSize : Nat) (s : MemoryBlockAllocator), Askable cfg size heapSize →
      let Q := fun t => ∃ sizes, Requested cfg sizes s t ∧ Descent cfg size heapSize sizes
      wp (growLoop cfg env size fuel heapSize) (fun _ t => Q t) (fun _ t => Q t) s := by
  induction fuel with
  | zero => exact fun heapSize s _ => ⟨[], ⟨[], ⟨[], rfl, rfl⟩, rfl⟩, .nil⟩
  | succ fuel ih =>
      intro heapSize s ha
      -- one more round, after which no more than `next` is asked for
      have hmore : ∀ {next : Nat} {sizes : List Nat} {t u : MemoryBlockAllocator},
          Requested cfg [heapSize] s t ∨ Requested cfg [] s t → Requested cfg sizes t u →
          Descent cfg size next sizes → next < heapSize →
          ∃ sizes, Requested cfg sizes s u ∧ Descent cfg size heapSize sizes := by
        intro next sizes t u hround hrest hdescent hnext
        rcases hround with hround | hround
        · exact ⟨_, hround.trans hrest, .cons ha hdescent hnext⟩
        · exact ⟨_, hround.trans hrest, hdescent.weaken (Nat.le_of_lt hnext)⟩
      have hstop : ∀ {t : MemoryBlockAllocator},
          Requested cfg [heapSize] s t ∨ Requested cfg [] s t →
          ∃ sizes, Requested cfg sizes s t ∧ Descent cfg size heapSize sizes := by
        intro t hround
        have hpositive : 0 < heapSize := Nat.lt_of_lt_of_le hpos ha.enough
        exact hmore hround ⟨[], ⟨[], rfl, rfl⟩, rfl⟩ (@Descent.nil cfg size 0) hpositive
      simp only [growLoop, wp_tryCatch]
      refine wp_mono (takeHeap_requested hpos ha s) ?_ ?_
      · intro b t h
        exact hstop (.inl h)
      · intro e t hround
        cases e with
        | badAlloc =>
            show wp (if heapSize ≤ size then Prog.throw Exn.badAlloc else _) _ _ t
            split
            · exact hstop hround
            · rename_i hgt
              have hrest := ih _ t (Askable.next hlt hal heapSize)
              have hnext := nextHeapSize_lt hpos hal ha (Nat.lt_of_not_le hgt)
              refine wp_mono hrest ?_ ?_
              · rintro b u ⟨sizes, hsizes, hdescent⟩
                exact hmore hround hsizes hdescent hnext
              · rintro e u ⟨sizes, hsizes, hdescent⟩
                exact hmore hround hsizes hdescent hnext
        | _ => exact hstop hround

/-- The only failures are refusals of the source. -/
structure OnlyRefuses (env : Environment) : Prop where
  hostAllocate : ∀ n, env.hostAllocate n = true
  sourceAllocate : ∀ n bytes, env.sourceAllocate n bytes ≠ .failed

/-- Heaps of these sizes were asked for and refused. -/
def refusals (cfg : Config) (sizes : List Nat) : List SourceRequest :=
  sizes.map fun h => (h + padding cfg cfg.maxAlignment, .refused)

/-- **Where the source only ever refuses**, the loop of `grow` goes on until a
heap is not refused, or until the least that would do is. -/
theorem growLoop_settles (ho : OnlyRefuses env) (hpos : 0 < size) (hlt : size < 2 ^ 64)
    (hal : cfg.maxAlignment ∣ size) (fuel : Nat) :
    ∀ (heapSize : Nat) (s : MemoryBlockAllocator), Askable cfg size heapSize →
      wp (growLoop cfg env size fuel heapSize)
        (fun b t => ∃ refused h a,
          Told (refusals cfg refused ++ [(h + padding cfg cfg.maxAlignment, .region a)]) s t ∧
            b = s.pool.nextBlock ∧
            t.pool = (s.pool.registerHeap ⟨a, alignCeil a cfg.maxAlignment, h⟩).2)
        (fun e t => e = .diverged ∨
          e = .badAlloc ∧ ∃ refused, Told (refusals cfg (refused ++ [size])) s t) s := by
  induction fuel with
  | zero => exact fun _ _ _ => .inl rfl
  | succ fuel ih =>
      intro heapSize s ha
      simp only [growLoop, wp_tryCatch]
      refine wp_mono (wp_and (takeHeap_told hpos ha s) (takeHeap_grown heapSize s)) ?_ ?_
      · rintro b t ⟨⟨a, htold, hb, hpool⟩, -⟩
        exact ⟨[], heapSize, a, htold, hb, hpool⟩
      · rintro e t ⟨hround, hpool⟩
        obtain ⟨htold, rfl⟩ : Told (refusals cfg [heapSize]) s t ∧ e = .badAlloc := by
          rcases hround with ⟨hfailed, htold, ⟨rfl, rfl⟩ | ⟨rfl, -⟩⟩ | ⟨⟨⟨n, hhost⟩, -⟩, -, -⟩
          · exact ⟨htold, rfl⟩
          · exact absurd hfailed (ho.sourceAllocate _ _)
          · exact absurd (ho.hostAllocate n) (by simp [hhost])
        show wp (if heapSize ≤ size then Prog.throw Exn.badAlloc else _) _ _ t
        split
        · -- what was refused was the least that would do
          rename_i hle
          obtain rfl : heapSize = size := Nat.le_antisymm hle ha.enough
          exact .inr ⟨rfl, [], htold⟩
        · refine wp_mono (ih _ t (Askable.next hlt hal heapSize)) ?_ ?_
          · rintro b u ⟨refused, h, a, htold', hb, hpool'⟩
            rw [hpool] at hb hpool'
            exact ⟨heapSize :: refused, h, a, htold.trans htold', hb, hpool'⟩
          · rintro e u (rfl | ⟨rfl, refused, htold'⟩)
            · exact .inl rfl
            · exact .inr ⟨rfl, heapSize :: refused, htold.trans htold'⟩

theorem map_refusals (sizes : List Nat) :
    (refusals cfg sizes).map Prod.fst = sizes.map (· + padding cfg cfg.maxAlignment) := by
  simp [refusals]

/-- The sizes are known from what was asked for. -/
theorem Requested.eq_of_told {requests : List SourceRequest} {sizes' : List Nat}
    (h : Requested cfg sizes s t) (h' : Told requests s t)
    (hsizes : requests.map Prod.fst = sizes'.map (· + padding cfg cfg.maxAlignment)) :
    sizes = sizes' := by
  obtain ⟨requests', htold, hmap⟩ := h
  have hinj : Function.Injective (· + padding cfg cfg.maxAlignment) := fun _ _ =>
    Nat.add_right_cancel
  apply List.map_injective_iff.mpr hinj
  rw [← hmap, ← hsizes, htold.unique h']

/-- **Growth retries end and never ask for a bad size.** Whatever is refused,
`grow` comes to an end, and the heaps it asks for become strictly smaller, are
all multiples of the alignment and all big enough. Where the source only
refuses, it throws once a heap of exactly the size requested has been refused,
and the heap it returns is the first that was not. -/
theorem grow_retries (hpos : 0 < size) (hlt : size < 2 ^ 64) (hal : cfg.maxAlignment ∣ size)
    (hfuel : 65 ≤ env.fuel) {result : Except Exn BlockId} (h : grow cfg env size s = (result, t)) :
    result ≠ .error .diverged ∧
    ∃ sizes, Requested cfg sizes s t ∧
      Descent cfg size (getHeapSize cfg s.pool.getSize size) sizes ∧
      (OnlyRefuses env →
        (∀ e, result = .error e → e = .badAlloc ∧ sizes.getLast? = some size ∧
          Told (refusals cfg sizes) s t) ∧
        ∀ b, result = .ok b → ∃ refused heapSize a, sizes = refused ++ [heapSize] ∧
          Told (refusals cfg refused ++ [(heapSize + padding cfg cfg.maxAlignment, .region a)]) s t ∧
          b = s.pool.nextBlock ∧
          t.pool = (s.pool.registerHeap ⟨a, alignCeil a cfg.maxAlignment, heapSize⟩).2) := by
  have hfirst := @Askable.first cfg size hlt hal s.pool.getSize
  have hends := grow_ends (Nat.le_of_dvd hpos hal) hlt hal hfuel s
  have hdiverged : result ≠ .error .diverged := by
    rintro rfl
    exact wp_thrown hends h rfl
  have hrequested := wp_final
    (P := fun t => ∃ sizes, Requested cfg sizes s t ∧ Descent cfg size _ sizes)
    (@growLoop_requested cfg env size hpos hlt hal env.fuel _ s hfirst)
  have hfinal : (growLoop cfg env size env.fuel (getHeapSize cfg s.pool.getSize size) s) =
      (result, t) := h
  rw [hfinal] at hrequested
  obtain ⟨sizes, hsizes, hdescent⟩ := hrequested
  refine ⟨hdiverged, sizes, hsizes, hdescent, ?_⟩
  intro ho
  have hsettles := growLoop_settles ho hpos hlt hal env.fuel _ s hfirst
  constructor
  · rintro e rfl
    obtain rfl | ⟨rfl, refused, htold⟩ := wp_thrown hsettles hfinal
    · exact absurd rfl hdiverged
    · obtain rfl := hsizes.eq_of_told htold (map_refusals _)
      exact ⟨rfl, by simp, htold⟩
  · rintro b rfl
    obtain ⟨refused, heapSize, a, htold, hb, hpool⟩ := wp_returned hsettles hfinal
    have hmap : (refusals cfg refused ++
        [(heapSize + padding cfg cfg.maxAlignment, SourceAnswer.region a)]).map Prod.fst
          = (refused ++ [heapSize]).map (· + padding cfg cfg.maxAlignment) := by
      simp [refusals]
    exact ⟨refused, heapSize, a, hsizes.eq_of_told htold hmap, htold, hb, hpool⟩

/-- A source that gives half a megabyte and no more. -/
def halfMegabyte : Environment :=
  { Environment.generous with
    sourceAllocate := fun n bytes =>
      if bytes ≤ 1 <<< 19 then .region ((n + 1) * 2 ^ 40) else .refused }

/-- Two megabytes and one are refused to a kilobyte, which has to do with half
a megabyte. -/
theorem grow_retries_half :
    Descent .default 1024 (2 <<< 20) [2 <<< 20, 1 <<< 20, 1 <<< 19] ∧
    ∃ a, (grow .default halfMegabyte 1024 .empty).2.pool
      = (MemoryBlockPool.empty.registerHeap ⟨a, alignCeil a 256, 1 <<< 19⟩).2 := by
  have ho : OnlyRefuses halfMegabyte := by
    refine ⟨fun _ => rfl, ?_⟩
    intro n bytes h
    simp only [halfMegabyte] at h
    split at h <;> cases h
  have hreturned : grow .default halfMegabyte 1024 .empty = (.ok 0, _) := rfl
  obtain ⟨-, sizes, hsizes, hdescent, hsettled⟩ :=
    @grow_retries .default halfMegabyte 1024 _ _ (by decide) (by decide) (by decide) (by decide) _
      hreturned
  have htold : Told [(2 <<< 20, .refused), (1 <<< 20, .refused), (1 <<< 19, .region (6 * 2 ^ 40))]
      .empty (grow .default halfMegabyte 1024 .empty).2 :=
    ⟨(grow .default halfMegabyte 1024 .empty).2.trace, (List.append_nil _).symm, rfl⟩
  have hthree : sizes = [2 <<< 20, 1 <<< 20, 1 <<< 19] := hsizes.eq_of_told htold rfl
  obtain ⟨refused, heapSize, a, hlast, -, -, hpool⟩ := (hsettled ho).2 0 rfl
  have hheap : heapSize = 1 <<< 19 := by
    have hlast := congrArg List.getLast? hlast
    rw [hthree, List.getLast?_append] at hlast
    exact (Option.some.inj hlast).symm
  rw [hheap] at hpool
  exact ⟨hthree ▸ hdescent, a, hpool⟩

end MemoryBlockAllocator

end RexlibCuda
