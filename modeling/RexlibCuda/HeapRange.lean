import RexlibCuda.AllocatorRuns

/-! What a `memory_heap` has to do with the region behind it: how much it asks
its source for, and where in the region its usable bytes are. Nothing is
assumed of the two alignments but that they are powers of two, so either may
be the stricter one. -/

namespace RexlibCuda

open Prog

/-- A multiple of an alignment is at least that far from the end of the range. -/
theorem add_le_of_aligned {k size : Nat} (hk : k < 64) (hlt : size < 2 ^ 64)
    (hal : 2 ^ k ∣ size) : size + 2 ^ k ≤ 2 ^ 64 := by
  have hdvd : 2 ^ k ∣ 2 ^ 64 := Nat.pow_dvd_pow 2 (Nat.le_of_lt hk)
  have hpos : 0 < 2 ^ k := Nat.two_pow_pos k
  apply Nat.le_of_lt_add_of_dvd (n := 2 ^ k)
  · omega
  · exact Nat.dvd_add hal (Nat.dvd_refl _)
  · exact hdvd

/-- Aligning the base of a region moves it forwards by no more than what the
region is not aligned to already. -/
theorem alignCeil_base {k j p : Nat} (hk : k < 64) (hp : 2 ^ j ∣ p)
    (h : p + 2 ^ k ≤ 2 ^ 64) : alignCeil p (2 ^ k) ≤ p + (2 ^ k - 2 ^ j) := by
  rcases Nat.le_total k j with hkj | hjk
  · -- the region is aligned strictly enough where it is
    have hdvd : 2 ^ k ∣ p := Nat.dvd_trans (Nat.pow_dvd_pow 2 hkj) hp
    exact Nat.le_trans (alignCeil_le hk h (Nat.le_refl p) hdvd) (Nat.le_add_right _ _)
  · -- both ends of the way it can move are multiples of the looser alignment
    have hdvd : 2 ^ j ∣ 2 ^ k := Nat.pow_dvd_pow 2 hjk
    have hle : 2 ^ j ≤ 2 ^ k := Nat.le_of_dvd (Nat.two_pow_pos k) hdvd
    have hlt := (le_alignCeil hk h).2
    have hceil : 2 ^ j ∣ alignCeil p (2 ^ k) := Nat.dvd_trans hdvd (alignCeil_dvd hk)
    have hend : alignCeil p (2 ^ k) + 2 ^ j ≤ p + 2 ^ k := by
      apply Nat.le_of_lt_add_of_dvd (n := 2 ^ j)
      · omega
      · exact Nat.dvd_add hceil (Nat.dvd_refl _)
      · exact Nat.dvd_add hp hdvd
    omega

/-- The usable bytes of a heap are aligned, and lie in the `bytes` of its
region. -/
structure MemoryHeap.Within (heap : MemoryHeap) (alignment bytes : Nat) : Prop where
  aligned : alignment ∣ heap.data
  above : heap.allocation ≤ heap.data
  inside : heap.data + heap.size ≤ heap.allocation + bytes

/-- So are those of a block at an aligned offset. -/
theorem MemoryHeap.Within.getData {heap : MemoryHeap} {alignment bytes : Nat}
    (h : heap.Within alignment bytes) (hfits : heap.allocation + bytes < 2 ^ 64)
    {p : MemoryBlockPool} {b : BlockId} (hheap : p.heap (p.block b).heap = heap)
    (hal : alignment ∣ (p.block b).offset)
    (hin : (p.block b).offset + (p.block b).size ≤ heap.size) :
    alignment ∣ p.getData b ∧ heap.allocation ≤ p.getData b ∧
      p.getData b + (p.block b).size ≤ heap.allocation + bytes := by
  have habove := h.above
  have hinside := h.inside
  have hdata : p.getData b = heap.data + (p.block b).offset := by
    rw [MemoryBlockPool.getData, hheap]
    exact sizeAdd_of_lt (by omega)
  rw [hdata]
  exact ⟨Nat.dvd_add h.aligned hal, by omega, by omega⟩

namespace MemoryBlockAllocator

variable {cfg : Config} {env : Environment} {alignment size : Nat}

/-- The padding is what the source does not align. -/
theorem padding_eq (hlt : alignment < 2 ^ 64) :
    padding cfg alignment = alignment - cfg.baseAlignment := by
  unfold padding
  split
  · rename_i hgt
    exact sizeSub_of_le (Nat.le_of_lt hgt) hlt
  · omega

/-- What a heap asks its source for never wraps. -/
theorem request_fits (ha : ∃ k < 64, alignment = 2 ^ k) (hlt : size < 2 ^ 64)
    (hal : alignment ∣ size) : size + padding cfg alignment < 2 ^ 64 := by
  obtain ⟨k, hk, rfl⟩ := ha
  obtain ⟨j, -, hj⟩ := cfg.baseAlignment_pow
  have hle : 2 ^ k ≤ 2 ^ 63 := Nat.pow_le_pow_right (by decide) (by omega)
  have hpos : 0 < 2 ^ j := Nat.two_pow_pos j
  have hend := add_le_of_aligned hk hlt hal
  rw [padding_eq (by omega), hj]
  omega

/-- Where the usable bytes of a heap are. -/
theorem heap_within (ha : ∃ k < 64, alignment = 2 ^ k) (hpos : 0 < size)
    (hal : alignment ∣ size) {p : Nat} (hp : cfg.baseAlignment ∣ p)
    (hfits : p + (size + padding cfg alignment) < 2 ^ 64) :
    (⟨p, alignCeil p alignment, size⟩ : MemoryHeap).Within alignment
      (size + padding cfg alignment) := by
  obtain ⟨k, hk, rfl⟩ := ha
  obtain ⟨j, -, hj⟩ := cfg.baseAlignment_pow
  have hle : 2 ^ k ≤ size := Nat.le_of_dvd hpos hal
  have hroom : p + 2 ^ k ≤ 2 ^ 64 := by omega
  rw [hj] at hp
  have hbase := alignCeil_base hk hp hroom
  rw [padding_eq (by omega), hj]
  refine ⟨alignCeil_dvd hk, (le_alignCeil hk hroom).1, ?_⟩
  show alignCeil p (2 ^ k) + size ≤ p + (size + (2 ^ k - 2 ^ j))
  omega

/-- What the constructor asks for, and what becomes of the answer. -/
theorem makeHeap_spec (hpos : 0 < size) (s : MemoryBlockAllocator) :
    wp (makeHeap cfg env size alignment)
      (fun heap t => heap = ⟨heap.allocation, alignCeil heap.allocation alignment, size⟩ ∧
        t = (s.log (.hostAllocate true)).log
          (.sourceAllocate (sizeAdd size (padding cfg alignment)) (.region heap.allocation)))
      (fun e t => (env.hostAllocate s.now = false ∧ e = .badAlloc ∧
          t = s.log (.hostAllocate false)) ∨
        ∃ n answer, env.sourceAllocate n (sizeAdd size (padding cfg alignment)) = answer ∧
          (answer = .refused ∧ e = .badAlloc ∨ answer = .failed ∧ e = .error) ∧
          t = (s.log (.hostAllocate true)).log
            (.sourceAllocate (sizeAdd size (padding cfg alignment)) answer)) s := by
  simp only [makeHeap, wp_bind, wp_hostAllocate, if_neg (Nat.ne_of_gt hpos), wp_ask]
  split
  · cases hanswer : env.sourceAllocate (s.log (.hostAllocate true)).now
      (sizeAdd size (padding cfg alignment)) with
    | region allocation => exact ⟨rfl, rfl⟩
    | refused => exact .inr ⟨_, .refused, hanswer, by simp, rfl⟩
    | failed => exact .inr ⟨_, .failed, hanswer, by simp, rfl⟩
  · rename_i hrefused
    exact .inl ⟨Bool.eq_false_iff.mpr hrefused, by simp⟩

/-- **The usable range of a heap is aligned and lies in its region**, as do the
blocks it is cut into: what the constructor asks for does not wrap, and where
the source gives an aligned region of that length, all of the heap and every
block at an aligned offset is in it. -/
theorem makeHeap_range (ha : ∃ k < 64, alignment = 2 ^ k) (hpos : 0 < size)
    (hlt : size < 2 ^ 64) (hal : alignment ∣ size) (s : MemoryBlockAllocator) :
    size + padding cfg alignment < 2 ^ 64 ∧
    (∃ es, (makeHeap cfg env size alignment s).2.trace = es ++ s.trace ∧
      ∀ bytes answer, .sourceAllocate bytes answer ∈ es → bytes = size + padding cfg alignment) ∧
    ∀ heap t, makeHeap cfg env size alignment s = (.ok heap, t) →
      t.trace.head? = some (.sourceAllocate (size + padding cfg alignment)
        (.region heap.allocation)) ∧
      (cfg.baseAlignment ∣ heap.allocation →
        heap.allocation + (size + padding cfg alignment) ≤ 2 ^ 64 - 1 →
        heap.size = size ∧ heap.Within alignment (size + padding cfg alignment) ∧
        ∀ (p : MemoryBlockPool) (b : BlockId), p.heap (p.block b).heap = heap →
          alignment ∣ (p.block b).offset → (p.block b).offset + (p.block b).size ≤ size →
          alignment ∣ p.getData b ∧ heap.allocation ≤ p.getData b ∧
            p.getData b + (p.block b).size
              ≤ heap.allocation + (size + padding cfg alignment)) := by
  have hfits : size + padding cfg alignment < 2 ^ 64 := request_fits ha hlt hal
  have hbytes : sizeAdd size (padding cfg alignment) = size + padding cfg alignment :=
    sizeAdd_of_lt hfits
  have hspec := @makeHeap_spec cfg env alignment size hpos s
  rw [hbytes] at hspec
  refine ⟨hfits, ?_, ?_⟩
  · apply wp_final (P := fun t : MemoryBlockAllocator => ∃ es, t.trace = es ++ s.trace ∧
      ∀ bytes answer, Event.sourceAllocate bytes answer ∈ es → bytes = size + padding cfg alignment)
    refine wp_mono hspec ?_ ?_
    · intro heap t h
      exact ⟨[.sourceAllocate _ (.region heap.allocation), .hostAllocate true], by rw [h.2]; rfl,
        by simp⟩
    · rintro e t (⟨-, -, rfl⟩ | ⟨n, answer, -, -, rfl⟩)
      · exact ⟨[.hostAllocate false], rfl, by simp⟩
      · exact ⟨[.sourceAllocate _ answer, .hostAllocate true], rfl, by simp⟩
  · intro heap t h
    obtain ⟨hheap, rfl⟩ := wp_returned hspec h
    refine ⟨rfl, ?_⟩
    intro hbase hend
    have hend : heap.allocation + (size + padding cfg alignment) < 2 ^ 64 := by omega
    have hwithin := heap_within ha hpos hal hbase hend
    rw [← hheap] at hwithin
    have hsize : heap.size = size := by rw [hheap]
    refine ⟨hsize, hwithin, ?_⟩
    intro p b hof hoff hin
    exact hwithin.getData hend hof hoff (hsize ▸ hin)

/-- A source whose regions are aligned to 256 bytes and no more. -/
def looseSource : Environment :=
  { Environment.generous with
    sourceAllocate := fun n _ => .region ((n + 1) * 2 ^ 40 + 256) }

/-- A kilobyte aligned to a kilobyte starts behind the beginning of its region,
and ends with it. -/
theorem makeHeap_range_kilobyte :
    ∃ heap t, makeHeap .default looseSource 1024 1024 .empty = (.ok heap, t) ∧
      heap.allocation < heap.data ∧ heap.Within 1024 (1024 + 768) := by
  obtain ⟨-, -, hrange⟩ := @makeHeap_range .default looseSource 1024 1024
    ⟨10, by decide, rfl⟩ (by decide) (by decide) (Nat.dvd_refl 1024) .empty
  have hreturned : makeHeap .default looseSource 1024 1024 .empty = (.ok _, _) := rfl
  obtain ⟨-, hwithin⟩ := hrange _ _ hreturned
  exact ⟨_, _, hreturned, by decide, (hwithin (by decide) (by decide)).2.1⟩

end MemoryBlockAllocator

end RexlibCuda
