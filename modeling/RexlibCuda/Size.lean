import Mathlib.Data.Nat.Bitwise
import Mathlib.Tactic.NormNum

/-! `std::size_t` on a 64-bit host, as numbers below `2 ^ 64`, and the
settings of `config.hpp`. -/

namespace RexlibCuda

/-- `std::numeric_limits<std::size_t>::max()`. -/
def sizeMax : Nat := 2 ^ 64 - 1

/-- `a + b` in `std::size_t`. -/
def sizeAdd (a b : Nat) : Nat := (a + b) % 2 ^ 64

/-- `a - b` in `std::size_t`. -/
def sizeSub (a b : Nat) : Nat := (a + (2 ^ 64 - b % 2 ^ 64)) % 2 ^ 64

/-- `has_single_bit` of the rexlib core. -/
def hasSingleBit (x : Nat) : Bool := x != 0 && (x &&& (x - 1)) == 0

/-- `align_ceil` of the rexlib core: `(x + a - 1) & ~(a - 1)`. -/
def alignCeil (x a : Nat) : Nat := ((x + a - 1) % 2 ^ 64) &&& (2 ^ 64 - 1 - (a - 1))

theorem sizeAdd_of_lt {a b : Nat} (h : a + b < 2 ^ 64) : sizeAdd a b = a + b :=
  Nat.mod_eq_of_lt h

theorem sizeSub_eq_mod {a b : Nat} (hb : b ≤ a) : sizeSub a b = (a - b) % 2 ^ 64 := by
  unfold sizeSub
  omega

theorem sizeSub_of_le {a b : Nat} (hb : b ≤ a) (ha : a < 2 ^ 64) : sizeSub a b = a - b := by
  rw [sizeSub_eq_mod hb]
  omega

/-- Clearing the low bits of a word rounds it down. -/
theorem and_clear_low {y k : Nat} (hk : k < 64) (hy : y < 2 ^ 64) :
    y &&& (2 ^ 64 - 1 - (2 ^ k - 1)) = y - y % 2 ^ k := by
  have hle : 2 ^ k ≤ 2 ^ 64 := Nat.pow_le_pow_right (by decide) (by omega)
  have hpos : 0 < 2 ^ k := Nat.two_pow_pos k
  have hmask : 2 ^ 64 - 1 - (2 ^ k - 1) = (2 ^ (64 - k) - 1) <<< k := by
    rw [Nat.shiftLeft_eq, Nat.sub_mul, ← Nat.pow_add, Nat.sub_add_cancel (by omega)]
    omega
  have hdown : y - y % 2 ^ k = (y / 2 ^ k) <<< k := by
    rw [Nat.shiftLeft_eq, Nat.mul_comm]
    have := Nat.div_add_mod y (2 ^ k)
    omega
  rw [hmask, hdown]
  apply Nat.eq_of_testBit_eq
  intro i
  rw [Nat.testBit_and, Nat.testBit_shiftLeft, Nat.testBit_shiftLeft,
    Nat.testBit_two_pow_sub_one, Nat.testBit_div_two_pow]
  -- above the cut every bit stays, and below it none does
  by_cases hik : k ≤ i
  · simp only [ge_iff_le, hik, decide_true, Bool.true_and, Nat.sub_add_cancel hik]
    by_cases hi : i < 64
    · have : i - k < 64 - k := by omega
      simp [this]
    · have hbit : y.testBit i = false :=
        Nat.testBit_lt_two_pow (Nat.lt_of_lt_of_le hy (Nat.pow_le_pow_right (by decide) (by omega)))
      simp [hbit]
  · simp [hik]

section AlignCeil

variable {x k : Nat}

theorem alignCeil_eq (hk : k < 64) :
    alignCeil x (2 ^ k)
      = (x + 2 ^ k - 1) % 2 ^ 64 - (x + 2 ^ k - 1) % 2 ^ 64 % 2 ^ k :=
  and_clear_low hk (Nat.mod_lt _ (by decide))

theorem alignCeil_lt (hk : k < 64) : alignCeil x (2 ^ k) < 2 ^ 64 := by
  have := Nat.mod_lt (x + 2 ^ k - 1) (show 0 < 2 ^ 64 by decide)
  rw [alignCeil_eq hk]
  omega

theorem alignCeil_dvd (hk : k < 64) : 2 ^ k ∣ alignCeil x (2 ^ k) := by
  rw [alignCeil_eq hk]
  exact Nat.dvd_sub_mod _

/-- Far enough from the end of the range, rounding up rounds up. -/
theorem le_alignCeil (hk : k < 64) (h : x + 2 ^ k ≤ 2 ^ 64) :
    x ≤ alignCeil x (2 ^ k) ∧ alignCeil x (2 ^ k) < x + 2 ^ k := by
  have hpos : 0 < 2 ^ k := Nat.two_pow_pos k
  have hmod := Nat.mod_lt (x + 2 ^ k - 1) hpos
  rw [alignCeil_eq hk, Nat.mod_eq_of_lt (show x + 2 ^ k - 1 < 2 ^ 64 by omega)]
  omega

/-- Rounding up goes no further than it has to. -/
theorem alignCeil_le {y : Nat} (hk : k < 64) (h : x + 2 ^ k ≤ 2 ^ 64) (hxy : x ≤ y)
    (hy : 2 ^ k ∣ y) : alignCeil x (2 ^ k) ≤ y := by
  have hlt := (le_alignCeil hk h).2
  exact Nat.le_of_lt_add_of_dvd (by omega) (alignCeil_dvd hk) hy

/-- Within an alignment of the end of the range, rounding up wraps to zero. -/
theorem alignCeil_wraps (hk : k < 64) (hx : x < 2 ^ 64) (h : 2 ^ 64 < x + 2 ^ k) :
    alignCeil x (2 ^ k) = 0 := by
  have hle : 2 ^ k ≤ 2 ^ 64 := Nat.pow_le_pow_right (by decide) (by omega)
  -- what is left of the sum is less than an alignment
  have hwrap : (x + 2 ^ k - 1) % 2 ^ 64 = x + 2 ^ k - 1 - 2 ^ 64 := by
    rw [Nat.mod_eq_sub_mod (by omega), Nat.mod_eq_of_lt (by omega)]
  rw [alignCeil_eq hk, hwrap, Nat.mod_eq_of_lt (by omega), Nat.sub_self]

end AlignCeil

/-- The settings of `config.hpp`, and what the source of the memory says of
itself. The alignments are powers of two, as both say they are. -/
structure Config where
  /-- `REXLIB_CUDA_CACHING_ALLOCATOR_MAX_ALIGNMENT_BYTES` -/
  maxAlignment : Nat
  /-- `REXLIB_CUDA_CACHING_ALLOCATOR_MIN_HEAP_BYTES` -/
  minHeap : Nat
  /-- `REXLIB_CUDA_CACHING_ALLOCATOR_MAX_HEAP_BYTES` -/
  maxHeap : Nat
  /-- `REXLIB_CUDA_CACHING_ALLOCATOR_LARGE_ALLOCATION_BYTES` -/
  largeAllocation : Nat
  /-- `REXLIB_CUDA_CACHING_ALLOCATOR_SMALL_QUEUE_COUNT` -/
  smallQueueCount : Nat
  /-- `memory_source::get_base_alignment` -/
  baseAlignment : Nat
  /-- `memory_source::is_host_accessible` -/
  hostAccessible : Bool
  maxAlignment_pow : ∃ k < 64, maxAlignment = 2 ^ k
  baseAlignment_pow : ∃ k < 64, baseAlignment = 2 ^ k
  minHeap_lt : minHeap < 2 ^ 64
  maxHeap_lt : maxHeap < 2 ^ 64

namespace Config

/-- The values `config.hpp` gives, for memory the host cannot address. -/
def default : Config where
  maxAlignment := 256
  minHeap := 2 <<< 20
  maxHeap := 1 <<< 30
  largeAllocation := 64 <<< 20
  smallQueueCount := 16
  baseAlignment := 256
  hostAccessible := false
  maxAlignment_pow := ⟨8, by decide, rfl⟩
  baseAlignment_pow := ⟨8, by decide, rfl⟩
  minHeap_lt := by decide
  maxHeap_lt := by decide

variable (cfg : Config)

theorem maxAlignment_pos : 0 < cfg.maxAlignment := by
  obtain ⟨k, -, h⟩ := cfg.maxAlignment_pow
  rw [h]
  exact Nat.two_pow_pos k

theorem maxAlignment_le : cfg.maxAlignment ≤ 2 ^ 63 := by
  obtain ⟨k, hk, h⟩ := cfg.maxAlignment_pow
  rw [h]
  exact Nat.pow_le_pow_right (by decide) (by omega)

theorem alignCeil_dvd (x : Nat) : cfg.maxAlignment ∣ alignCeil x cfg.maxAlignment := by
  obtain ⟨k, hk, h⟩ := cfg.maxAlignment_pow
  rw [h]
  exact RexlibCuda.alignCeil_dvd hk

theorem alignCeil_lt (x : Nat) : alignCeil x cfg.maxAlignment < 2 ^ 64 := by
  obtain ⟨k, hk, h⟩ := cfg.maxAlignment_pow
  rw [h]
  exact RexlibCuda.alignCeil_lt hk

theorem le_alignCeil {x : Nat} (hx : x + cfg.maxAlignment ≤ 2 ^ 64) :
    x ≤ alignCeil x cfg.maxAlignment
      ∧ alignCeil x cfg.maxAlignment < x + cfg.maxAlignment := by
  obtain ⟨k, hk, h⟩ := cfg.maxAlignment_pow
  rw [h] at hx ⊢
  exact RexlibCuda.le_alignCeil hk hx

theorem alignCeil_le {x y : Nat} (hx : x + cfg.maxAlignment ≤ 2 ^ 64) (hxy : x ≤ y)
    (hy : cfg.maxAlignment ∣ y) : alignCeil x cfg.maxAlignment ≤ y := by
  obtain ⟨k, hk, h⟩ := cfg.maxAlignment_pow
  rw [h] at hx hy ⊢
  exact RexlibCuda.alignCeil_le hk hx hxy hy

theorem alignCeil_wraps {x : Nat} (hx : x < 2 ^ 64) (h64 : 2 ^ 64 < x + cfg.maxAlignment) :
    alignCeil x cfg.maxAlignment = 0 := by
  obtain ⟨k, hk, h⟩ := cfg.maxAlignment_pow
  rw [h] at h64 ⊢
  exact RexlibCuda.alignCeil_wraps hk hx h64

end Config

end RexlibCuda
