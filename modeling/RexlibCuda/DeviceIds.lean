import RexlibCuda.CudaDeviceBackend

/-! What an id means to the functions of `cuda_device_backend`. They agree as
long as narrowing the id to an `int` does not make a listed ordinal, or a
negative one, out of an id that is not listed. -/

namespace RexlibCuda

/-- An id that fits an `int` is the ordinal of the device it stands for. -/
theorem ordinalOf_of_lt {id : BitVec 64} (h : id.toNat < 2 ^ 31) : ordinalOf id = id.toNat := by
  have hmod : (id.setWidth 32).toNat = id.toNat := by
    rw [BitVec.toNat_setWidth]
    omega
  rw [ordinalOf, BitVec.toInt_eq_toNat_of_lt (by omega), hmod]

namespace CudaDeviceBackend

/-- The driver counts its devices with an `int` that is not negative, and
answers every query about one of them. -/
structure Answering (runtime : CudaRuntime) : Prop where
  counted : 0 ≤ countOrZero runtime ∧ countOrZero runtime < 2 ^ 31
  answered : ∀ ordinal : Int, 0 ≤ ordinal → ordinal < countOrZero runtime →
    (runtime.getDeviceProperties ordinal).isSome

/-- **The id means the same everywhere**: the device of that ordinal when it is
one of those that are listed, and nothing otherwise. -/
structure Consistent (runtime : CudaRuntime) (id : BitVec 64) : Prop where
  described : id ∈ enumerateDevices runtime → ∃ prop,
    runtime.getDeviceProperties id.toNat = some prop ∧
      ∀ desc, getDeviceProperties runtime id desc = .ok (true, describe prop)
  created : id ∈ enumerateDevices runtime → ∃ device,
    createDevice runtime id = .ok device ∧ device.ordinal = id.toNat
  unknown : id ∉ enumerateDevices runtime →
    ∀ desc, getDeviceProperties runtime id desc = .ok (false, desc)
  refused : id ∉ enumerateDevices runtime →
    ∃ what, createDevice runtime id = .error (.invalidArgument what)

variable {runtime : CudaRuntime} {id : BitVec 64}

theorem mem_enumerateDevices (h : Answering runtime) :
    id ∈ enumerateDevices runtime ↔ (id.toNat : Int) < countOrZero runtime := by
  have hcount := h.counted
  simp only [enumerateDevices, List.mem_map, List.mem_range]
  constructor
  · rintro ⟨n, hn, rfl⟩
    rw [BitVec.toNat_ofNat]
    omega
  · intro hlt
    exact ⟨id.toNat, by omega, by simp⟩

/-- Where the count is known it is the one that everything is measured by. -/
theorem countOrZero_of_some {count : Int} (h : runtime.getDeviceCount = some count) :
    countOrZero runtime = count := by
  rw [countOrZero, h, Option.getD_some]

theorem createDevice_of_lt (h : ordinalOf id < countOrZero runtime) :
    createDevice runtime id = .ok (makeDevice runtime (ordinalOf id)) := by
  simp only [createDevice]
  rw [if_neg (by omega)]

theorem createDevice_of_le (h : countOrZero runtime ≤ ordinalOf id) :
    createDevice runtime id = .error (.invalidArgument "Invalid device id") := by
  simp only [createDevice]
  rw [if_pos h]

theorem getDeviceProperties_of_le (h : countOrZero runtime ≤ ordinalOf id)
    (desc : DeviceProperties) : getDeviceProperties runtime id desc = .ok (false, desc) := by
  unfold getDeviceProperties
  cases hcount : runtime.getDeviceCount with
  | none => rfl
  | some count =>
      rw [countOrZero_of_some hcount] at h
      simp only
      rw [if_neg (by omega)]

/-- **Device ids mean the same everywhere exactly when** they are listed, or
are no listed ordinal and not negative once they have been narrowed. -/
theorem consistent_iff (h : Answering runtime) :
    Consistent runtime id ↔
      (id.toNat : Int) < countOrZero runtime ∨ countOrZero runtime ≤ ordinalOf id := by
  have hcount := h.counted
  constructor
  · intro hc
    by_contra hbad
    obtain ⟨hunlisted, hnarrow⟩ := not_or.mp hbad
    obtain ⟨what, hrefused⟩ := hc.refused fun hmem => hunlisted ((mem_enumerateDevices h).mp hmem)
    -- it is taken for a device that is there
    rw [createDevice_of_lt (by omega)] at hrefused
    cases hrefused
  · intro hgood
    by_cases hlisted : (id.toNat : Int) < countOrZero runtime
    · have hmem : id ∈ enumerateDevices runtime := (mem_enumerateDevices h).mpr hlisted
      have hord : ordinalOf id = id.toNat := ordinalOf_of_lt (by omega)
      obtain ⟨count, hsome⟩ : ∃ count, runtime.getDeviceCount = some count := by
        cases hsome : runtime.getDeviceCount with
        | none =>
            simp only [countOrZero, hsome, Option.getD_none] at hlisted
            omega
        | some count => exact ⟨count, rfl⟩
      obtain ⟨prop, hprop⟩ := Option.isSome_iff_exists.mp
        (h.answered id.toNat (by omega) hlisted)
      refine ⟨?_, ?_, fun hnot => absurd hmem hnot, fun hnot => absurd hmem hnot⟩
      · intro _
        refine ⟨prop, hprop, ?_⟩
        intro desc
        rw [countOrZero_of_some hsome, ← hord] at hlisted
        simp only [getDeviceProperties, hsome, if_pos hlisted]
        rw [hord, hprop]
      · intro _
        exact ⟨_, createDevice_of_lt (hord ▸ hlisted), hord⟩
    · have hle : countOrZero runtime ≤ ordinalOf id := hgood.resolve_left hlisted
      have hnot : id ∉ enumerateDevices runtime := fun hmem =>
        hlisted ((mem_enumerateDevices h).mp hmem)
      refine ⟨fun hmem => absurd hmem hnot, fun hmem => absurd hmem hnot, ?_, ?_⟩
      · exact fun _ => getDeviceProperties_of_le hle
      · exact fun _ => ⟨_, createDevice_of_le hle⟩

/-- A machine with a single device. -/
def singleDevice : CudaRuntime where
  getDeviceCount := some 1
  getDeviceProperties ordinal :=
    if ordinal = 0 then some ⟨"device", false, 0, 1, 0, 2 ^ 33⟩ else none

theorem singleDevice_answering : Answering singleDevice where
  counted := by decide
  answered ordinal hpos hlt := by
    have hone : countOrZero singleDevice = 1 := rfl
    obtain rfl : ordinal = 0 := by omega
    rfl

/-- The one device there is goes by the same id everywhere. -/
theorem consistent_single : Consistent singleDevice 0 :=
  (consistent_iff singleDevice_answering).mpr (.inl (by decide))

/-- **An id beyond the range of an `int` is taken for the device its low half
names**, and one whose low half is negative is a device of a negative ordinal. -/
theorem narrowed_ids :
    enumerateDevices singleDevice = [0] ∧
    (∀ desc, getDeviceProperties singleDevice (BitVec.ofNat 64 (2 ^ 32)) desc
      = .ok (true, describe ⟨"device", false, 0, 1, 0, 2 ^ 33⟩)) ∧
    createDevice singleDevice (BitVec.ofNat 64 (2 ^ 32)) = .ok ⟨0, 0, some 0⟩ ∧
    createDevice singleDevice (BitVec.ofNat 64 (2 ^ 64 - 1)) = .ok ⟨-1, -1, some (-1)⟩ ∧
    ¬ Consistent singleDevice (BitVec.ofNat 64 (2 ^ 32)) ∧
    ¬ Consistent singleDevice (BitVec.ofNat 64 (2 ^ 64 - 1)) := by
  refine ⟨rfl, fun _ => rfl, rfl, rfl, ?_, ?_⟩
  · intro h
    obtain ⟨what, hrefused⟩ := h.refused (by decide)
    have hcreated : createDevice singleDevice (BitVec.ofNat 64 (2 ^ 32)) = .ok ⟨0, 0, some 0⟩ := rfl
    rw [hcreated] at hrefused
    cases hrefused
  · intro h
    obtain ⟨what, hrefused⟩ := h.refused (by decide)
    have hcreated : createDevice singleDevice (BitVec.ofNat 64 (2 ^ 64 - 1))
        = .ok ⟨-1, -1, some (-1)⟩ := rfl
    rw [hcreated] at hrefused
    cases hrefused

end CudaDeviceBackend

end RexlibCuda
