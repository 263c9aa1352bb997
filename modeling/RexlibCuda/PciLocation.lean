import RexlibCuda.DeviceIds
import RexlibCuda.Lib.Hex

/-! What the physical location of a device says of it. -/

namespace RexlibCuda

/-- The domain, the bus and the device that a location names. -/
def readLocation (location : String) : BitVec 32 × BitVec 32 × BitVec 32 :=
  let (domainId, cs) := Hex.readUntil ':' 0 location.toList
  let (busId, cs) := Hex.readUntil ':' 0 cs
  let (deviceId, _) := Hex.readUntil '.' 0 cs
  (BitVec.ofNat 32 domainId, BitVec.ofNat 32 busId, BitVec.ofNat 32 deviceId)

theorem toList_printHex (width : Nat) (x : BitVec 32) : (printHex width x).toList
    = List.replicate (width - (Nat.toDigits 16 x.toNat).length) '0' ++ Nat.toDigits 16 x.toNat := by
  simp [printHex]

theorem ofDigits_printHex (width : Nat) (x : BitVec 32) :
    Hex.ofDigits 0 (printHex width x).toList = x.toNat := by
  rw [toList_printHex, Hex.ofDigits_append, Hex.ofDigits_zeros, Hex.ofDigits_toDigits]

/-- What is printed has nothing but digits in it. -/
theorem not_mem_printHex {width : Nat} {x : BitVec 32} {stop : Char}
    (h : ∀ d < 16, stop ≠ d.digitChar) : stop ∉ (printHex width x).toList := by
  rw [toList_printHex]
  intro hmem
  rcases List.mem_append.mp hmem with hmem | hmem
  · exact h 0 (by omega) (List.eq_of_mem_replicate hmem)
  · obtain ⟨d, hd, heq⟩ := Hex.exists_of_mem_toDigits hmem
    exact h d hd heq

theorem readUntil_printHex {stop : Char} (h : ∀ d < 16, stop ≠ d.digitChar) (width : Nat)
    (x : BitVec 32) (rest : List Char) :
    Hex.readUntil stop 0 ((printHex width x).toList ++ stop :: rest) = (x.toNat, rest) := by
  rw [Hex.readUntil_append 0 rest (not_mem_printHex h), ofDigits_printHex]

/-- **A location can be read back.** -/
theorem readLocation_pciIdToString (domainId busId deviceId : BitVec 32) :
    readLocation (pciIdToString domainId busId deviceId) = (domainId, busId, deviceId) := by
  have hcolon : ∀ d < 16, ':' ≠ d.digitChar := by decide
  have hdot : ∀ d < 16, '.' ≠ d.digitChar := by decide
  have hchars : (pciIdToString domainId busId deviceId).toList = (printHex 4 domainId).toList ++
      ':' :: ((printHex 2 busId).toList ++ ':' :: ((printHex 2 deviceId).toList ++ '.' :: ['0'])) := by
    simp [pciIdToString]
  simp [readLocation, hchars, readUntil_printHex hcolon, readUntil_printHex hdot]

namespace CudaDeviceBackend

variable {runtime : CudaRuntime} {id : BitVec 64} {desc found : DeviceProperties}

theorem described (h : getDeviceProperties runtime id desc = .ok (true, found)) :
    ∃ prop, runtime.getDeviceProperties (ordinalOf id) = some prop ∧ found = describe prop := by
  unfold getDeviceProperties at h
  split at h
  · simp at h
  · simp only at h
    split at h
    · split at h
      · rename_i prop hprop
        exact ⟨prop, hprop, by simpa [eq_comm] using h⟩
      · simp at h
    · simp at h

/-- **The location of a device tells where it is**: what the runtime says of its
domain, bus and device can be read off it, and another id is given the same
location exactly if these are the same. -/
theorem location_tells (h : getDeviceProperties runtime id desc = .ok (true, found)) :
    ∃ prop, runtime.getDeviceProperties (ordinalOf id) = some prop ∧
      readLocation found.physicalLocation
        = (prop.pciDomainID, prop.pciBusID, prop.pciDeviceID) ∧
      ∀ id' desc' found', getDeviceProperties runtime id' desc' = .ok (true, found') →
        (found'.physicalLocation = found.physicalLocation ↔
          ∃ prop', runtime.getDeviceProperties (ordinalOf id') = some prop' ∧
            prop'.pciDomainID = prop.pciDomainID ∧ prop'.pciBusID = prop.pciBusID ∧
            prop'.pciDeviceID = prop.pciDeviceID) := by
  obtain ⟨prop, hprop, rfl⟩ := described h
  have hread := readLocation_pciIdToString prop.pciDomainID prop.pciBusID prop.pciDeviceID
  refine ⟨prop, hprop, hread, ?_⟩
  intro id' desc' found' h'
  obtain ⟨prop', hprop', rfl⟩ := described h'
  have hread' := readLocation_pciIdToString prop'.pciDomainID prop'.pciBusID prop'.pciDeviceID
  constructor
  · intro hsame
    have hsame : pciIdToString prop'.pciDomainID prop'.pciBusID prop'.pciDeviceID
        = pciIdToString prop.pciDomainID prop.pciBusID prop.pciDeviceID := hsame
    rw [hsame, hread] at hread'
    simp only [Prod.mk.injEq] at hread'
    exact ⟨prop', hprop', hread'.1.symm, hread'.2.1.symm, hread'.2.2.symm⟩
  · rintro ⟨_, hother, hdomain, hbus, hdevice⟩
    rw [hprop'] at hother
    cases hother
    simp [describe, hdomain, hbus, hdevice]

/-- A machine with two devices on one bus. -/
def twoDevices : CudaRuntime where
  getDeviceCount := some 2
  getDeviceProperties ordinal :=
    some ⟨"device", false, 0, 101, BitVec.ofInt 32 ordinal, 2 ^ 33⟩

theorem location_tells_two : ∃ desc found found',
    getDeviceProperties twoDevices 0 desc = .ok (true, found) ∧
      getDeviceProperties twoDevices 1 desc = .ok (true, found') ∧
      readLocation found.physicalLocation = (0, 101, 0) ∧
      found'.physicalLocation ≠ found.physicalLocation := by
  let desc : DeviceProperties := ⟨"", "", .gpu, 0, 0⟩
  have hfirst : getDeviceProperties twoDevices 0 desc
      = .ok (true, describe ⟨"device", false, 0, 101, 0, 2 ^ 33⟩) := rfl
  have hsecond : getDeviceProperties twoDevices 1 desc
      = .ok (true, describe ⟨"device", false, 0, 101, 1, 2 ^ 33⟩) := rfl
  obtain ⟨prop, hprop, hread, hsame⟩ := location_tells hfirst
  cases hprop
  refine ⟨desc, _, _, hfirst, hsecond, hread, fun heq => ?_⟩
  obtain ⟨prop', hprop', -, -, hdevice⟩ := (hsame 1 desc _ hsecond).mp heq
  cases hprop'
  exact absurd hdevice (by decide)

end CudaDeviceBackend

end RexlibCuda
