import Mathlib.Data.BitVec
import RexlibCuda.MemoryBlockAllocator

/-! `cuda_device_backend`: which devices there are, what they are like, and
handles to them. The runtime of the driver is not part of the repository; what
it answers is a parameter. An `int` is an integer, an id is a word of 64 bits. -/

namespace RexlibCuda

/-- `cudaDeviceProp`, as far as it is read. -/
structure CudaDeviceProp where
  name : String
  integrated : Bool
  pciDomainID : BitVec 32
  pciBusID : BitVec 32
  pciDeviceID : BitVec 32
  totalGlobalMem : Nat

/-- What the CUDA runtime answers. `none` is a failure. -/
structure CudaRuntime where
  /-- `cudaGetDeviceCount` -/
  getDeviceCount : Option Int
  /-- `cudaGetDeviceProperties` -/
  getDeviceProperties : Int → Option CudaDeviceProp

/-- `device_type`, as far as it is given. -/
inductive DeviceType where
  | gpu
  | integratedGpu
deriving DecidableEq

/-- `device_properties` -/
structure DeviceProperties where
  name : String
  physicalLocation : String
  type : DeviceType
  totalMemoryBytes : Nat
  optimalDataAlignment : Nat

/-- `memory_resource_kind`, as far as it is given. -/
inductive MemoryResourceKind where
  | hostStaging
  | unified
deriving DecidableEq

/-- `cuda_device` -/
structure CudaDevice where
  ordinal : Int
  /-- The ordinal `m_events` makes its events for. -/
  events : Int
  /-- The ordinal of `m_memory`, unless it is null. -/
  memory : Option Int

/-- `REXLIB_CUDA_COALESCE_ALIGN_BYTES` -/
def coalesceAlignBytes : Nat := 256

/-- How a stream prints an `int` after `std::hex`, `std::setfill('0')` and
`std::setw(width)`. -/
def printHex (width : Nat) (x : BitVec 32) : String :=
  let digits := Nat.toDigits 16 x.toNat
  String.ofList (List.replicate (width - digits.length) '0' ++ digits)

def pciIdToString (domainId busId deviceId : BitVec 32) : String :=
  printHex 4 domainId ++ ":" ++ printHex 2 busId ++ ":" ++ printHex 2 deviceId ++ ".0"

/-- `static_cast<int>(id)` -/
def ordinalOf (id : BitVec 64) : Int := (id.setWidth 32).toInt

namespace CudaDeviceBackend

variable (runtime : CudaRuntime)

/-- The `count` of `enumerate_devices` and of `create_device`, which is zero
where the runtime fails to tell. -/
def countOrZero : Int := runtime.getDeviceCount.getD 0

def enumerateDevices : List (BitVec 64) :=
  (List.range (countOrZero runtime).toNat).map (BitVec.ofNat 64)

/-- What `get_device_properties` makes of the properties of a device. -/
def describe (prop : CudaDeviceProp) : DeviceProperties where
  name := prop.name
  physicalLocation := pciIdToString prop.pciDomainID prop.pciBusID prop.pciDeviceID
  type := if prop.integrated then .integratedGpu else .gpu
  totalMemoryBytes := prop.totalGlobalMem
  optimalDataAlignment := coalesceAlignBytes

/-- `get_device_properties`: what it returns, and what it leaves in `desc`. -/
def getDeviceProperties (id : BitVec 64) (desc : DeviceProperties) :
    Except Exn (Bool × DeviceProperties) :=
  match runtime.getDeviceCount with
  | none => .ok (false, desc)
  | some count =>
      let ordinal := ordinalOf id
      if ordinal < count then
        match runtime.getDeviceProperties ordinal with
        | some prop => .ok (true, describe prop)
        | none => .error .error
      else .ok (false, desc)

/-- `query_pinned_memory_kind` -/
def queryPinnedMemoryKind : MemoryResourceKind :=
  match runtime.getDeviceCount with
  | none => .hostStaging
  | some count =>
      if count = 0 then .hostStaging
      else if (List.range count.toNat).all fun ordinal =>
          (runtime.getDeviceProperties ordinal).any (·.integrated) then .unified
      else .hostStaging

/-- `cuda_device::cuda_device` -/
def makeDevice (ordinal : Int) : CudaDevice where
  ordinal
  events := ordinal
  memory := if queryPinnedMemoryKind runtime ≠ .unified then some ordinal else none

/-- `create_device` -/
def createDevice (id : BitVec 64) : Except Exn CudaDevice :=
  let ordinal := ordinalOf id
  if ordinal ≥ countOrZero runtime then .error (.invalidArgument "Invalid device id")
  else .ok (makeDevice runtime ordinal)

end CudaDeviceBackend

end RexlibCuda
