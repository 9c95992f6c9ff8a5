import PicoOs.Kernel.PageAllocator

/-! Hardware that is given page ranges: the regions of the MPU, as `setup_context`
and `Process::create` program them, and the DMA ring of the UART. -/

namespace PicoOs.Kernel.MPU
open PicoOs.Kernel

/-- The fields `rbar.addr` and `rasr.size` of a region. -/
structure Region where
  addr : Nat
  size : Nat
  deriving DecidableEq

/-- `none` where `compute_size` fails one of its checks. -/
def computeSize (size : Nat) : Option Nat :=
  if 2 ^ size.log2 = size ∧ 1 ≤ size.log2 then some (size.log2 - 1) else none

def regionOf (range : PageRange) : Option Region :=
  (computeSize range.size).map fun size => { addr := range.base >>> 5, size }

/-- The hardware ignores the bits of the base below the size of the region. -/
def Region.base (region : Region) : Nat :=
  region.addr <<< 5 / 2 ^ (region.size + 1) * 2 ^ (region.size + 1)

def Region.cells (region : Region) : Set Nat :=
  Set.Ico region.base (region.base + 2 ^ (region.size + 1))

end PicoOs.Kernel.MPU

namespace PicoOs.Kernel.DMA

/-- The next write address of a ring of `2^power` bytes: only the low `power` bits change. -/
def ringNext (power address : Nat) : Nat :=
  address / 2 ^ power * 2 ^ power + (address + 1) % 2 ^ power

end PicoOs.Kernel.DMA
