import PicoOs.Library.Machine
import PicoOs.Library.Memory
import PicoOs.Library.Packing

/-! The page allocator. Free blocks of `2^k` bytes hang on the list `m_blocks[k]`,
whose links are stored in the blocks themselves. The mutex around each call makes
the calls atomic; a call is one step here. -/

namespace PicoOs.Kernel
open Library

def maxPower : Nat := 19

def pageSize : Nat := 256

def pagePower : Nat := 8

/-- `sizeof(Block)` is `2^linkPower`: the word that holds `m_next`. -/
def linkPower : Nat := 2

/-- `(value - 1u + alignment) & -alignment` -/
def roundToAlignment (value alignment : Nat) : Nat :=
  wrap (minus value 1 + alignment) &&& minus 0 alignment

structure PageRange where
  power : Nat
  base : Nat
  deriving DecidableEq

namespace PageRange

def size (range : PageRange) : Nat := 2 ^ range.power

def stop (range : PageRange) : Nat := range.base + range.size

def cells (range : PageRange) : Set Nat := Set.Ico range.base range.stop

end PageRange

inductive PageFault where
  | assert
  | verify
  | hardFault
  deriving DecidableEq

structure PageAllocator where
  memory : Memory
  blocks : Nat → Nat

namespace PageAllocator

def setBlock (allocator : PageAllocator) (power base : Nat) : PageAllocator :=
  { allocator with blocks := fun other => if other = power then base else allocator.blocks other }

/-- The store of `m_next` is a word store, which the Cortex-M0+ only executes at aligned
addresses. -/
def deallocateLocked (allocator : PageAllocator) (range : PageRange) :
    Except PageFault PageAllocator :=
  if range.power ≤ maxPower then
    if range.base % 4 = 0 then
      .ok ({ allocator with memory := allocator.memory.store range.base (allocator.blocks range.power) }.setBlock
        range.power range.base)
    else .error .hardFault
  else .error .assert

/-- The recursion of `allocate_locked`, with the number of powers from `power` to `max_power`. -/
def allocateUp : Nat → PageAllocator → Nat → Except PageFault (Option PageRange × PageAllocator)
  | 0, _, _ => .error .assert
  | levels + 1, allocator, power =>
    if allocator.blocks power ≠ 0 then
      .ok (some ⟨power, allocator.blocks power⟩,
        allocator.setBlock power (allocator.memory.load (allocator.blocks power)))
    else if power < maxPower then do
      let (block, allocator) ← allocateUp levels allocator (power + 1)
      match block with
      | none => .ok (none, allocator)
      | some block =>
        let allocator ← allocator.deallocateLocked ⟨power, wrap (block.base + 2 ^ power)⟩
        .ok (some ⟨power, block.base⟩, allocator)
    else .error .assert

def allocateLocked (allocator : PageAllocator) (power : Nat) :
    Except PageFault (Option PageRange × PageAllocator) :=
  allocateUp (maxPower + 1 - power) allocator power

/-- The loop of `discover_blocks` over the remaining powers `page_power .. page_power + steps - 1`,
downwards. -/
def discoverFrom (areaEnd : Nat) : Nat → PageAllocator → Nat → Except PageFault PageAllocator
  | 0, allocator, _ => .ok allocator
  | steps + 1, allocator, areaStart =>
    let blockEnd := wrap (areaStart + 2 ^ (pagePower + steps))
    if blockEnd ≤ areaEnd then
      if areaStart % 2 ^ pagePower = 0 then do
        let allocator ← allocator.deallocateLocked ⟨pagePower + steps, areaStart⟩
        discoverFrom areaEnd steps allocator blockEnd
      else .error .verify
    else discoverFrom areaEnd steps allocator areaStart

def discoverBlocks (allocator : PageAllocator) (areaStart areaEnd : Nat) :
    Except PageFault PageAllocator :=
  discoverFrom areaEnd (maxPower + 1 - pagePower) allocator (roundToAlignment areaStart pageSize)

def construct (memory : Memory) (heapStart heapEnd : Nat) : Except PageFault PageAllocator :=
  discoverBlocks { memory, blocks := fun _ => 0 } heapStart heapEnd

end PageAllocator

/-- The allocator together with the ranges its callers own. -/
structure PageState where
  allocator : PageAllocator
  live : List PageRange

inductive PageEvent where
  | allocate (power : Nat)
  | deallocate (range : PageRange)
  | write (address : Nat) (value : UInt8)

namespace PageState

def permitted (state : PageState) : PageEvent → Prop
  | .allocate _ => True
  | .deallocate range => range ∈ state.live
  | .write address _ => ∃ range ∈ state.live, range.base ≤ address ∧ address < range.stop

instance (state : PageState) (event : PageEvent) : Decidable (state.permitted event) := by
  cases event <;> unfold permitted <;> infer_instance

def execute (state : PageState) : PageEvent → Except PageFault PageState
  | .allocate power => do
    let (range, allocator) ← state.allocator.allocateLocked power
    .ok { allocator, live := range.toList ++ state.live }
  | .deallocate range => do
    let allocator ← state.allocator.deallocateLocked range
    .ok { allocator, live := state.live.erase range }
  | .write address value =>
    .ok { state with allocator.memory := state.allocator.memory.write address value }

def machine : Machine PageState PageEvent PageFault where
  permitted := permitted
  execute := execute

instance (state : PageState) (event : PageEvent) : Decidable (machine.permitted state event) :=
  inferInstanceAs (Decidable (state.permitted event))

end PageState
end PicoOs.Kernel
