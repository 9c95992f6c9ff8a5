import PicoOs.Library.Memory

/-! `__aeabi_memmove` of the user library. The processor only accesses aligned words
here, so a byte is read out of its word and written by rewriting its word. -/

namespace PicoOs.Userland
open Library

def unalignedReadU8 (memory : Memory) (source : Nat) : UInt8 :=
  let value := memory.load (source - source % 4)
  let value := value >>> (8 * (source % 4))
  .ofNat (value &&& 0xff)

def unalignedWriteU8 (memory : Memory) (destination : Nat) (newValue : UInt8) : Memory :=
  let value := memory.load (destination - destination % 4)
  let value :=
    if destination % 4 = 0 then value &&& 0xffffff00 ||| newValue.toNat <<< 0
    else if destination % 4 = 1 then value &&& 0xffff00ff ||| newValue.toNat <<< 8
    else if destination % 4 = 2 then value &&& 0xff00ffff ||| newValue.toNat <<< 16
    else if destination % 4 = 3 then value &&& 0x00ffffff ||| newValue.toNat <<< 24
    else value
  memory.store (destination - destination % 4) value

/-- The memory after the first `steps` iterations of the loop that copies from left to right. -/
def copyUp (destination source : Nat) : Nat → Memory → Memory
  | 0, memory => memory
  | i + 1, memory =>
    let memory := copyUp destination source i memory
    unalignedWriteU8 memory (wrap (destination + i)) (unalignedReadU8 memory (wrap (source + i)))

/-- The memory after the first `steps` iterations of the loop that copies from right to left. -/
def copyDown (destination source count : Nat) : Nat → Memory → Memory
  | 0, memory => memory
  | i + 1, memory =>
    let memory := copyDown destination source count i memory
    unalignedWriteU8 memory (minus (minus (wrap (destination + count)) i) 1)
      (unalignedReadU8 memory (minus (minus (wrap (source + count)) i) 1))

def aeabiMemmove (memory : Memory) (destination source count : Nat) : Memory :=
  if destination ≤ source then copyUp destination source count memory
  else copyDown destination source count count memory

end PicoOs.Userland
