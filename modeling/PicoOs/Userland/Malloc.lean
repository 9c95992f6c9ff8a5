import PicoOs.Library.Memory
import PicoOs.Library.Outcome

/-! `malloc` and `realloc` of the user library. Nothing is ever freed. -/

namespace PicoOs.Userland
open Library

inductive MallocFault where
  | assert
  deriving DecidableEq

/-- The linker's symbols `__libc_heap_start` and `__libc_heap_end`, as a process finds them. -/
structure HeapSymbols where
  start : Nat
  stop : Nat

namespace HeapSymbols

def heapStart (symbols : HeapSymbols) : Nat := symbols.start

/-- The macro `heap_end` is defined with `__libc_heap_start`. -/
def heapEnd (symbols : HeapSymbols) : Nat := symbols.start

end HeapSymbols

def roundToWord (size : Nat) : Nat :=
  if size % 4 ≠ 0 then minus (wrap (size + 4)) (size % 4) else size

/-- The pointer that is returned, and `__libc_heap` afterwards. -/
def malloc (symbols : HeapSymbols) (heap size : Nat) : Except MallocFault (Nat × Nat) :=
  let heap := if heap = 0 then symbols.heapStart else heap
  let size := roundToWord size
  let heap := wrap (heap + size)
  let pointer := minus heap size
  if pointer ≤ symbols.heapEnd then .ok (pointer, heap) else .error .assert

def realloc (pointer _size : Nat) : Nat := pointer

/-- A block that is given to `realloc` is named by its number among those handed out. -/
inductive MallocCall where
  | malloc (size : Nat)
  | realloc (block size : Nat)
  deriving DecidableEq

/-- `__libc_heap`, and the blocks handed out with the sizes that were asked for last. -/
structure UserHeap where
  heap : Nat
  blocks : List Area
  deriving DecidableEq

namespace UserHeap

def execute (symbols : HeapSymbols) (state : UserHeap) : MallocCall → Except MallocFault UserHeap
  | .malloc size => do
    let (pointer, heap) ← Userland.malloc symbols state.heap size
    .ok ⟨heap, state.blocks ++ [⟨pointer, size⟩]⟩
  | .realloc block size =>
    match state.blocks[block]? with
    | some area =>
        .ok { state with blocks := state.blocks.set block ⟨Userland.realloc area.address size, size⟩ }
    | none => .ok state

def run (symbols : HeapSymbols) (calls : List MallocCall) : Except MallocFault UserHeap :=
  calls.foldlM (execute symbols) ⟨0, []⟩

end UserHeap
end PicoOs.Userland
