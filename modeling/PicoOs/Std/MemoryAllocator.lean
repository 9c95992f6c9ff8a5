import PicoOs.Library.Machine
import PicoOs.Library.Memory

/-! The first-fit heap of `Std/MemoryAllocator`. Free nodes and live blocks carry
their header in the heap itself, so the allocator's state is the memory and the
address of the first free node. Trace output is left out. -/

namespace PicoOs.Std
open Library

/-- `sizeof(Node)`: the words `m_size` and `m_next` in front of `m_data`. -/
def sizeofNode : Nat := 8

structure Bytes where
  data : Nat
  size : Nat

def roundToWord (size : Nat) : Nat :=
  if size % 4 ≠ 0 then wrap (size + 4 - size % 4) else size

inductive HeapFault where
  | verify
  | verifyNotReached
  | exhausted
  deriving DecidableEq

structure MemoryAllocator where
  memory : Memory
  heap : Bytes
  freelist : Nat

namespace MemoryAllocator

def nodeSize (heap : MemoryAllocator) (entry : Nat) : Nat := heap.memory.load entry

def nodeNext (heap : MemoryAllocator) (entry : Nat) : Nat := heap.memory.load (entry + 4)

def nodeData (entry : Nat) : Nat := wrap (entry + sizeofNode)

def setSize (heap : MemoryAllocator) (entry size : Nat) : MemoryAllocator :=
  { heap with memory := heap.memory.store entry size }

def setNext (heap : MemoryAllocator) (entry next : Nat) : MemoryAllocator :=
  { heap with memory := heap.memory.store (entry + 4) next }

/-- `if (previous) previous->m_next = node; else m_freelist = node;` -/
def link (heap : MemoryAllocator) (previous node : Nat) : MemoryAllocator :=
  if previous ≠ 0 then heap.setNext previous node else { heap with freelist := node }

def construct (memory : Memory) (heap : Bytes) : MemoryAllocator :=
  let allocator : MemoryAllocator := { memory, heap, freelist := heap.data }
  (allocator.setSize heap.data (minus heap.size sizeofNode)).setNext heap.data 0

/-- The body of the loop in `allocate` for the entry that fits. -/
def split (heap : MemoryAllocator) (size previous entry : Nat) : MemoryAllocator :=
  let next := wrap (nodeData entry + roundToWord size)
  let heap := heap.setNext next (heap.nodeNext entry)
  let heap := heap.setSize next (minus (minus (heap.nodeSize entry) (roundToWord size)) sizeofNode)
  let heap := heap.link previous next
  let heap := heap.setNext entry 0
  heap.setSize entry (roundToWord size)

def allocateLoop (size : Nat) :
    Nat → MemoryAllocator → Nat → Nat → Except HeapFault (Nat × MemoryAllocator)
  | 0, _, _, _ => .error .exhausted
  | fuel + 1, heap, previous, entry =>
    if entry = 0 then .error .verifyNotReached
    else if heap.nodeSize entry ≥ wrap (size + sizeofNode) then
      if nodeData entry % 4 = 0 then .ok (nodeData entry, heap.split size previous entry)
      else .error .verify
    else allocateLoop size fuel heap entry (heap.nodeNext entry)

/-- The free list is walked with one unit of fuel for each byte of the heap. -/
def allocate (heap : MemoryAllocator) (size : Nat) : Except HeapFault (Nat × MemoryAllocator) :=
  allocateLoop size heap.heap.size heap 0 heap.freelist

/-- `left->m_size += sizeof(Node) + right->m_size` -/
def absorb (heap : MemoryAllocator) (left right : Nat) : MemoryAllocator :=
  heap.setSize left (wrap (heap.nodeSize left + (sizeofNode + heap.nodeSize right)))

/-- `left->m_data + left->m_size == (u8*)right` -/
def adjacent (heap : MemoryAllocator) (left right : Nat) : Bool :=
  wrap (nodeData left + heap.nodeSize left) = right

/-- The body of the loop in `deallocate` once `entry > target_entry`. -/
def insert (heap : MemoryAllocator) (target previous entry : Nat) : MemoryAllocator :=
  if previous ≠ 0 ∧ heap.adjacent previous target then
    let heap := heap.absorb previous target
    if heap.adjacent previous entry then
      (heap.absorb previous entry).setNext previous ((heap.absorb previous entry).nodeNext entry)
    else heap
  else
    let heap :=
      if heap.adjacent target entry then
        (heap.absorb target entry).setNext target ((heap.absorb target entry).nodeNext entry)
      else heap.setNext target entry
    heap.link previous target

/-- `none` when the loop ends without having met an entry above the target. -/
def deallocateLoop (target : Nat) :
    Nat → MemoryAllocator → Nat → Nat → Except HeapFault (Option MemoryAllocator)
  | 0, _, _, _ => .error .exhausted
  | fuel + 1, heap, previous, entry =>
    if entry = 0 then .ok none
    else if entry > target then .ok (some (heap.insert target previous entry))
    else deallocateLoop target fuel heap entry (heap.nodeNext entry)

def deallocateWalk (heap : MemoryAllocator) (pointer : Nat) :
    Except HeapFault (Option MemoryAllocator) :=
  deallocateLoop (minus pointer sizeofNode) heap.heap.size heap 0 heap.freelist

def deallocate (heap : MemoryAllocator) (pointer : Nat) : Except HeapFault MemoryAllocator :=
  if pointer = 0 then .ok heap
  else
    match heap.deallocateWalk pointer with
    | .error fault => .error fault
    | .ok (some heap) => .ok heap
    | .ok none => .ok { heap with freelist := minus pointer sizeofNode }

def reallocate (heap : MemoryAllocator) (pointer size : Nat) :
    Except HeapFault (Nat × MemoryAllocator) :=
  let entry := minus pointer sizeofNode
  if size < heap.nodeSize entry then .ok (pointer, heap)
  else do
    let (newPointer, heap) ← heap.allocate size
    let heap := { heap with memory := heap.memory.copy newPointer pointer (heap.nodeSize entry) }
    let heap ← heap.deallocate pointer
    .ok (newPointer, heap)

end MemoryAllocator

/-- A block handed out, with the size its user asked for. -/
structure Block where
  pointer : Nat
  requested : Nat
  deriving DecidableEq

/-- The allocator together with the blocks its users still own. -/
structure HeapState where
  allocator : MemoryAllocator
  live : List Block

inductive HeapEvent where
  | allocate (size : Nat)
  | deallocate (pointer : Nat)
  | reallocate (pointer size : Nat)
  | write (address : Nat) (value : UInt8)

namespace HeapState

def owns (state : HeapState) (pointer : Nat) : Prop := ∃ block ∈ state.live, block.pointer = pointer

instance (state : HeapState) (pointer : Nat) : Decidable (state.owns pointer) := by
  unfold owns; infer_instance

def release (state : HeapState) (pointer : Nat) : List Block :=
  state.live.filter (fun block => block.pointer ≠ pointer)

/-- The size `m_size` of the block that a live pointer designates. -/
def blockSize (state : HeapState) (pointer : Nat) : Nat :=
  state.allocator.nodeSize (minus pointer sizeofNode)

def inPayload (state : HeapState) (address : Nat) : Prop :=
  ∃ block ∈ state.live, block.pointer ≤ address ∧
    address < block.pointer + state.blockSize block.pointer

instance (state : HeapState) (address : Nat) : Decidable (state.inPayload address) := by
  unfold inPayload; infer_instance

/-- What users of the heap may do: sizes whose sum with the header does not wrap,
pointers that are live, and writes into the payload of their own blocks. -/
def permitted (state : HeapState) : HeapEvent → Prop
  | .allocate size => size + sizeofNode < 2 ^ 32
  | .deallocate pointer => pointer = 0 ∨ state.owns pointer
  | .reallocate pointer size => state.owns pointer ∧ size + sizeofNode < 2 ^ 32
  | .write address _ => state.inPayload address

instance (state : HeapState) (event : HeapEvent) : Decidable (state.permitted event) := by
  cases event <;> unfold permitted <;> infer_instance

def execute (state : HeapState) : HeapEvent → Except HeapFault HeapState
  | .allocate size => do
    let (pointer, allocator) ← state.allocator.allocate size
    .ok { allocator, live := ⟨pointer, size⟩ :: state.live }
  | .deallocate pointer => do
    let allocator ← state.allocator.deallocate pointer
    .ok { allocator, live := state.release pointer }
  | .reallocate pointer size => do
    let (newPointer, allocator) ← state.allocator.reallocate pointer size
    .ok { allocator, live := ⟨newPointer, size⟩ :: state.release pointer }
  | .write address value =>
    .ok { state with allocator.memory := state.allocator.memory.write address value }

def machine : Machine HeapState HeapEvent HeapFault where
  permitted := permitted
  execute := execute

instance (state : HeapState) (event : HeapEvent) : Decidable (machine.permitted state event) :=
  inferInstanceAs (Decidable (state.permitted event))

def initial (memory : Memory) (heap : Bytes) : HeapState := ⟨.construct memory heap, []⟩

end HeapState
end PicoOs.Std
