import PicoOs.Kernel.KernelMutex
import PicoOs.Std.MemoryAllocator

/-! The heap of the kernel: `Std/MemoryAllocator` behind `malloc_mutex`. The functions of
the base class are virtual, so what they call takes the mutex as well. -/

namespace PicoOs.Kernel
open Library PicoOs.Std

/-- What keeps a call from returning: an assertion, or a thread that has to wait in
`lock()`, with the mutex it waits on. -/
inductive Stopped where
  | heap (fault : HeapFault)
  | kernel (fault : KernelFault)
  | waits (mutex : KernelMutex)
  deriving DecidableEq

structure GlobalMemoryAllocator where
  allocator : MemoryAllocator
  mallocMutex : KernelMutex

namespace GlobalMemoryAllocator

def lock (heap : GlobalMemoryAllocator) (thread : ThreadId) :
    Except Stopped GlobalMemoryAllocator :=
  match heap.mallocMutex.lock thread with
  | .error fault => .error (.kernel fault)
  | .ok mallocMutex =>
      if heap.mallocMutex.taken then .error (.waits mallocMutex) else .ok { heap with mallocMutex }

def unlock (heap : GlobalMemoryAllocator) : GlobalMemoryAllocator :=
  { heap with mallocMutex := heap.mallocMutex.unlock }

def setMutexEnabled (heap : GlobalMemoryAllocator) (enabled : Bool) : GlobalMemoryAllocator :=
  { heap with mallocMutex := { heap.mallocMutex with enabled } }

def allocate (heap : GlobalMemoryAllocator) (thread : ThreadId) (size : Nat) :
    Except Stopped (Nat × GlobalMemoryAllocator) := do
  let heap ← heap.lock thread
  match heap.allocator.allocate size with
  | .error fault => .error (.heap fault)
  | .ok (pointer, allocator) => .ok (pointer, { heap with allocator }.unlock)

def deallocate (heap : GlobalMemoryAllocator) (thread : ThreadId) (pointer : Nat) :
    Except Stopped GlobalMemoryAllocator := do
  let heap ← heap.lock thread
  match heap.allocator.deallocate pointer with
  | .error fault => .error (.heap fault)
  | .ok allocator => .ok { heap with allocator }.unlock

/-- `MemoryAllocator::reallocate`, with the calls it makes through the virtual table of
this class. -/
def reallocateBase (heap : GlobalMemoryAllocator) (thread : ThreadId) (pointer size : Nat) :
    Except Stopped (Nat × GlobalMemoryAllocator) :=
  let entry := minus pointer sizeofNode
  if size < heap.allocator.nodeSize entry then .ok (pointer, heap)
  else do
    let (newPointer, heap) ← heap.allocate thread size
    let memory := heap.allocator.memory.copy newPointer pointer (heap.allocator.nodeSize entry)
    let heap ← { heap with allocator.memory := memory }.deallocate thread pointer
    .ok (newPointer, heap)

def reallocate (heap : GlobalMemoryAllocator) (thread : ThreadId) (pointer size : Nat) :
    Except Stopped (Nat × GlobalMemoryAllocator) := do
  let heap ← heap.lock thread
  let (pointer, heap) ← heap.reallocateBase thread pointer size
  .ok (pointer, heap.unlock)

def malloc (heap : GlobalMemoryAllocator) (thread : ThreadId) (size : Nat) :=
  heap.allocate thread size

def calloc (heap : GlobalMemoryAllocator) (thread : ThreadId) (nmembers size : Nat) :
    Except Stopped (Nat × GlobalMemoryAllocator) := do
  let (pointer, heap) ← heap.allocate thread (wrap (nmembers * size))
  .ok (pointer, { heap with allocator.memory := heap.allocator.memory.fill pointer 0 (wrap (nmembers * size)) })

def free (heap : GlobalMemoryAllocator) (thread : ThreadId) (pointer : Nat) :=
  heap.deallocate thread pointer

def realloc (heap : GlobalMemoryAllocator) (thread : ThreadId) (pointer size : Nat) :=
  heap.reallocate thread pointer size

def reallocarray (heap : GlobalMemoryAllocator) (thread : ThreadId) (pointer nmembers size : Nat) :=
  heap.reallocate thread pointer (wrap (nmembers * size))

/-- `operator new` and `operator new[]` -/
def operatorNew (heap : GlobalMemoryAllocator) (thread : ThreadId) (size : Nat) :=
  heap.allocate thread size

/-- `operator delete` and `operator delete[]` -/
def operatorDelete (heap : GlobalMemoryAllocator) (thread : ThreadId) (pointer : Nat) :=
  heap.deallocate thread pointer

end GlobalMemoryAllocator

inductive HeapCall where
  | allocate (size : Nat)
  | deallocate (pointer : Nat)
  | reallocate (pointer size : Nat)
  | malloc (size : Nat)
  | calloc (nmembers size : Nat)
  | free (pointer : Nat)
  | realloc (pointer size : Nat)
  | reallocarray (pointer nmembers size : Nat)
  | operatorNew (size : Nat)
  | operatorDelete (pointer : Nat)

namespace HeapCall

/-- What the call asks of the heap. -/
def request : HeapCall → HeapEvent
  | .allocate size | .malloc size | .operatorNew size => .allocate size
  | .calloc nmembers size => .allocate (wrap (nmembers * size))
  | .deallocate pointer | .free pointer | .operatorDelete pointer => .deallocate pointer
  | .reallocate pointer size | .realloc pointer size => .reallocate pointer size
  | .reallocarray pointer nmembers size => .reallocate pointer (wrap (nmembers * size))

def run (heap : GlobalMemoryAllocator) (thread : ThreadId) :
    HeapCall → Except Stopped GlobalMemoryAllocator
  | .allocate size => Prod.snd <$> heap.allocate thread size
  | .deallocate pointer => heap.deallocate thread pointer
  | .reallocate pointer size => Prod.snd <$> heap.reallocate thread pointer size
  | .malloc size => Prod.snd <$> heap.malloc thread size
  | .calloc nmembers size => Prod.snd <$> heap.calloc thread nmembers size
  | .free pointer => heap.free thread pointer
  | .realloc pointer size => Prod.snd <$> heap.realloc thread pointer size
  | .reallocarray pointer nmembers size =>
      Prod.snd <$> heap.reallocarray thread pointer nmembers size
  | .operatorNew size => Prod.snd <$> heap.operatorNew thread size
  | .operatorDelete pointer => heap.operatorDelete thread pointer

end HeapCall

/-- A request for memory through one of the functions of the C library. -/
inductive Request where
  | malloc (size : Nat)
  | calloc (nmembers size : Nat)
  | realloc (pointer size : Nat)
  | reallocarray (pointer nmembers size : Nat)

namespace Request

def answer (heap : GlobalMemoryAllocator) (thread : ThreadId) :
    Request → Except Stopped (Nat × GlobalMemoryAllocator)
  | .malloc size => heap.malloc thread size
  | .calloc nmembers size => heap.calloc thread nmembers size
  | .realloc pointer size => heap.realloc thread pointer size
  | .reallocarray pointer nmembers size => heap.reallocarray thread pointer nmembers size

def words : Request → Prop
  | .malloc size | .realloc _ size => size < 2 ^ 32
  | .calloc nmembers size | .reallocarray _ nmembers size => nmembers < 2 ^ 32 ∧ size < 2 ^ 32

/-- The bytes that are asked for, as a number of any size. -/
def exact : Request → Nat
  | .malloc size | .realloc _ size => size
  | .calloc nmembers size | .reallocarray _ nmembers size => nmembers * size

def resized : Request → Option Nat
  | .malloc _ | .calloc _ _ => none
  | .realloc pointer _ | .reallocarray pointer _ _ => some pointer

end Request
end PicoOs.Kernel
