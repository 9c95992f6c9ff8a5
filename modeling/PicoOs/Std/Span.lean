import PicoOs.Std.Vector

/-! `Std/Span`, over the bytes in memory. An element is its bytes, which an assignment copies,
so that the elements are trivially copyable. -/

namespace PicoOs.Std
open Library

structure Span where
  data : Nat
  size : Nat

inductive SpanFault where
  | verify
  deriving DecidableEq

namespace Span

/-- `&(*this)[index]` -/
def element (type : ElementType) (span : Span) (index : Nat) : Nat :=
  span.data + type.sizeOf * index

def cells (type : ElementType) (span : Span) : Set Nat :=
  Set.Ico span.data (span.data + type.sizeOf * span.size)

/-- The loop of `copy_to`. -/
def assignElements (type : ElementType) (span other : Span) : Nat → Nat → Memory → Memory
  | 0, _, memory => memory
  | count + 1, index, memory =>
    assignElements type span other count (index + 1)
      (memory.copy (other.element type index) (span.element type index) type.sizeOf)

def copyTo (type : ElementType) (memory : Memory) (span other : Span) :
    Except SpanFault (Memory × Nat) :=
  if other.size ≥ span.size then .ok (assignElements type span other span.size 0 memory, other.size)
  else .error .verify

def copyTrimmedTo (memory : Memory) (span other : Span) : Memory × Nat :=
  let count := min span.size other.size
  (memory.copy other.data span.data count, count)

end Span
end PicoOs.Std
