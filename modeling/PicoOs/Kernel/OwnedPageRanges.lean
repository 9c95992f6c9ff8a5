import PicoOs.Kernel.PageAllocator
import PicoOs.Std.Vector

/-! `OwnedPageRange` objects, which are in variables, in `Optional<OwnedPageRange>` and in
`Vector<OwnedPageRange>`. Everything is done in thread mode. An `Optional` that is out of scope
is empty here, a vector that is out of scope is as its constructor makes it, and no vector is
so large that the size of its buffer in bytes is reduced modulo 2 ^ 32. -/

namespace PicoOs.Kernel
open Library

/-- A range that `allocate_locked` has returned. Each of them gets a number of its own. -/
structure Grant where
  number : Nat
  range : PageRange
  deriving DecidableEq

/-- `m_range`, an `Optional<PageRange>` whose contents have no destructor. -/
structure OwnedPageRange where
  range : Option Grant

/-- Where an object can be: the `m_value` of an `Optional`, or a slot of the buffer that a
vector points to. -/
inductive Place where
  | object (id : Nat)
  | optional (id : Nat)
  | slot (buffer : Option Nat) (index : Nat)
  | temporary
  deriving DecidableEq

structure RangeVector where
  size : Nat
  capacity : Nat
  data : Option Nat

/-- `dangling` stands for the use of an object that does not exist. -/
inductive OwnerFault where
  | pages (fault : PageFault)
  | vector (fault : Std.VectorFault)
  | assert
  | verify
  | dangling

/-- The objects that exist, and the numbers of the ranges that `deallocate` has given back. -/
structure PageOwners where
  allocator : PageAllocator
  objects : Place → Option OwnedPageRange
  vectors : Nat → RangeVector
  nextBuffer : Nat
  next : Nat
  given : List Nat

inductive OwnerEvent where
  | allocate (target power : Nat)
  | moveConstruct (target : Nat) (source : Place)
  | moveAssign (target source : Place)
  | deallocate (place : Place)
  | destroy (id : Nat)
  | setValue (target : Nat) (source : Place)
  | setOptional (target source : Nat)
  | must (target source : Nat)
  | clear (id : Nat)
  | append (vector : Nat) (source : Place)
  | ensureCapacity (vector newCapacity : Nat)
  | clearVector (vector : Nat)
  | leaveVector (vector : Nat)
  | write (place : Place) (address : Nat) (value : UInt8)

namespace RangeVector

def empty : RangeVector := ⟨0, 0, none⟩

end RangeVector

namespace PageOwners

def initial (allocator : PageAllocator) : PageOwners :=
  ⟨allocator, fun _ => none, fun _ => .empty, 0, 0, []⟩

/-- The range that is held at a place. -/
def grant (owners : PageOwners) (place : Place) : Option Grant :=
  (owners.objects place).bind OwnedPageRange.range

def object (owners : PageOwners) (place : Place) : Except OwnerFault OwnedPageRange :=
  match owners.objects place with
  | some object => .ok object
  | none => .error .dangling

def put (owners : PageOwners) (place : Place) (object : Option OwnedPageRange) : PageOwners :=
  { owners with objects := Function.update owners.objects place object }

/-- `m_range = move(other.m_range)`, where what is in `m_range` is cleared first. -/
def takeRange (owners : PageOwners) (target source : Place) : Except OwnerFault PageOwners := do
  let _ ← owners.object target
  let owners := owners.put target (some ⟨none⟩)
  let other ← owners.object source
  match other.range with
  | none => .ok owners
  | some grant => .ok ((owners.put target (some ⟨some grant⟩)).put source (some ⟨none⟩))

/-- `OwnedPageRange(OwnedPageRange&&)` -/
def moveConstruct (owners : PageOwners) (target source : Place) : Except OwnerFault PageOwners :=
  (owners.put target (some ⟨none⟩)).takeRange target source

/-- `operator=(OwnedPageRange&&)` -/
def moveAssign (owners : PageOwners) (target source : Place) : Except OwnerFault PageOwners :=
  owners.takeRange target source

def deallocate (owners : PageOwners) (place : Place) : Except OwnerFault PageOwners := do
  let object ← owners.object place
  match object.range with
  | none => .error .verify
  | some grant => do
    let owners := owners.put place (some ⟨none⟩)
    let allocator ← (owners.allocator.deallocateLocked grant.range).mapError .pages
    .ok { owners with allocator, given := grant.number :: owners.given }

def destroy (owners : PageOwners) (place : Place) : Except OwnerFault PageOwners := do
  let object ← owners.object place
  let owners ← (if object.range.isSome then owners.deallocate place else .ok owners)
  .ok (owners.put place none)

/-- `PageAllocator::allocate`, whose result is a new `Optional`. -/
def allocate (owners : PageOwners) (target power : Nat) : Except OwnerFault PageOwners := do
  let (range, allocator) ← (owners.allocator.allocateLocked power).mapError .pages
  let owners := { owners with allocator }
  match range with
  | none => .ok owners
  | some range => do
    let owners := { owners.put .temporary (some ⟨some ⟨owners.next, range⟩⟩) with next := owners.next + 1 }
    let owners ← owners.moveConstruct (.optional target) .temporary
    owners.destroy .temporary

def clear (owners : PageOwners) (id : Nat) : Except OwnerFault PageOwners :=
  if (owners.objects (.optional id)).isSome then owners.destroy (.optional id) else .ok owners

/-- `Optional::operator=(T&&)`, and the constructor for an `Optional` that is empty. -/
def setValue (owners : PageOwners) (target : Nat) (source : Place) :
    Except OwnerFault PageOwners := do
  let owners ← owners.clear target
  owners.moveConstruct (.optional target) source

/-- `Optional::operator=(Optional&&)`, which the constructor calls as well. -/
def setOptional (owners : PageOwners) (target source : Nat) : Except OwnerFault PageOwners := do
  let owners ← owners.clear target
  if (owners.objects (.optional source)).isSome then
    let owners ← owners.moveConstruct (.optional target) (.optional source)
    owners.clear source
  else .ok owners

/-- `Optional::must() &&`, whose result is a new object. -/
def must (owners : PageOwners) (target source : Nat) : Except OwnerFault PageOwners :=
  if (owners.objects (.optional source)).isSome then do
    let owners ← owners.moveConstruct .temporary (.optional source)
    let owners ← owners.clear source
    let owners ← owners.moveConstruct (.object target) .temporary
    owners.destroy .temporary
  else .error .verify

/-- The loop of `Vector::ensure_capacity`. -/
def moveElements (old : Option Nat) (new : Nat) :
    Nat → Nat → PageOwners → Except OwnerFault PageOwners
  | 0, _, owners => .ok owners
  | count + 1, index, owners => do
    let owners ← owners.moveConstruct (.slot (some new) index) (.slot old index)
    let owners ← owners.destroy (.slot old index)
    moveElements old new count (index + 1) owners

def setVector (owners : PageOwners) (id : Nat) (vector : RangeVector) : PageOwners :=
  { owners with vectors := Function.update owners.vectors id vector }

def ensureCapacity (owners : PageOwners) (id newCapacity : Nat) : Except OwnerFault PageOwners :=
  if (owners.vectors id).capacity ≥ newCapacity then .ok owners
  else do
    let newCapacity ← (Std.roundToPowerOfTwo newCapacity).mapError .vector
    if ¬newCapacity > (owners.vectors id).size then .error .assert
    else
      let newData := owners.nextBuffer
      let owners ← moveElements (owners.vectors id).data newData (owners.vectors id).size 0
        { owners with nextBuffer := newData + 1 }
      .ok (owners.setVector id { owners.vectors id with data := some newData, capacity := newCapacity })

/-- `Vector::append(T&&)` -/
def append (owners : PageOwners) (id : Nat) (source : Place) : Except OwnerFault PageOwners := do
  let owners ← owners.ensureCapacity id ((owners.vectors id).size + 1)
  let owners ← owners.moveConstruct (.slot (owners.vectors id).data (owners.vectors id).size) source
  .ok (owners.setVector id { owners.vectors id with size := (owners.vectors id).size + 1 })

/-- The loop of `Vector::clear`. -/
def destroyElements (data : Option Nat) : Nat → Nat → PageOwners → Except OwnerFault PageOwners
  | 0, _, owners => .ok owners
  | count + 1, index, owners => do
    let owners ← owners.destroy (.slot data index)
    destroyElements data count (index + 1) owners

def clearVector (owners : PageOwners) (id : Nat) : Except OwnerFault PageOwners := do
  let owners ← destroyElements (owners.vectors id).data (owners.vectors id).size 0 owners
  .ok (owners.setVector id { owners.vectors id with size := 0 })

/-- `Vector::~Vector` -/
def leaveVector (owners : PageOwners) (id : Nat) : Except OwnerFault PageOwners := do
  let owners ← owners.clearVector id
  .ok (owners.setVector id .empty)

def execute (owners : PageOwners) : OwnerEvent → Except OwnerFault PageOwners
  | .allocate target power => owners.allocate target power
  | .moveConstruct target source => owners.moveConstruct (.object target) source
  | .moveAssign target source => owners.moveAssign target source
  | .deallocate place => owners.deallocate place
  | .destroy id => owners.destroy (.object id)
  | .setValue target source => owners.setValue target source
  | .setOptional target source => owners.setOptional target source
  | .must target source => owners.must target source
  | .clear id => owners.clear id
  | .append id source => owners.append id source
  | .ensureCapacity id newCapacity => owners.ensureCapacity id newCapacity
  | .clearVector id => owners.clearVector id
  | .leaveVector id => owners.leaveVector id
  | .write _ address value =>
      .ok { owners with allocator.memory := owners.allocator.memory.write address value }

/-- New objects are made where there are none, and a range is written by the one who holds it. -/
def permitted (owners : PageOwners) : OwnerEvent → Prop
  | .allocate target _ => (owners.objects (.optional target)).isNone
  | .moveConstruct target _ | .must target _ => (owners.objects (.object target)).isNone
  | .write place address _ =>
      (owners.grant place).any fun grant => grant.range.base ≤ address ∧ address < grant.range.stop
  | _ => True

instance (owners : PageOwners) (event : OwnerEvent) : Decidable (owners.permitted event) := by
  refine @OwnerEvent.casesOn (fun event => Decidable (owners.permitted event)) event ?_ ?_ ?_ ?_ ?_
    ?_ ?_ ?_ ?_ ?_ ?_ ?_ ?_ ?_ <;>
    intros <;> unfold permitted <;> infer_instance

/-- An assignment to an object that holds a range. -/
def Overwrites (owners : PageOwners) : OwnerEvent → Prop
  | .moveAssign target _ => (owners.grant target).isSome
  | _ => False

def machine : Machine PageOwners OwnerEvent OwnerFault := ⟨permitted, execute⟩

instance (owners : PageOwners) (event : OwnerEvent) : Decidable (machine.permitted owners event) :=
  inferInstanceAs (Decidable (owners.permitted event))

end PageOwners
end PicoOs.Kernel
