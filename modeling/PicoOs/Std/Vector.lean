import PicoOs.Library.Machine
import PicoOs.Library.Memory

/-! `Std/Vector`, with the buffers that its vectors own. Buffers are not used a second time,
and sizes are not reduced modulo 2 ^ 32, since no vector gets as large as 2 ^ 31. -/

namespace PicoOs.Std
open Library

/-- An object in a slot. Each object that is made in a slot gets a number of its own. -/
structure Element (T : Type u) where
  number : Nat
  value : T

/-- `Concepts::Primitive<T>` and `sizeof(T)`. -/
structure ElementType where
  primitive : Bool
  sizeOf : Nat
  positive : 0 < sizeOf

/-- `outside`, `vacant` and `dangling` stand for using a slot beyond the end, a slot without
an object and a buffer that has been released, and `undefined` for a shift by 32. -/
inductive VectorFault where
  | assertion
  | outside
  | vacant
  | dangling
  | undefined
  deriving DecidableEq

/-- `__builtin_clz` of a word that is not zero. -/
def clz (value : Nat) : Nat := 31 - Nat.log2 value

def roundToPowerOfTwo (value : Nat) : Except VectorFault Nat :=
  if value = 0 ∨ 32 - clz value ≥ 32 then .error .undefined else .ok (2 ^ (32 - clz value))

/-- Slots for objects, of which there are so many. -/
structure Storage (T : Type) where
  room : Nat
  slots : Nat → Option (Element T)

namespace Storage
variable {T : Type}

def empty (room : Nat) : Storage T := ⟨room, fun _ => none⟩

def load (storage : Storage T) (index : Nat) : Except VectorFault (Element T) :=
  if index < storage.room then
    match storage.slots index with
    | some element => .ok element
    | none => .error .vacant
  else .error .outside

def put (storage : Storage T) (index : Nat) (element : Option (Element T)) :
    Except VectorFault (Storage T) :=
  if index < storage.room then
    .ok { storage with slots := Function.update storage.slots index element } else .error .outside

/-- The values in so many slots, from `index` on. -/
def read (storage : Storage T) : Nat → Nat → Except VectorFault (List T)
  | 0, _ => .ok []
  | count + 1, index => do
    let element ← storage.load index
    let rest ← read storage count (index + 1)
    .ok (element.value :: rest)

end Storage

abbrev VectorId := Nat
abbrev BufferId := Nat

structure Vector (T : Type) where
  useInlineData : Bool
  size : Nat
  capacity : Nat
  inlineData : Storage T
  data : Option BufferId

/-- A `T*` to a slot of a vector or of a buffer, which need not exist any more. -/
inductive Slot where
  | inlineSlot (vector : VectorId) (index : Nat)
  | bufferSlot (buffer : Option BufferId) (index : Nat)
  deriving DecidableEq

inductive VectorEvent (T : Type) where
  | construct (vector : VectorId)
  | append (vector : VectorId) (value : T)
  | extend (vector : VectorId) (values : List T)
  | ensureCapacity (vector : VectorId) (newCapacity : Nat)
  | clear (vector : VectorId)
  | copyConstruct (target source : VectorId)
  | moveConstruct (target source : VectorId)
  | copyAssign (target source : VectorId)
  | moveAssign (target source : VectorId)
  | leave (vector : VectorId)

/-- The vectors in scope, the buffers that exist and those that have been released, and the
numbers of the objects whose destructor has run. -/
structure Vectors (T : Type) where
  vectors : VectorId → Option (Vector T)
  buffers : BufferId → Option (Storage T)
  nextBuffer : BufferId
  released : List BufferId
  next : Nat
  destroyed : List Nat

namespace Vectors
variable {T : Type}

def initial : Vectors T := ⟨fun _ => none, fun _ => none, 0, [], 0, []⟩

def emptyVector (inlineSize : Nat) : Vector T := ⟨true, 0, inlineSize, .empty inlineSize, none⟩

/-- A vector, which is not looked at when it is out of scope. -/
def vector (state : Vectors T) (id : VectorId) : Vector T := (state.vectors id).getD (emptyVector 0)

def replace (state : Vectors T) (id : VectorId) (vector : Vector T) : Vectors T :=
  { state with vectors := Function.update state.vectors id (some vector) }

def data (state : Vectors T) (id : VectorId) : Except VectorFault (Storage T) :=
  if (state.vector id).useInlineData then .ok (state.vector id).inlineData
  else
    match (state.vector id).data.bind state.buffers with
    | some storage => .ok storage
    | none => .error .dangling

def setData (state : Vectors T) (id : VectorId) (storage : Storage T) : Vectors T :=
  if (state.vector id).useInlineData then
    state.replace id { state.vector id with inlineData := storage }
  else
    match (state.vector id).data with
    | some buffer => { state with buffers := Function.update state.buffers buffer (some storage) }
    | none => state

/-- `operator delete[](m_data)` -/
def release (state : Vectors T) : Option BufferId → Except VectorFault (Vectors T)
  | none => .ok state
  | some buffer =>
    if (state.buffers buffer).isSome then
      .ok { state with buffers := Function.update state.buffers buffer none, released := buffer :: state.released }
    else .error .dangling

/-- `new u8[sizeof(T) * new_capacity]`, with the number of elements that there is room for. -/
def allocate (type : ElementType) (state : Vectors T) (newCapacity : Nat) :
    BufferId × Storage T × Vectors T :=
  (state.nextBuffer, .empty (wrap (type.sizeOf * newCapacity) / type.sizeOf),
    { state with nextBuffer := state.nextBuffer + 1 })

/-- The old and the new slots, the number of the next object and the objects that have been
destroyed. -/
abbrev Moved (T : Type) := Storage T × Storage T × Nat × List Nat

/-- The loop of `ensure_capacity`. -/
def moveElements : Nat → Nat → Moved T → Except VectorFault (Moved T)
  | 0, _, moved => .ok moved
  | count + 1, index, (old, new, next, destroyed) => do
    let element ← old.load index
    let new ← new.put index (some ⟨next, element.value⟩)
    let old ← old.put index none
    moveElements count (index + 1) (old, new, next + 1, element.number :: destroyed)

/-- `memcpy`, which leaves the old slots as they are. -/
def copyElements : Nat → Nat → Moved T → Except VectorFault (Moved T)
  | 0, _, moved => .ok moved
  | count + 1, index, (old, new, next, destroyed) => do
    let element ← old.load index
    let new ← new.put index (some element)
    copyElements count (index + 1) (old, new, next, destroyed)

/-- The branches of `ensure_capacity` for primitive and for other types. -/
def relocate (type : ElementType) (count : Nat) (moved : Moved T) : Except VectorFault (Moved T) :=
  if type.primitive then copyElements count 0 moved
  else if ¬type.sizeOf % 4 = 0 then .error .assertion
  else moveElements count 0 moved

/-- The last four lines of `ensure_capacity`. -/
def adopt (state : Vectors T) (id : VectorId) (newData : BufferId) (new : Storage T)
    (newCapacity : Nat) :
    Except VectorFault (Vectors T) := do
  let state ← state.release (state.vector id).data
  .ok (replace { state with buffers := Function.update state.buffers newData (some new) } id
    { state.vector id with data := some newData, capacity := newCapacity, useInlineData := false })

def ensureCapacity (type : ElementType) (state : Vectors T) (id : VectorId) (newCapacity : Nat) :
    Except VectorFault (Vectors T) :=
  if (state.vector id).capacity ≥ newCapacity then .ok state
  else do
    let newCapacity ← roundToPowerOfTwo newCapacity
    let (newData, new, state) := state.allocate type newCapacity
    if ¬newCapacity > (state.vector id).size then .error .assertion
    else
      let old ← state.data id
      let (old, new, next, destroyed) ← relocate type (state.vector id).size
        (old, new, state.next, state.destroyed)
      adopt { state.setData id old with next, destroyed } id newData new newCapacity

/-- `new (data() + m_size) T { value }; ++m_size;` -/
def place (state : Vectors T) (id : VectorId) (value : T) : Except VectorFault (Vectors T) := do
  let storage ← state.data id
  let storage ← storage.put (state.vector id).size (some ⟨state.next, value⟩)
  let state := { state.setData id storage with next := state.next + 1 }
  .ok (state.replace id { state.vector id with size := (state.vector id).size + 1 })

def append (type : ElementType) (state : Vectors T) (id : VectorId) (value : T) :
    Except VectorFault (Vectors T) := do
  let state ← state.ensureCapacity type id ((state.vector id).size + 1)
  state.place id value

def extend (type : ElementType) (state : Vectors T) (id : VectorId) (values : List T) :
    Except VectorFault (Vectors T) := do
  let state ← state.ensureCapacity type id ((state.vector id).size + values.length)
  values.foldlM (fun state value => state.append type id value) state

/-- The loop of `clear`. -/
def destroyElements : Nat → Nat → Storage T × List Nat → Except VectorFault (Storage T × List Nat)
  | 0, _, left => .ok left
  | count + 1, index, (storage, destroyed) => do
    let element ← storage.load index
    let storage ← storage.put index none
    destroyElements count (index + 1) (storage, element.number :: destroyed)

def clear (state : Vectors T) (id : VectorId) : Except VectorFault (Vectors T) :=
  if (state.vector id).size = 0 then .ok state
  else do
    let storage ← state.data id
    let (storage, destroyed) ← destroyElements (state.vector id).size 0 (storage, state.destroyed)
    let state := { state.setData id storage with destroyed }
    .ok (state.replace id { state.vector id with size := 0 })

def span (state : Vectors T) (id : VectorId) : Except VectorFault (List T) := do
  let storage ← state.data id
  storage.read (state.vector id).size 0

/-- `data() + index` -/
def slot (state : Vectors T) (id : VectorId) (index : Nat) : Slot :=
  if (state.vector id).useInlineData then .inlineSlot id index
  else .bufferSlot (state.vector id).data index

def dereference (state : Vectors T) : Slot → Except VectorFault T
  | .inlineSlot id index => do
    let element ← (state.vector id).inlineData.load index
    .ok element.value
  | .bufferSlot buffer index =>
    match buffer.bind state.buffers with
    | some storage => do
      let element ← storage.load index
      .ok element.value
    | none => .error .dangling

/-- `append`, whose argument is a reference that is used after `ensure_capacity`. -/
def appendSlot (type : ElementType) (id : VectorId) (state : Vectors T) (slot : Slot) :
    Except VectorFault (Vectors T) := do
  let state ← state.ensureCapacity type id ((state.vector id).size + 1)
  let value ← state.dereference slot
  state.place id value

/-- `vector.append(vector[index])` -/
def appendOwn (type : ElementType) (state : Vectors T) (id : VectorId) (index : Nat) :
    Except VectorFault (Vectors T) :=
  state.appendSlot type id (state.slot id index)

/-- `extend`, whose argument is a span that is used after `ensure_capacity`. -/
def extendSlots (type : ElementType) (state : Vectors T) (id : VectorId) (slots : List Slot) :
    Except VectorFault (Vectors T) := do
  let state ← state.ensureCapacity type id ((state.vector id).size + slots.length)
  slots.foldlM (appendSlot type id) state

/-- `vector.extend(vector.span())` -/
def extendOwn (type : ElementType) (state : Vectors T) (id : VectorId) :
    Except VectorFault (Vectors T) :=
  state.extendSlots type id ((List.range (state.vector id).size).map (state.slot id))

def copyAssign (type : ElementType) (state : Vectors T) (target source : VectorId) :
    Except VectorFault (Vectors T) := do
  let state ← state.clear target
  let values ← state.span source
  state.extend type target values

/-- The move assignment from a vector that uses a buffer. -/
def takeBuffer (inlineSize : Nat) (state : Vectors T) (target source : VectorId) :
    Except VectorFault (Vectors T) := do
  let other := state.vector source
  let state ← state.release (state.vector target).data
  let state := state.replace target { state.vector target with
    useInlineData := false, capacity := other.capacity, size := other.size, data := other.data }
  .ok (state.replace source { state.vector source with useInlineData := true, capacity := inlineSize, size := 0, data := none })

def moveAssign (type : ElementType) (inlineSize : Nat) (state : Vectors T)
    (target source : VectorId) :
    Except VectorFault (Vectors T) := do
  let state ← state.clear target
  if (state.vector source).useInlineData then
    let values ← state.span source
    let state ← state.extend type target values
    state.clear source
  else state.takeBuffer inlineSize target source

def leave (state : Vectors T) (id : VectorId) : Except VectorFault (Vectors T) := do
  let state ← state.clear id
  let state ← state.release (state.vector id).data
  .ok { state with vectors := Function.update state.vectors id none }

def construct (inlineSize : Nat) (state : Vectors T) (id : VectorId) : Vectors T :=
  state.replace id (emptyVector inlineSize)

def execute (type : ElementType) (inlineSize : Nat) (state : Vectors T) :
    VectorEvent T → Except VectorFault (Vectors T)
  | .construct id => .ok (state.construct inlineSize id)
  | .append id value => state.append type id value
  | .extend id values => state.extend type id values
  | .ensureCapacity id newCapacity => state.ensureCapacity type id newCapacity
  | .clear id => state.clear id
  | .copyConstruct target source =>
      (state.construct inlineSize target).copyAssign type target source
  | .moveConstruct target source =>
      (state.construct inlineSize target).moveAssign type inlineSize target source
  | .copyAssign target source => state.copyAssign type target source
  | .moveAssign target source => state.moveAssign type inlineSize target source
  | .leave id => state.leave id

/-- So many elements are fewer than 2 ^ 31, and the allocation that they may need succeeds:
there can be an array of the capacity that is asked for. -/
def Allocates (type : ElementType) (capacity count : Nat) : Prop :=
  count < 2 ^ 31 ∧ (count ≤ capacity ∨ type.sizeOf * 2 ^ (32 - clz count) < 2 ^ 32)

/-- A constructor makes a new vector, everything else is about vectors in scope, and a vector
is not assigned to itself. -/
def permitted (type : ElementType) (inlineSize : Nat) (state : Vectors T) : VectorEvent T → Prop
  | .construct id => state.vectors id = none
  | .append id _ =>
      (state.vectors id).isSome ∧ Allocates type (state.vector id).capacity
        ((state.vector id).size + 1)
  | .extend id values =>
    (state.vectors id).isSome ∧ Allocates type (state.vector id).capacity
      ((state.vector id).size + values.length)
  | .ensureCapacity id newCapacity =>
      (state.vectors id).isSome ∧ Allocates type (state.vector id).capacity newCapacity
  | .clear id | .leave id => (state.vectors id).isSome
  | .copyConstruct target source =>
    state.vectors target = none ∧ (state.vectors source).isSome ∧
      Allocates type inlineSize (state.vector source).size
  | .moveConstruct target source =>
    state.vectors target = none ∧ (state.vectors source).isSome ∧
      ((state.vector source).useInlineData → Allocates type inlineSize (state.vector source).size)
  | .copyAssign target source =>
    (state.vectors target).isSome ∧ (state.vectors source).isSome ∧ target ≠ source ∧
      Allocates type (state.vector target).capacity (state.vector source).size
  | .moveAssign target source =>
    (state.vectors target).isSome ∧ (state.vectors source).isSome ∧ target ≠ source ∧
      ((state.vector source).useInlineData →
        Allocates type (state.vector target).capacity (state.vector source).size)

instance (type : ElementType) (capacity count : Nat) :
    Decidable (Allocates type capacity count) := by
  unfold Allocates
  infer_instance

instance (type : ElementType) (inlineSize : Nat) (state : Vectors T) (event : VectorEvent T) :
    Decidable (state.permitted type inlineSize event) := by
  cases event <;> unfold permitted <;> infer_instance

def machine (type : ElementType) (inlineSize : Nat) :
    Machine (Vectors T) (VectorEvent T) VectorFault :=
  ⟨permitted type inlineSize, execute type inlineSize⟩

instance (type : ElementType) (inlineSize : Nat) (state : Vectors T) (event : VectorEvent T) :
    Decidable ((machine type inlineSize).permitted state event) :=
  inferInstanceAs (Decidable (state.permitted type inlineSize event))

end Vectors
end PicoOs.Std
