import PicoOs.Library.Machine

/-! The reference counting of `Std/RefPtr`. References to objects are not used a second
time, and `m_refcount` is not reduced modulo 2 ^ 32: every reference that it counts is a
variable of four bytes. -/

namespace PicoOs.Std
open Library

abbrev ObjectRef := Nat

/-- `dangling` stands for using an object that has been destroyed. -/
inductive RefFault where
  | verify
  | dangling
  deriving DecidableEq

/-- `m_refcount` of every object that exists, and the objects whose destructor has run,
the last one first. -/
structure RefCounted where
  refcount : ObjectRef → Option Nat
  next : ObjectRef
  destroyed : List ObjectRef

namespace RefCounted

def initial : RefCounted := ⟨fun _ => none, 0, []⟩

def load (objects : RefCounted) (object : ObjectRef) : Except RefFault Nat :=
  match objects.refcount object with
  | some count => .ok count
  | none => .error .dangling

def store (objects : RefCounted) (object : ObjectRef) (count : Nat) : RefCounted :=
  { objects with refcount := Function.update objects.refcount object (some count) }

/-- `delete static_cast<T*>(this)` -/
def delete (objects : RefCounted) (object : ObjectRef) : RefCounted :=
  { objects with refcount := Function.update objects.refcount object none, destroyed := object :: objects.destroyed }

def ref (objects : RefCounted) (object : ObjectRef) : Except RefFault RefCounted := do
  let count ← objects.load object
  if count ≥ 1 then .ok (objects.store object (count + 1)) else .error .verify

def unref (objects : RefCounted) (object : ObjectRef) : Except RefFault RefCounted := do
  let count ← objects.load object
  if count > 0 then
    let objects := objects.store object (count - 1)
    if count - 1 = 0 then .ok (objects.delete object) else .ok objects
  else .error .verify

/-- `new T { ... }` -/
def create (objects : RefCounted) : ObjectRef × RefCounted :=
  (objects.next, { objects.store objects.next 1 with next := objects.next + 1 })

end RefCounted

abbrev VariableId := Nat

inductive RefEvent where
  | null (target : VariableId)
  | construct (target : VariableId)
  | refer (target : VariableId) (object : ObjectRef)
  | copy (target source : VariableId)
  | move (target source : VariableId)
  | copyAssign (target source : VariableId)
  | moveAssign (target source : VariableId)
  | clear (target : VariableId)
  | leave (target : VariableId)

/-- `m_pointer` of every variable that is in scope, and the objects. -/
structure RefPtrs where
  objects : RefCounted
  pointers : VariableId → Option (Option ObjectRef)

namespace RefPtrs

def initial : RefPtrs := ⟨.initial, fun _ => none⟩

/-- `m_pointer`, which is not read of a variable that is out of scope. -/
def pointer (state : RefPtrs) (target : VariableId) : Option ObjectRef :=
  (state.pointers target).getD none

def assign (state : RefPtrs) (target : VariableId) (pointer : Option ObjectRef) : RefPtrs :=
  { state with pointers := Function.update state.pointers target (some pointer) }

/-- `if (m_pointer) m_pointer->ref();` -/
def refPointer (state : RefPtrs) (target : VariableId) : Except RefFault RefPtrs :=
  match state.pointer target with
  | some object => do
    let objects ← state.objects.ref object
    .ok { state with objects }
  | none => .ok state

def clear (state : RefPtrs) (target : VariableId) : Except RefFault RefPtrs :=
  match state.pointer target with
  | some object => do
    let objects ← state.objects.unref object
    .ok (assign { state with objects } target none)
  | none => .ok (state.assign target none)

/-- `RefCounted::construct`, with the constructor that takes a `DanglingObjectMarker`. -/
def construct (state : RefPtrs) (target : VariableId) : Except RefFault RefPtrs := do
  let (object, objects) := state.objects.create
  let count ← objects.load object
  if count = 1 then .ok (assign { state with objects } target (some object)) else .error .verify

def copy (state : RefPtrs) (target source : VariableId) : Except RefFault RefPtrs :=
  (state.assign target (state.pointer source)).refPointer target

/-- `m_pointer = exchange(other.m_pointer, nullptr);` -/
def move (state : RefPtrs) (target source : VariableId) : RefPtrs :=
  (state.assign source none).assign target (state.pointer source)

def copyAssign (state : RefPtrs) (target source : VariableId) : Except RefFault RefPtrs := do
  let state ← state.clear target
  state.copy target source

def moveAssign (state : RefPtrs) (target source : VariableId) : Except RefFault RefPtrs := do
  let state ← state.clear target
  .ok (state.move target source)

def leave (state : RefPtrs) (target : VariableId) : Except RefFault RefPtrs := do
  let state ← state.clear target
  .ok { state with pointers := Function.update state.pointers target none }

def execute (state : RefPtrs) : RefEvent → Except RefFault RefPtrs
  | .null target => .ok (state.assign target none)
  | .construct target => state.construct target
  | .refer target object => (state.assign target (some object)).refPointer target
  | .copy target source => state.copy target source
  | .move target source => .ok (state.move target source)
  | .copyAssign target source => state.copyAssign target source
  | .moveAssign target source => state.moveAssign target source
  | .clear target => state.clear target
  | .leave target => state.leave target

/-- A constructor makes a new variable, everything else is about variables in scope, and a
`T&` refers to an object that exists. -/
def permitted (state : RefPtrs) : RefEvent → Prop
  | .null target | .construct target => state.pointers target = none
  | .refer target object => state.pointers target = none ∧ state.objects.refcount object ≠ none
  | .copy target source
  | .move target source => state.pointers target = none ∧ state.pointers source ≠ none
  | .copyAssign target source
  | .moveAssign target source => state.pointers target ≠ none ∧ state.pointers source ≠ none
  | .clear target | .leave target => state.pointers target ≠ none

instance (state : RefPtrs) (event : RefEvent) : Decidable (state.permitted event) := by
  cases event <;> unfold permitted <;> infer_instance

def machine : Machine RefPtrs RefEvent RefFault := ⟨permitted, execute⟩

instance (state : RefPtrs) (event : RefEvent) : Decidable (machine.permitted state event) :=
  inferInstanceAs (Decidable (state.permitted event))

end RefPtrs
end PicoOs.Std
