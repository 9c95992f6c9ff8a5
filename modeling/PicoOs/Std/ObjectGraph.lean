import PicoOs.Std.RefPtr

/-! Reference counted objects that own references to other objects: the destructor of an object
runs those of its `RefPtr` members, which may destroy further objects. -/

namespace PicoOs.Std
open Library

/-- `dangling` stands for using memory of an object that has been destroyed. The destructors
are followed for as many rounds as there are objects. -/
inductive GraphFault where
  | verify
  | dangling
  | exhausted
  deriving DecidableEq

/-- `m_refcount`, and `m_pointer` of the members. -/
structure OwningObject where
  refcount : Nat
  members : List (Option ObjectRef)
  deriving DecidableEq

/-- Where a `RefPtr` is. -/
inductive Location where
  | named (name : VariableId)
  | member (object : ObjectRef) (index : Nat)
  deriving DecidableEq

def Location.owner : Location → Option ObjectRef
  | .named _ => none
  | .member object _ => some object

/-- The objects whose memory has not been given back, and `m_pointer` of the variables. -/
structure ObjectGraph where
  objects : ObjectRef → Option OwningObject
  pointers : VariableId → Option ObjectRef
  next : Nat

namespace ObjectGraph

def load (graph : ObjectGraph) (object : ObjectRef) : Except GraphFault OwningObject :=
  match graph.objects object with
  | some value => .ok value
  | none => .error .dangling

def store (graph : ObjectGraph) (object : ObjectRef) (value : OwningObject) : ObjectGraph :=
  { graph with objects := Function.update graph.objects object (some value) }

def free (graph : ObjectGraph) (object : ObjectRef) : ObjectGraph :=
  { graph with objects := Function.update graph.objects object none }

/-- `m_pointer` -/
def read (graph : ObjectGraph) : Location → Except GraphFault (Option ObjectRef)
  | .named name => .ok (graph.pointers name)
  | .member object index => do
    let value ← graph.load object
    match value.members[index]? with
    | some pointer => .ok pointer
    | none => .error .dangling

def write (graph : ObjectGraph) (location : Location) (pointer : Option ObjectRef) :
    Except GraphFault ObjectGraph :=
  match location with
  | .named name => .ok { graph with pointers := Function.update graph.pointers name pointer }
  | .member object index => do
    let value ← graph.load object
    .ok (graph.store object { value with members := value.members.set index pointer })

def ref (graph : ObjectGraph) (object : ObjectRef) : Except GraphFault ObjectGraph := do
  let value ← graph.load object
  if value.refcount ≥ 1 then .ok (graph.store object { value with refcount := value.refcount + 1 })
  else .error .verify

/-- `RefPtr::clear`, with what `unref` does. -/
def clearWith (unref : ObjectGraph → ObjectRef → Except GraphFault ObjectGraph)
    (graph : ObjectGraph) (location : Location) :
    Except GraphFault ObjectGraph := do
  match ← graph.read location with
  | some object =>
    let graph ← unref graph object
    graph.write location none
  | none => graph.write location none

/-- `RefCounted::unref`, with the destructor, which destroys the last member first. -/
def unref : Nat → ObjectGraph → ObjectRef → Except GraphFault ObjectGraph
  | 0, _, _ => .error .exhausted
  | rounds + 1, graph, object => do
    let value ← graph.load object
    if value.refcount > 0 then
      let graph := graph.store object { value with refcount := value.refcount - 1 }
      if value.refcount - 1 = 0 then do
        let members := (List.range value.members.length).reverse.map (Location.member object)
        let graph ← members.foldlM (clearWith (unref rounds)) graph
        .ok (graph.free object)
      else .ok graph
    else .error .verify

def clear (graph : ObjectGraph) (location : Location) : Except GraphFault ObjectGraph :=
  clearWith (unref (graph.next + 1)) graph location

/-- `if (m_pointer) m_pointer->ref();` -/
def refPointer (graph : ObjectGraph) (location : Location) : Except GraphFault ObjectGraph := do
  match ← graph.read location with
  | some object => graph.ref object
  | none => .ok graph

/-- `operator=(const RefPtr&)` -/
def copyAssign (graph : ObjectGraph) (target source : Location) :
    Except GraphFault ObjectGraph := do
  let graph ← graph.clear target
  let pointer ← graph.read source
  let graph ← graph.write target pointer
  graph.refPointer target

/-- `operator=(RefPtr&&)` -/
def moveAssign (graph : ObjectGraph) (target source : Location) :
    Except GraphFault ObjectGraph := do
  let graph ← graph.clear target
  let pointer ← graph.read source
  let graph ← graph.write source none
  graph.write target pointer

/-- Which of the two operators an assignment calls. -/
inductive Assignment where
  | copy
  | move
  deriving DecidableEq

def assign (graph : ObjectGraph) (target source : Location) :
    Assignment → Except GraphFault ObjectGraph
  | .copy => graph.copyAssign target source
  | .move => graph.moveAssign target source

end ObjectGraph
end PicoOs.Std
