import PicoOs.Library.LinkedTrees
import PicoOs.Library.Machine

/-! The unbalanced search trees of `Std/SortedSet`. Nodes live in a heap that they share
with the nodes of every other set, and references are not used a second time. `dump` is
left out. -/

namespace PicoOs.Std
open Library

/-- `operator<` and `operator>` of the element type. -/
structure Comparison (α : Type) where
  less : α → α → Bool
  greater : α → α → Bool

def Comparison.linear {α : Type} [LinearOrder α] : Comparison α where
  less first second := first < second
  greater first second := first > second

/-- Where `search_impl` stops. -/
def Comparison.equivalent {α : Type} (order : Comparison α) (value other : α) : Bool :=
  !order.less value other && !order.greater value other

/-- What the element type promises: a strict order, total up to equivalent values. -/
structure Comparison.Strict {α : Type} (order : Comparison α) : Prop where
  converse : ∀ first second, order.greater first second = order.less second first
  irrefl : ∀ value, order.less value value = false
  trans : ∀ {first second third}, order.less first second → order.less second third →
    order.less first third
  total : ∀ {first third} (second), order.less first third →
    order.less first second ∨ order.less second third

abbrev NodeRef := Nat

structure Node (α : Type) extends Links NodeRef α where
  parent : Option NodeRef

/-- `dangling` stands for using a node that has been destroyed, and `exhausted` for a
loop that does not end. -/
inductive SetFault where
  | assertion
  | notReached
  | dangling
  | exhausted
  deriving DecidableEq

/-- The nodes that exist, and those whose destructor has run, the last one first. -/
structure NodeHeap (α : Type) where
  nodes : NodeRef → Option (Node α)
  next : NodeRef
  destroyed : List NodeRef

namespace NodeHeap
variable {α : Type}

def initial : NodeHeap α := ⟨fun _ => none, 0, []⟩

def load (heap : NodeHeap α) (node : NodeRef) : Except SetFault (Node α) :=
  match heap.nodes node with
  | some contents => .ok contents
  | none => .error .dangling

def put (heap : NodeHeap α) (node : NodeRef) (contents : Node α) : NodeHeap α :=
  { heap with nodes := Function.update heap.nodes node (some contents) }

def modify (heap : NodeHeap α) (node : NodeRef) (change : Node α → Node α) :
    Except SetFault (NodeHeap α) := do
  let contents ← heap.load node
  .ok (heap.put node (change contents))

/-- `new Node { value }` -/
def create (heap : NodeHeap α) (value : α) : NodeRef × NodeHeap α :=
  (heap.next, { heap.put heap.next { value, left := none, right := none, parent := none } with next := heap.next + 1 })

/-- `delete node`, whose destructor deletes both children. -/
def delete : Nat → NodeHeap α → Option NodeRef → Except SetFault (NodeHeap α)
  | _, heap, none => .ok heap
  | 0, _, some _ => .error .exhausted
  | fuel + 1, heap, some node => do
    let contents ← heap.load node
    let heap ← delete fuel heap contents.left
    let contents ← heap.load node
    let heap ← delete fuel heap contents.right
    .ok { heap with nodes := Function.update heap.nodes node none, destroyed := node :: heap.destroyed }

/-- `if (node) node->m_parent = parent;` -/
def setParent (heap : NodeHeap α) (node parent : Option NodeRef) : Except SetFault (NodeHeap α) :=
  match node with
  | some node => heap.modify node fun contents => { contents with parent }
  | none => .ok heap

def replaceChild (heap : NodeHeap α) (node : NodeRef) (old new : Option NodeRef) :
    Except SetFault (NodeHeap α) := do
  let contents ← heap.load node
  if contents.left = old then
    let heap ← heap.setParent contents.left none
    let heap ← heap.modify node fun contents => { contents with left := new }
    heap.setParent new (some node)
  else if contents.right = old then
    let heap ← heap.setParent contents.right none
    let heap ← heap.modify node fun contents => { contents with right := new }
    heap.setParent new (some node)
  else .error .notReached

end NodeHeap

structure SortedSet where
  root : Option NodeRef
  size : Nat

namespace SortedSet
variable {α : Type}

def construct : SortedSet := ⟨none, 0⟩

/-- The node that is found, and what `*parent` is at the end. -/
def searchImpl (order : Comparison α) (heap : NodeHeap α) (value : α) :
    Nat → Option NodeRef → Option NodeRef → Except SetFault (Option NodeRef × Option NodeRef)
  | _, parent, none => .ok (none, parent)
  | 0, _, some _ => .error .exhausted
  | fuel + 1, parent, some subtree => do
    let contents ← heap.load subtree
    if order.less value contents.value then
      searchImpl order heap value fuel (some subtree) contents.left
    else if order.greater value contents.value then
      searchImpl order heap value fuel (some subtree) contents.right
    else .ok (some subtree, parent)

def minImpl (heap : NodeHeap α) :
    Nat → Option NodeRef → Option NodeRef → Except SetFault (Option NodeRef × Option NodeRef)
  | _, none, parent => .ok (none, parent)
  | 0, some _, _ => .error .exhausted
  | fuel + 1, some subtree, parent => do
    let contents ← heap.load subtree
    if contents.left = none then .ok (some subtree, parent)
    else minImpl heap fuel contents.left (some subtree)

/-- The value of a node that may be null. -/
def valueOf (heap : NodeHeap α) : Option NodeRef → Except SetFault (Option α)
  | some node => do
    let contents ← heap.load node
    .ok (some contents.value)
  | none => .ok none

def search (order : Comparison α) (heap : NodeHeap α) (set : SortedSet) (value : α) :
    Except SetFault (Option α) := do
  let (node, _) ← searchImpl order heap value heap.next none set.root
  valueOf heap node

def min (heap : NodeHeap α) (set : SortedSet) : Except SetFault (Option α) := do
  let (node, _) ← minImpl heap heap.next set.root none
  valueOf heap node

def insertImpl (order : Comparison α) (heap : NodeHeap α) (set : SortedSet) (value : α) :
    Except SetFault (NodeHeap α × SortedSet) := do
  let (node, parent) ← searchImpl order heap value heap.next none set.root
  match node, parent with
  | some node, _ =>
    let heap ← heap.modify node fun contents => { contents with value }
    .ok (heap, set)
  | none, none =>
    let (node, heap) := heap.create value
    .ok (heap, { root := some node, size := set.size + 1 })
  | none, some parent =>
    let above ← heap.load parent
    if order.less value above.value then
      if above.left = none then
        let (node, heap) := heap.create value
        let heap ← heap.modify parent fun contents => { contents with left := some node }
        let heap ← heap.modify node fun contents => { contents with parent := some parent }
        .ok (heap, { set with size := set.size + 1 })
      else .error .assertion
    else if order.greater value above.value then
      if above.right = none then
        let (node, heap) := heap.create value
        let heap ← heap.modify parent fun contents => { contents with right := some node }
        let heap ← heap.modify node fun contents => { contents with parent := some parent }
        .ok (heap, { set with size := set.size + 1 })
      else .error .assertion
    else .error .assertion

/-- `if (parent) parent->replace_child(node, child); else m_root = child;` -/
def relink (heap : NodeHeap α) (set : SortedSet) (node : NodeRef) (parent child : Option NodeRef) :
    Except SetFault (NodeHeap α × SortedSet) :=
  match parent with
  | some parent => do
    let heap ← heap.replaceChild parent (some node) child
    .ok (heap, set)
  | none => .ok (heap, { set with root := child })

/-- The last three lines of `remove_impl`. -/
def discard (heap : NodeHeap α) (set : SortedSet) (node : NodeRef) :
    Except SetFault (NodeHeap α × SortedSet) := do
  let heap ← heap.modify node fun contents => { contents with parent := none }
  let heap ← heap.delete heap.next (some node)
  .ok (heap, { set with size := set.size - 1 })

def removeImpl (heap : NodeHeap α) (set : SortedSet) (node : NodeRef) (parent : Option NodeRef) :
    Except SetFault (NodeHeap α × SortedSet) := do
  let contents ← heap.load node
  if ¬(contents.left = none ∨ contents.right = none) then .error .assertion
  else if contents.left = none ∧ contents.right = none then
    let (heap, set) ← relink heap set node parent none
    discard heap set node
  else if contents.left = none then
    let (heap, set) ← relink heap set node parent contents.right
    let heap ← heap.modify node fun contents => { contents with right := none }
    discard heap set node
  else
    let (heap, set) ← relink heap set node parent contents.left
    let heap ← heap.modify node fun contents => { contents with left := none }
    discard heap set node

def remove (order : Comparison α) (heap : NodeHeap α) (set : SortedSet) (value : α) :
    Except SetFault (NodeHeap α × SortedSet) := do
  let (node, parent) ← searchImpl order heap value heap.next none set.root
  match node with
  | none => .ok (heap, set)
  | some node =>
    let contents ← heap.load node
    if contents.left = none ∨ contents.right = none then removeImpl heap set node parent
    else
      let (minInRight, minInRightParent) ← minImpl heap heap.next contents.right (some node)
      match minInRight with
      | none => .error .assertion
      | some minInRight =>
        let least ← heap.load minInRight
        let heap ← heap.modify node fun contents => { contents with value := least.value }
        removeImpl heap set minInRight minInRightParent

def clear (heap : NodeHeap α) (set : SortedSet) : Except SetFault (NodeHeap α × SortedSet) := do
  let heap ← heap.delete heap.next set.root
  .ok (heap, construct)

/-- The loop of `InorderIterator::operator++` and what follows it. -/
def climb (heap : NodeHeap α) : Nat → NodeRef → Except SetFault (Option NodeRef)
  | 0, _ => .error .exhausted
  | fuel + 1, current => do
    let contents ← heap.load current
    match contents.parent with
    | none => .ok none
    | some parent =>
      let above ← heap.load parent
      if above.left ≠ some current then climb heap fuel parent else .ok (some parent)

/-- `InorderIterator::operator++` -/
def advance (heap : NodeHeap α) : Option NodeRef → Except SetFault (Option NodeRef)
  | none => .error .assertion
  | some current => do
    let contents ← heap.load current
    if contents.right ≠ none then
      let (least, _) ← minImpl heap heap.next contents.right none
      .ok least
    else climb heap heap.next current

def inorder (heap : NodeHeap α) (set : SortedSet) : Except SetFault (Option NodeRef) := do
  let (least, _) ← minImpl heap heap.next set.root none
  .ok least

/-- What a loop from the iterator up to `end()` sees. -/
def visit (heap : NodeHeap α) : Nat → Option NodeRef → Except SetFault (List α)
  | _, none => .ok []
  | 0, some _ => .error .exhausted
  | fuel + 1, some current => do
    let contents ← heap.load current
    let next ← advance heap (some current)
    let rest ← visit heap fuel next
    .ok (contents.value :: rest)

/-- `for (auto& value : set.inorder())` -/
def iterate (heap : NodeHeap α) (set : SortedSet) : Except SetFault (List α) := do
  let begin ← set.inorder heap
  visit heap heap.next begin

end SortedSet

abbrev SetId := Nat

inductive SetEvent (α : Type) where
  | insert (set : SetId) (value : α)
  | remove (set : SetId) (value : α)
  | clear (set : SetId)
  | move (target source : SetId)

/-- All sets of one element type. Those that are not in use are empty. -/
structure SortedSets (α : Type) where
  heap : NodeHeap α
  sets : SetId → SortedSet

namespace SortedSets
variable {α : Type}

def initial : SortedSets α := ⟨.initial, fun _ => .construct⟩

def replace (state : SortedSets α) (set : SetId) (result : NodeHeap α × SortedSet) : SortedSets α :=
  ⟨result.1, Function.update state.sets set result.2⟩

/-- `target = move(source)`, which a move constructor does as well. -/
def moveAssign (state : SortedSets α) (target source : SetId) : Except SetFault (SortedSets α) := do
  let result ← (state.sets target).clear state.heap
  let state := state.replace target result
  let moved := state.sets source
  let state := state.replace source (state.heap, .construct)
  .ok (state.replace target (state.heap, moved))

def execute (order : Comparison α) (state : SortedSets α) :
    SetEvent α → Except SetFault (SortedSets α)
  | .insert set value => state.replace set <$> (state.sets set).insertImpl order state.heap value
  | .remove set value => state.replace set <$> (state.sets set).remove order state.heap value
  | .clear set => state.replace set <$> (state.sets set).clear state.heap
  | .move target source => state.moveAssign target source

def machine (order : Comparison α) : Machine (SortedSets α) (SetEvent α) SetFault where
  permitted _ _ := True
  execute := execute order

instance (order : Comparison α) (state : SortedSets α) (event : SetEvent α) :
    Decidable ((machine order).permitted state event) := .isTrue trivial

end SortedSets
end PicoOs.Std
