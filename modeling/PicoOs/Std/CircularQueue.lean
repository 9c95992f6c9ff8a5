import PicoOs.Library.Ring
import PicoOs.Std.Vector

/-! The queues of fixed size of `Std/CircularQueue`. A slot without an object is `none`. -/

namespace PicoOs.Std
open Library

/-- `full`, `offset`, `empty` and `remaining` are the assertions; `vacant` stands for using a slot
that holds no object. -/
inductive QueueFault where
  | full
  | offset
  | empty
  | remaining
  | vacant
  deriving DecidableEq

/-- `offset` is the slot that is filled next. -/
structure CircularQueue (T : Type u) (capacity : Nat) where
  offset : Nat
  size : Nat
  data : Nat → Option T

namespace CircularQueue
variable {T : Type u} {capacity : Nat}

def construct : CircularQueue T capacity where
  offset := 0
  size := 0
  data _ := none

/-- `(m_offset - m_size + index + Size) % Size` -/
def slot (queue : CircularQueue T capacity) (index : Nat) : Nat :=
  wrap (minus queue.offset queue.size + index + capacity) % capacity

def enqueue (queue : CircularQueue T capacity) (value : T) :
    Except QueueFault (CircularQueue T capacity) :=
  if ¬queue.size < capacity then .error .full
  else if ¬queue.offset < capacity then .error .offset
  else .ok {
    offset := (queue.offset + 1) % capacity
    size := queue.size + 1
    data := Function.update queue.data queue.offset (some value) }

def front (queue : CircularQueue T capacity) : Except QueueFault T :=
  if queue.size > 0 then
    match queue.data (queue.slot 0) with
    | some value => .ok value
    | none => .error .vacant
  else .error .empty

def dequeue (queue : CircularQueue T capacity) :
    Except QueueFault (T × CircularQueue T capacity) := do
  let value ← queue.front
  .ok (value, { queue with size := queue.size - 1, data := Function.update queue.data (queue.slot 0) none })

def object (queue : CircularQueue T capacity) (slot : Nat) : Except QueueFault T :=
  match queue.data slot with
  | some value => .ok value
  | none => .error .vacant

def back (queue : CircularQueue T capacity) : Except QueueFault T :=
  if queue.size > 0 then queue.object (wrap (minus queue.offset 1 + capacity) % capacity)
  else .error .empty

/-- `operator[]` -/
def get (queue : CircularQueue T capacity) (index : Nat) : Except QueueFault T :=
  if queue.size > index then queue.object (queue.slot index) else .error .empty

def enqueueFront (queue : CircularQueue T capacity) (value : T) :
    Except QueueFault (CircularQueue T capacity) :=
  if ¬queue.size < capacity then .error .full
  else if ¬queue.offset < capacity then .error .offset
  else
    let offset := wrap (minus (minus queue.offset queue.size) 1 + capacity) % capacity
    .ok { queue with size := queue.size + 1, data := Function.update queue.data offset (some value) }

end CircularQueue

abbrev QueueId := Nat

inductive QueueEvent (T : Type u) where
  | construct (queue : QueueId)
  | enqueue (queue : QueueId) (value : T)
  | enqueueFront (queue : QueueId) (value : T)
  | dequeue (queue : QueueId)
  | clear (queue : QueueId)
  | moveConstruct (target source : QueueId)
  | moveAssign (target source : QueueId)
  | leave (queue : QueueId)

/-- The queues that are in scope, and the numbers of the objects whose destructor has run in
a slot, the last one first. -/
structure CircularQueues (T : Type u) (capacity : Nat) where
  queues : QueueId → Option (CircularQueue (Element T) capacity)
  next : Nat
  destroyed : List Nat

namespace CircularQueues
variable {T : Type u} {capacity : Nat}

def initial : CircularQueues T capacity := ⟨fun _ => none, 0, []⟩

/-- A queue, which is not looked at when it is out of scope. -/
def queue (state : CircularQueues T capacity) (id : QueueId) : CircularQueue (Element T) capacity :=
  (state.queues id).getD .construct

def replace (state : CircularQueues T capacity) (id : QueueId)
    (queue : CircularQueue (Element T) capacity) :
    CircularQueues T capacity :=
  { state with queues := Function.update state.queues id (some queue) }

def construct (state : CircularQueues T capacity) (id : QueueId) : CircularQueues T capacity :=
  state.replace id .construct

def enqueue (state : CircularQueues T capacity) (id : QueueId) (value : T) :
    Except QueueFault (CircularQueues T capacity) := do
  let queue ← (state.queue id).enqueue ⟨state.next, value⟩
  .ok { state.replace id queue with next := state.next + 1 }

def enqueueFront (state : CircularQueues T capacity) (id : QueueId) (value : T) :
    Except QueueFault (CircularQueues T capacity) := do
  let queue ← (state.queue id).enqueueFront ⟨state.next, value⟩
  .ok { state.replace id queue with next := state.next + 1 }

def dequeue (state : CircularQueues T capacity) (id : QueueId) :
    Except QueueFault (T × CircularQueues T capacity) := do
  let (element, queue) ← (state.queue id).dequeue
  .ok (element.value, { state.replace id queue with destroyed := element.number :: state.destroyed })

/-- The loop of `clear`, in which `front().~T(); --m_size;` is a `dequeue` without the value. -/
def clearLoop (id : QueueId) :
    Nat → CircularQueues T capacity → Except QueueFault (CircularQueues T capacity)
  | 0, state => .ok state
  | count + 1, state => do
    let (_, state) ← state.dequeue id
    clearLoop id count state

def clear (state : CircularQueues T capacity) (id : QueueId) :
    Except QueueFault (CircularQueues T capacity) :=
  clearLoop id (state.queue id).size state

/-- The loop of the move assignment. -/
def transfer (target source : QueueId) :
    Nat → CircularQueues T capacity → Except QueueFault (CircularQueues T capacity)
  | 0, state => .ok state
  | count + 1, state => do
    let (value, state) ← state.dequeue source
    let state ← state.enqueue target value
    transfer target source count state

def moveAssign (state : CircularQueues T capacity) (target source : QueueId) :
    Except QueueFault (CircularQueues T capacity) := do
  let state ← state.clear target
  let state ← transfer target source (state.queue source).size state
  if (state.queue source).size = 0 then .ok state else .error .remaining

def leave (state : CircularQueues T capacity) (id : QueueId) :
    Except QueueFault (CircularQueues T capacity) := do
  let state ← state.clear id
  .ok { state with queues := Function.update state.queues id none }

def execute (state : CircularQueues T capacity) :
    QueueEvent T → Except QueueFault (CircularQueues T capacity)
  | .construct id => .ok (state.construct id)
  | .enqueue id value => state.enqueue id value
  | .enqueueFront id value => state.enqueueFront id value
  | .dequeue id => Prod.snd <$> state.dequeue id
  | .clear id => state.clear id
  | .moveConstruct target source => (state.construct target).moveAssign target source
  | .moveAssign target source => state.moveAssign target source
  | .leave id => state.leave id

/-- A constructor makes a new queue, and everything else is about queues in scope. What is
added finds room, what is taken exists, and a queue is not moved to itself. -/
def permitted (state : CircularQueues T capacity) : QueueEvent T → Prop
  | .construct id => state.queues id = none
  | .enqueue id _
  | .enqueueFront id _ => (state.queues id).isSome ∧ (state.queue id).size < capacity
  | .dequeue id => (state.queues id).isSome ∧ 0 < (state.queue id).size
  | .clear id | .leave id => (state.queues id).isSome
  | .moveConstruct target source => state.queues target = none ∧ (state.queues source).isSome
  | .moveAssign target source =>
      (state.queues target).isSome ∧ (state.queues source).isSome ∧ target ≠ source

instance (state : CircularQueues T capacity) (event : QueueEvent T) :
    Decidable (state.permitted event) := by
  cases event <;> unfold permitted <;> infer_instance

def machine : Machine (CircularQueues T capacity) (QueueEvent T) QueueFault := ⟨permitted, execute⟩

instance (state : CircularQueues T capacity) (event : QueueEvent T) :
    Decidable (machine.permitted state event) :=
  inferInstanceAs (Decidable (state.permitted event))

end CircularQueues
end PicoOs.Std
