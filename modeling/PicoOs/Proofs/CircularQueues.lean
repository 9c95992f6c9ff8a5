import PicoOs.Std.CircularQueue

/-! A queue of fixed size is a list that holds at most so many values. -/

namespace PicoOs.Std.CircularQueue
open Library
variable {T : Type u} {capacity : Nat}

/-- The queue holds the list, oldest first. -/
structure Represents (queue : CircularQueue T capacity) (list : List T) : Prop where
  inside : queue.offset < capacity
  size : queue.size = list.length
  ring : Ring.Holds capacity ((queue.offset + capacity - queue.size) % capacity) queue.data list

theorem enqueue_size {queue after : CircularQueue T capacity} {value : T}
    (enqueued : queue.enqueue value = .ok after) :
    after.size = queue.size + 1 := by
  unfold enqueue at enqueued
  split at enqueued
  next => cases enqueued
  next =>
    split at enqueued
    next => cases enqueued
    next =>
      cases enqueued
      rfl

namespace Represents
variable {queue : CircularQueue T capacity} {list : List T} {value : T}

theorem construct (positive : 0 < capacity) :
    (construct : CircularQueue T capacity).Represents [] :=
  ⟨positive, rfl, .empty (Nat.mod_lt _ positive)⟩

private theorem slot_zero (represents : queue.Represents list) (small : 2 * capacity ≤ 2 ^ 32) :
    queue.slot 0 = (queue.offset + capacity - queue.size) % capacity := by
  have inside := represents.inside
  have fits : queue.size ≤ capacity := represents.size ▸ represents.ring.fits
  unfold slot minus wrap
  congr 1
  omega

/-- A queue with room takes another value at its end, and a full one stops. -/
theorem enqueue (represents : queue.Represents list) (value : T) :
    if list.length < capacity then ∃ after, queue.enqueue value = .ok after ∧ after.Represents (list ++ [value])
    else queue.enqueue value = .error .full := by
  have ⟨inside, size, ring⟩ := represents
  unfold CircularQueue.enqueue
  by_cases room : list.length < capacity
  · rw [if_pos room, if_neg (by omega), if_neg (by omega)]
    refine ⟨_, rfl, Nat.mod_lt _ (by omega), by simp [size], ?_⟩
    have last : Ring.slot capacity ((queue.offset + capacity - queue.size) % capacity) list.length =
      queue.offset := by
      unfold Ring.slot
      rw [Nat.mod_add_mod, ← size,
        Nat.sub_add_cancel (by omega), Nat.add_mod_right, Nat.mod_eq_of_lt inside]
    have same : ((queue.offset + 1) % capacity + capacity - (queue.size + 1)) % capacity =
        (queue.offset + capacity - queue.size) % capacity := by
      obtain below | last : queue.offset + 1 < capacity ∨ queue.offset + 1 = capacity := by omega
      · rw [Nat.mod_eq_of_lt below]
        congr 1
        omega
      · rw [last, Nat.mod_self, Nat.zero_add, Nat.mod_eq_of_lt (by omega)]
        have around : queue.offset + capacity - queue.size = capacity - (queue.size + 1) +
          capacity := by omega
        rw [around, Nat.add_mod_right, Nat.mod_eq_of_lt (by omega)]
    have pushed := ring.push room value
    rw [last] at pushed
    rwa [same]
  · rw [if_neg room, if_pos (by omega)]

theorem dequeue (represents : queue.Represents (value :: list)) (small : 2 * capacity ≤ 2 ^ 32) :
    ∃ after, queue.dequeue = .ok (value, after) ∧ after.Represents list := by
  have ⟨inside, size, ring⟩ := represents
  have fits : list.length + 1 ≤ capacity := ring.fits
  have start := represents.slot_zero small
  refine ⟨{ queue with size := queue.size - 1, data := Function.update queue.data (queue.slot 0) none }, ?_, inside, ?_, ?_⟩
  · have positive : 0 < queue.size := size ▸ Nat.succ_pos _
    simp only [CircularQueue.dequeue, front, if_pos positive, start, ring.first]
    rfl
  · rw [List.length_cons] at size
    simp only [size]
    rfl
  · have popped := ring.pop none
    have moved : Ring.slot capacity ((queue.offset + capacity - queue.size) % capacity) 1 =
        (queue.offset + capacity - (queue.size - 1)) % capacity := by
      rw [List.length_cons] at size
      unfold Ring.slot
      rw [Nat.mod_add_mod]
      congr 1
      omega
    rw [moved] at popped
    rwa [start]

private theorem dequeue_empty (represents : queue.Represents []) :
    queue.dequeue = .error .empty := by
  have none : queue.size = 0 := represents.size
  unfold CircularQueue.dequeue front
  rw [none]
  rfl

private theorem slot_ring (represents : queue.Represents list) (small : 3 * capacity < 2 ^ 32)
    {index : Nat} (below : index ≤ queue.size) :
    queue.slot index = Ring.slot capacity ((queue.offset +
      capacity - queue.size) % capacity) index := by
  have inside := represents.inside
  have fits : queue.size ≤ capacity := represents.size ▸ represents.ring.fits
  unfold slot Ring.slot minus wrap
  rw [Nat.mod_add_mod]
  congr 1
  omega

theorem object_ring (represents : queue.Represents list) {index : Nat}
    (below : index < list.length) :
    queue.object (Ring.slot capacity ((queue.offset + capacity - queue.size) % capacity) index) =
      .ok list[index] := by
  simp only [object, represents.ring.filled index below, List.getElem?_eq_getElem below]

theorem get (represents : queue.Represents list) (small : 3 * capacity < 2 ^ 32) (index : Nat) :
    queue.get index = if below : index < list.length then .ok list[index] else .error .empty := by
  have size := represents.size
  unfold CircularQueue.get
  by_cases below : index < list.length
  · rw [dif_pos below, if_pos (by omega), represents.slot_ring small (by omega), represents.object_ring below]
  · rw [dif_neg below, if_neg (by omega)]

theorem front (represents : queue.Represents list) (small : 3 * capacity < 2 ^ 32) :
    queue.front = if below : 0 < list.length then .ok list[0] else .error .empty :=
  represents.get small 0

theorem back (represents : queue.Represents list) (small : 3 * capacity < 2 ^ 32) :
    queue.back = if filled : list ≠ [] then .ok (list.getLast filled) else .error .empty := by
  have ⟨inside, size, ring⟩ := represents
  have fits : queue.size ≤ capacity := size ▸ ring.fits
  unfold CircularQueue.back
  by_cases filled : list = []
  · have empty : queue.size = 0 := by rw [size, filled, List.length_nil]
    rw [dif_neg (not_not.mpr filled), if_neg (by omega)]
  · have positive : 0 < list.length := List.length_pos_iff.mpr filled
    have last : wrap (minus queue.offset 1 + capacity) % capacity =
        Ring.slot capacity ((queue.offset + capacity - queue.size) % capacity)
          (list.length - 1) := by
      unfold Ring.slot minus wrap
      rw [Nat.mod_add_mod (queue.offset + capacity - queue.size)]
      congr 1
      omega
    rw [dif_pos filled, if_pos (by omega), last, represents.object_ring (Nat.sub_lt positive Nat.one_pos), List.getLast_eq_getElem]

/-- A queue with room takes another value before its first one. -/
theorem enqueueFront (represents : queue.Represents list) (small : 3 * capacity < 2 ^ 32)
    (room : list.length < capacity)
    (value : T) : ∃ after, queue.enqueueFront value = .ok after ∧
    after.Represents (value :: list) := by
  have ⟨inside, size, ring⟩ := represents
  have moved : (queue.offset + capacity - (queue.size + 1)) % capacity =
      Ring.slot capacity ((queue.offset + capacity - queue.size) % capacity) (capacity - 1) := by
    have around : queue.offset + capacity - queue.size + (capacity - 1) =
        queue.offset + capacity - (queue.size + 1) + capacity := by omega
    rw [Ring.slot, Nat.mod_add_mod, around, Nat.add_mod_right]
  have before : wrap (minus (minus queue.offset queue.size) 1 + capacity) % capacity =
      Ring.slot capacity ((queue.offset + capacity - queue.size) % capacity) (capacity - 1) := by
    rw [← moved]
    unfold minus wrap
    congr 1
    omega
  unfold CircularQueue.enqueueFront
  rw [if_neg (by omega), if_neg (by omega), before]
  refine ⟨_, rfl, inside, congrArg (· + 1) size, ?_⟩
  have pushed := ring.pushFront room value
  rwa [← moved] at pushed ⊢

theorem enqueued {after : CircularQueue T capacity} (represents : queue.Represents list)
    (enqueued : queue.enqueue value = .ok after) :
    list.length < capacity ∧ after.Represents (list ++ [value]) := by
  have result := represents.enqueue value
  split at result
  next room =>
    obtain ⟨other, same, longer⟩ := result
    cases same.symm.trans enqueued
    exact ⟨room, longer⟩
  next => cases result.symm.trans enqueued

theorem dequeued {after : CircularQueue T capacity} (represents : queue.Represents list)
    (small : 2 * capacity ≤ 2 ^ 32)
    (dequeued : queue.dequeue = .ok (value, after)) :
    ∃ rest, list = value :: rest ∧ after.Represents rest := by
  cases list with
  | nil => cases represents.dequeue_empty.symm.trans dequeued
  | cons first rest =>
    obtain ⟨other, same, shorter⟩ := represents.dequeue small
    cases same.symm.trans dequeued
    exact ⟨rest, rfl, shorter⟩

end Represents
end PicoOs.Std.CircularQueue
