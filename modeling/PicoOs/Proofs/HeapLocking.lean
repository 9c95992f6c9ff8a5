import PicoOs.Kernel.GlobalMemoryAllocator
import PicoOs.Proofs.HeapRuns
import PicoOs.Proofs.MutexRuns

/-! Whether a call to the heap of the kernel gets past `malloc_mutex`. While nobody else
uses the heap a call depends on the heap and the mutex alone; a block that is moved by
`reallocate` makes the thread wait for itself. -/

namespace PicoOs.Kernel
open Library PicoOs.Std

namespace KernelMutex

def free : KernelMutex := ⟨true, none, []⟩

def heldBy (thread : ThreadId) : KernelMutex := ⟨true, some thread, []⟩

/-- Held by a thread that also waits for it, so that nobody is left to unlock it. -/
def stuck (thread : ThreadId) : KernelMutex := ⟨true, some thread, [thread]⟩

end KernelMutex

namespace State
variable {state after : State} {thread : ThreadId} {mutex : MutexId}

/-- What `lock()` does to the mutex, and that it leaves the thread waiting when the mutex is
taken. -/
theorem lock_mutex (alive : 1 ≤ (state.threads thread).refcount)
    (locked : state.lock thread mutex = .ok after) :
    (state.mutexes mutex).lock thread = .ok (after.mutexes mutex) ∧
      ((state.mutexes mutex).taken = true ↔ (after.threads thread).acquiring = some mutex) := by
  unfold KernelMutex.lock KernelMutex.taken
  obtain ⟨empty, opened, rfl⟩ | ⟨taken, opened, rfl⟩ | ⟨closed, rfl⟩ :=
    (lock_yields mutex alive).value locked
  · rw [empty, opened]
    simp [acquired, setMutex, modify, opened]
  · obtain ⟨holder, held⟩ := Option.ne_none_iff_exists'.mp taken
    have room : (state.mutexes mutex).waitingThreads.length < 16 := by
      by_contra full
      simp only [State.lock, opened, held, if_true, enqueue, full, if_false] at locked
      rw [ref_eq (by simpa [modify] using alive)] at locked
      cases locked
    rw [held, opened]
    simp [blocked, setMutex, modify, enqueue, room, bind, Except.bind, opened, held]
  · rw [closed]
    simp [enter, modify]

theorem unlock_mutex (sound : state.Sound) (acquiring : (state.threads thread).acquiring = none)
    (unlocked : state.unlock thread mutex = .ok after) :
    after.mutexes mutex = (state.mutexes mutex).unlock := by
  unfold KernelMutex.unlock
  obtain ⟨closed, rfl⟩ | ⟨alone, opened, rfl⟩ | ⟨next, rest, waiting, opened, -, rfl⟩ :=
    (unlock_yields sound mutex acquiring).value unlocked
  · rw [closed]
    rfl
  · rw [unlocked_mutexes, Function.update_self]
    simp only [opened, alone, if_true]
  · rw [inherited_mutexes, Function.update_self]
    simp only [opened, waiting, if_true]

end State

namespace GlobalMemoryAllocator
variable {allocator after : MemoryAllocator} {thread : ThreadId} {size pointer fresh : Nat}

theorem lock_free : lock ⟨allocator, .free⟩ thread = .ok ⟨allocator, .heldBy thread⟩ := rfl

private theorem lock_held : lock ⟨allocator, .heldBy thread⟩ thread =
    .error (.waits (.stuck thread)) := rfl

private theorem allocate_free (thread : ThreadId)
    (done : allocator.allocate size = .ok (fresh, after)) :
    allocate ⟨allocator, .free⟩ thread size = .ok (fresh, ⟨after, .free⟩) := by
  unfold allocate
  rw [lock_free]
  simp only [bind, Except.bind, done]
  rfl

private theorem deallocate_free (thread : ThreadId)
    (done : allocator.deallocate pointer = .ok after) :
    deallocate ⟨allocator, .free⟩ thread pointer = .ok ⟨after, .free⟩ := by
  unfold deallocate
  rw [lock_free]
  simp only [bind, Except.bind, done]
  rfl

private theorem reallocate_shrinks (thread : ThreadId)
    (shrinks : size < allocator.nodeSize (minus pointer sizeofNode)) :
    reallocate ⟨allocator, .free⟩ thread pointer size = .ok (pointer, ⟨allocator, .free⟩) := by
  unfold reallocate
  rw [lock_free]
  simp only [bind, Except.bind, reallocateBase, shrinks, if_true]
  rfl

/-- The base class allocates the new block through the virtual table, and so locks the mutex
again. -/
theorem reallocate_grows (thread : ThreadId)
    (grows : ¬size < allocator.nodeSize (minus pointer sizeofNode)) :
    reallocate ⟨allocator, .free⟩ thread pointer size = .error (.waits (.stuck thread)) := by
  unfold reallocate
  rw [lock_free]
  simp only [bind, Except.bind, reallocateBase, grows, if_false]
  unfold allocate
  rw [lock_held]
  rfl

section Disabled
variable {holder : Option ThreadId} {waiting : List ThreadId}

private theorem lock_disabled :
    lock ⟨allocator, false, holder, waiting⟩ thread = .ok ⟨allocator, false, holder, waiting⟩ := rfl

private theorem allocate_disabled : allocate ⟨allocator, false, holder, waiting⟩ thread size =
    match allocator.allocate size with
    | .error fault => .error (.heap fault)
    | .ok (pointer, after) => .ok (pointer, ⟨after, false, holder, waiting⟩) := rfl

theorem deallocate_disabled : deallocate ⟨allocator, false, holder, waiting⟩ thread pointer =
    match allocator.deallocate pointer with
    | .error fault => .error (.heap fault)
    | .ok after => .ok ⟨after, false, holder, waiting⟩ := rfl

/-- As long as the mutex is disabled the virtual calls make no difference. -/
theorem reallocate_disabled : reallocate ⟨allocator, false, holder, waiting⟩ thread pointer size =
    match allocator.reallocate pointer size with
    | .error fault => .error (.heap fault)
    | .ok (pointer, after) => .ok (pointer, ⟨after, false, holder, waiting⟩) := by
  unfold reallocate reallocateBase MemoryAllocator.reallocate
  rw [lock_disabled]
  simp only [bind, Except.bind]
  by_cases shrinks : size < allocator.nodeSize (minus pointer sizeofNode)
  · rw [if_pos shrinks, if_pos shrinks]
    rfl
  · rw [if_neg shrinks, if_neg shrinks, allocate_disabled]
    cases allocator.allocate size with
    | error fault => rfl
    | ok result =>
      simp only [deallocate_disabled]
      generalize MemoryAllocator.deallocate _ pointer = freed
      cases freed <;> rfl

end Disabled

end GlobalMemoryAllocator

namespace HeapCall
variable {heap : HeapState} {thread : ThreadId} {call : HeapCall}

/-- The call moves a block, instead of letting the user go on with the one there is. -/
def moves (heap : HeapState) (call : HeapCall) : Prop :=
  ∃ pointer size, call.request = .reallocate pointer size ∧ heap.blockSize pointer ≤ size

theorem run_moves (moves : call.moves heap) :
    call.run ⟨heap.allocator, .free⟩ thread = .error (.waits (.stuck thread)) := by
  obtain ⟨pointer, size, request, grows⟩ := moves
  have stuck := GlobalMemoryAllocator.reallocate_grows thread (Nat.not_lt.mpr grows)
  cases call with
  | reallocate | realloc | reallocarray =>
    cases request
    simp only [run, GlobalMemoryAllocator.realloc, GlobalMemoryAllocator.reallocarray, stuck]
    rfl
  | allocate | deallocate | malloc | calloc | free | operatorNew | operatorDelete => cases request

private theorem run_allocates {size : Nat} (request : call.request = .allocate size)
    (satisfied : ∃ next, heap.execute (.allocate size) = .ok next) :
    ∃ after, call.run ⟨heap.allocator, .free⟩ thread = .ok ⟨after, .free⟩ := by
  obtain ⟨next, executed⟩ := satisfied
  cases done : heap.allocator.allocate size with
  | error fault =>
    rw [HeapState.execute, done] at executed
    cases executed
  | ok result =>
    have allocated := GlobalMemoryAllocator.allocate_free thread done
    cases call with
    | allocate | malloc | operatorNew | calloc =>
      cases request
      simp only [run, GlobalMemoryAllocator.malloc, GlobalMemoryAllocator.operatorNew,
        GlobalMemoryAllocator.calloc,
        allocated]
      exact ⟨_, rfl⟩
    | deallocate | reallocate | free | realloc | reallocarray | operatorDelete => cases request

private theorem run_deallocates {pointer : Nat} (request : call.request = .deallocate pointer)
    (satisfied : ∃ next, heap.execute (.deallocate pointer) = .ok next) :
    ∃ after, call.run ⟨heap.allocator, .free⟩ thread = .ok ⟨after, .free⟩ := by
  obtain ⟨next, executed⟩ := satisfied
  cases done : heap.allocator.deallocate pointer with
  | error fault =>
    rw [HeapState.execute, done] at executed
    cases executed
  | ok after =>
    have deallocated := GlobalMemoryAllocator.deallocate_free thread done
    cases call with
    | deallocate | free | operatorDelete =>
      cases request
      exact ⟨after, deallocated⟩
    | allocate | reallocate | malloc | calloc | realloc | reallocarray
    | operatorNew => cases request

private theorem run_shrinks {pointer size : Nat} (request : call.request = .reallocate pointer size)
    (shrinks : size < heap.blockSize pointer) :
    call.run ⟨heap.allocator, .free⟩ thread = .ok ⟨heap.allocator, .free⟩ := by
  have kept := GlobalMemoryAllocator.reallocate_shrinks thread shrinks
  cases call with
  | reallocate | realloc | reallocarray =>
    cases request
    simp only [run, GlobalMemoryAllocator.realloc, GlobalMemoryAllocator.reallocarray, kept]
    rfl
  | allocate | deallocate | malloc | calloc | free | operatorNew | operatorDelete => cases request

private theorem run_stays (thread : ThreadId) (stays : ¬call.moves heap)
    (satisfied : ∃ next, heap.execute call.request = .ok next) :
    ∃ after, call.run ⟨heap.allocator, .free⟩ thread = .ok ⟨after, .free⟩ := by
  cases request : call.request with
  | allocate size => exact run_allocates request (request ▸ satisfied)
  | deallocate pointer => exact run_deallocates request (request ▸ satisfied)
  | reallocate pointer size =>
    have shrinks : size < heap.blockSize pointer := by
      by_contra grows
      exact stays ⟨pointer, size, request, Nat.le_of_not_lt grows⟩
    exact ⟨heap.allocator, run_shrinks request shrinks⟩
  | write => cases call <;> cases request

end HeapCall

/-- A thread that finds the mutex of the heap free does not come to wait for itself, and leaves the
mutex free. -/
structure HeapCall.Returns (call : HeapCall) (heap : HeapState) (thread : ThreadId) : Prop where
  awake : ∀ mutex, call.run ⟨heap.allocator, .free⟩ thread = .error (.waits mutex) →
    mutex.holdingThread ≠ some thread
  free : ∀ after, call.run ⟨heap.allocator, .free⟩ thread = .ok after → after.mallocMutex = .free

/-- Exactly the calls that move a block lock up the thread; all others return. -/
theorem heap_locking (heap : HeapState) (thread : ThreadId) (call : HeapCall)
    (satisfied : ∃ next, heap.execute call.request = .ok next) :
    (call.Returns heap thread ↔ ¬call.moves heap) ∧
      (call.moves heap → call.run ⟨heap.allocator, .free⟩ thread =
        .error (.waits (.stuck thread))) ∧
      (¬call.moves heap → ∃ after, call.run ⟨heap.allocator, .free⟩ thread =
        .ok ⟨after, .free⟩) := by
  refine ⟨⟨fun returns moves => returns.awake _ (call.run_moves moves) rfl, fun stays => ?_⟩,
    HeapCall.run_moves, fun stays => HeapCall.run_stays thread stays satisfied⟩
  obtain ⟨after, ran⟩ := HeapCall.run_stays thread stays satisfied
  refine ⟨fun mutex waits => ?_, fun after same => ?_⟩
  · rw [ran] at waits
    cases waits
  · rw [ran] at same
    cases same
    rfl

def smallHeap : Option HeapState :=
  HeapState.machine.after (.initial (fun _ => 0) ⟨2 ^ 29, 64⟩) [.allocate 4]

theorem heap_locking_small : ∃ heap, smallHeap = some heap ∧
    ∃ after, (HeapCall.calloc 2 3).run ⟨heap.allocator, .free⟩ startupThread =
      .ok ⟨after, .free⟩ := by
  have played : (smallHeap.map fun heap => (heap.execute (.allocate 6)).toBool) = some true := by
    decide +kernel
  obtain ⟨heap, small, executed⟩ := Option.map_eq_some_iff.mp played
  refine ⟨heap, small, (heap_locking heap startupThread (.calloc 2 3) ?_).2.2 ?_⟩
  · cases done : heap.execute (.allocate 6) with
    | error fault =>
      rw [done] at executed
      cases executed
    | ok next => exact ⟨next, done⟩
  · rintro ⟨pointer, size, request, -⟩
    cases request

/-- The heap could serve the call, but the thread waits for the mutex it holds. -/
theorem realloc_locks_up : ∃ heap next, smallHeap = some heap ∧
    heap.permitted (.reallocate (2 ^ 29 + 8) 4) ∧
    heap.execute (.reallocate (2 ^ 29 + 8) 4) = .ok next ∧
    ¬(HeapCall.realloc (2 ^ 29 + 8) 4).Returns heap startupThread := by
  have played : (smallHeap.map fun heap => (decide (heap.permitted (.reallocate (2 ^ 29 + 8) 4)),
      (heap.execute (.reallocate (2 ^ 29 + 8) 4)).toBool,
        decide (heap.blockSize (2 ^ 29 + 8) ≤ 4))) =
      some (true, true, true) := by decide +kernel
  obtain ⟨heap, small, facts⟩ := Option.map_eq_some_iff.mp played
  simp only [Prod.mk.injEq, decide_eq_true_eq] at facts
  obtain ⟨allowed, executed, moved⟩ := facts
  cases done : heap.execute (.reallocate (2 ^ 29 + 8) 4) with
  | error fault =>
    rw [done] at executed
    cases executed
  | ok next =>
    refine ⟨heap, next, small, allowed, done, fun returns => ?_⟩
    exact returns.awake _ (HeapCall.run_moves ⟨_, _, rfl, moved⟩) rfl

end PicoOs.Kernel
