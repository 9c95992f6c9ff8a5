import PicoOs.Proofs.HeapContents
import PicoOs.Proofs.HeapLocking

/-! Requests for memory with arbitrary words for sizes. The allocator adds, rounds and
multiplies modulo `2^32`, so that a request is served if the exact size and a header
still fit into a word; a larger one is refused only where the wrapped size is. -/

namespace PicoOs.Std
open Library MemoryAllocator

variable {span : Bytes} {heap after : MemoryAllocator} {regions : List Region} {state : HeapState}
  {block : Block}

/-- In a sound heap no block was asked for that would not fit into the address space. -/
theorem HeapState.Sound.below {nodes : List Nat} (sound : state.Sound span nodes)
    (valid : HeapSpan span)
    (member : block ∈ state.live) : block.requested + sizeofNode < 2 ^ 32 := by
  obtain ⟨ordered, same, tiles⟩ := sound.partition
  have inside : ∀ node ∈ ordered, span.data ≤ node ∧
      node + (sizeofNode + state.allocator.nodeSize node) ≤ span.data + span.size := tiles.bounds
  have header : minus block.pointer sizeofNode ∈ ordered := by
    refine same.mem_iff.mpr (List.mem_append_right _ ?_)
    exact List.mem_map.mpr ⟨block, member, rfl⟩
  obtain ⟨above, within⟩ := inside _ header
  have enough : block.requested ≤ state.allocator.nodeSize (minus block.pointer sizeofNode) :=
    sound.payload block member
  have positive := valid.nonnull
  have highest := valid.fits
  omega

private theorem MemoryAllocator.deallocate_fault {pointer : Nat} {fault : HeapFault}
    (stopped : heap.deallocate pointer = .error fault) : fault = .exhausted := by
  have loop : ∀ fuel previous entry target,
      deallocateLoop target fuel heap previous entry = .error fault → fault = .exhausted := by
    intro fuel
    induction fuel with
    | zero =>
      intro previous entry target failed
      cases failed
      rfl
    | succ fuel ih =>
      intro previous entry target failed
      rw [deallocateLoop] at failed
      split at failed
      · cases failed
      split at failed
      · cases failed
      · exact ih _ _ _ failed
  rw [MemoryAllocator.deallocate] at stopped
  split at stopped
  · cases stopped
  split at stopped
  next reason walked =>
    cases stopped
    exact loop _ _ _ _ walked
  · cases stopped
  · cases stopped

/-- An allocation is refused exactly if no free node is large enough, in the arithmetic of the
machine. -/
theorem HeapState.Holds.allocate_refused_iff {size : Nat} (holds : state.Holds span regions)
    (valid : HeapSpan span) :
    state.allocator.allocate size = .error .verifyNotReached ↔ state.Exhausted size := by
  constructor
  · exact fun stopped => (holds.allocate_fault valid stopped).2
  · intro exhausted
    cases outcome : state.allocator.allocate size with
    | error fault => rw [(holds.allocate_fault valid outcome).1]
    | ok result =>
      obtain ⟨skipped, node, rest, shape, fits, _⟩ := allocateLoop_finds holds.layout.links outcome
      obtain ⟨region, present, free, rfl⟩ :=
        mem_freeNodes.mp (show node ∈ freeNodes regions by simp [shape])
      have listed : (region.address, region.size) ∈ state.allocator.freeList := by
        rw [holds.listed valid]
        exact List.mem_map.mpr ⟨region, List.mem_filter.mpr ⟨present, by rw [free]; rfl⟩, rfl⟩
      have small := exhausted _ listed
      rw [holds.layout.sizes region present] at fits
      exact absurd fits (Nat.not_le.mpr small)

end PicoOs.Std

namespace PicoOs.Kernel
open Library PicoOs.Std

namespace GlobalMemoryAllocator
variable {heap : GlobalMemoryAllocator} {thread : ThreadId} {size pointer fresh : Nat}
  {after : MemoryAllocator}

/-- The call got stuck in the mutex and did not come to the heap. -/
def Blocked {α : Type} (result : Except Stopped α) : Prop :=
  ∃ reason, result = .error reason ∧ ∀ fault, reason ≠ .heap fault

theorem lock_taken (taken : heap.mallocMutex.taken = true) : Blocked (heap.lock thread) := by
  unfold lock
  cases locked : heap.mallocMutex.lock thread with
  | error fault => exact ⟨.kernel fault, rfl, nofun⟩
  | ok mutex => exact ⟨.waits mutex, if_pos taken, nofun⟩

theorem lock_open (unlocked : heap.mallocMutex.taken = false) :
    ∃ mutex, heap.lock thread = .ok ⟨heap.allocator, mutex⟩ ∧
    mutex.taken = heap.mallocMutex.enabled := by
  obtain ⟨allocator, enabled, holder, waiting⟩ := heap
  cases enabled with
  | false => exact ⟨_, rfl, rfl⟩
  | true =>
    cases holder with
    | some holder => cases unlocked
    | none => exact ⟨⟨true, some thread, waiting⟩, rfl, rfl⟩

theorem allocate_taken (taken : heap.mallocMutex.taken = true) :
    Blocked (heap.allocate thread size) := by
  obtain ⟨reason, stopped, other⟩ := @lock_taken _ thread taken
  refine ⟨reason, ?_, other⟩
  rw [allocate, stopped]
  rfl

private theorem allocate_open (unlocked : heap.mallocMutex.taken = false) :
    ∃ mutex, heap.allocate thread size = match heap.allocator.allocate size with
      | .error fault => .error (.heap fault)
      | .ok (pointer, after) => .ok (pointer, ⟨after, mutex⟩) := by
  obtain ⟨mutex, locked, _⟩ := @lock_open _ thread unlocked
  refine ⟨mutex.unlock, ?_⟩
  rw [allocate, locked]
  simp only [bind, Except.bind]
  cases heap.allocator.allocate size <;> rfl

private theorem reallocate_taken (taken : heap.mallocMutex.taken = true) :
    Blocked (heap.reallocate thread pointer size) := by
  obtain ⟨reason, stopped, other⟩ := @lock_taken _ thread taken
  refine ⟨reason, ?_, other⟩
  rw [reallocate, stopped]
  rfl

private theorem reallocate_stays (unlocked : heap.mallocMutex.taken = false)
    (shrinks : size < heap.allocator.nodeSize (minus pointer sizeofNode)) :
    ∃ mutex, heap.reallocate thread pointer size = .ok (pointer, ⟨heap.allocator, mutex⟩) := by
  obtain ⟨mutex, locked, _⟩ := @lock_open _ thread unlocked
  refine ⟨mutex.unlock, ?_⟩
  rw [reallocate, locked]
  simp only [bind, Except.bind, reallocateBase, if_pos shrinks]
  rfl

/-- With the mutex enabled the inner allocation waits for the caller itself. -/
theorem reallocate_blocked (unlocked : heap.mallocMutex.taken = false)
    (enabled : heap.mallocMutex.enabled = true)
    (grows : ¬ size < heap.allocator.nodeSize (minus pointer sizeofNode)) :
    Blocked (heap.reallocate thread pointer size) := by
  obtain ⟨mutex, locked, taken⟩ := @lock_open _ thread unlocked
  have held : (⟨heap.allocator, mutex⟩ : GlobalMemoryAllocator).mallocMutex.taken = true :=
    taken.trans enabled
  obtain ⟨reason, stopped, other⟩ := @allocate_taken _ thread size held
  refine ⟨reason, ?_, other⟩
  rw [reallocate, locked]
  simp only [bind, Except.bind, reallocateBase, if_neg grows, stopped]

private theorem reallocate_plain (disabled : heap.mallocMutex.enabled = false) :
    heap.reallocate thread pointer size = match heap.allocator.reallocate pointer size with
      | .error fault => .error (.heap fault)
      | .ok (fresh, after) => .ok (fresh, ⟨after, heap.mallocMutex⟩) := by
  obtain ⟨allocator, enabled, holder, waiting⟩ := heap
  obtain rfl : enabled = false := disabled
  exact reallocate_disabled

end GlobalMemoryAllocator

namespace Request
open GlobalMemoryAllocator
variable {span : Bytes} {heap : HeapState} {regions : List Region} {mutex : KernelMutex}
  {thread : ThreadId} {request : Request}
  {pointer : Nat} {result : Except Stopped (Nat × GlobalMemoryAllocator)}

def others (heap : HeapState) (request : Request) : List Block :=
  match request.resized with
  | none => heap.live
  | some pointer => heap.release pointer

/-- A call that returns gives a block of the exact size or more in a sound heap; a call that the
heap stops cannot be met. -/
structure Honours (span : Bytes) (heap : HeapState) (request : Request)
    (result : Except Stopped (Nat × GlobalMemoryAllocator)) : Prop where
  returns : ∀ pointer after, result = .ok (pointer, after) →
    ∃ nodes, HeapState.Sound span ⟨after.allocator,
      ⟨pointer, request.exact⟩ :: request.others heap⟩ nodes
  stops : ∀ fault, result = .error (.heap fault) → fault = .verifyNotReached

def fits (request : Request) : Prop := request.exact + sizeofNode < 2 ^ 32

/-- The call does not come to give back a block: it waits for the mutex, or it needs a new
block and no free node is large enough for the wrapped size. -/
def Refused (heap : HeapState) (mutex : KernelMutex) (request : Request) : Prop :=
  mutex.taken = true ∨
    (∀ pointer ∈ request.resized, heap.blockSize pointer ≤ wrap request.exact) ∧
      (request.resized.isSome = true ∧ mutex.enabled = true ∨ heap.Exhausted (wrap request.exact))

private theorem honours_blocked (blocked : Blocked result) : request.Honours span heap result := by
  obtain ⟨reason, rfl, other⟩ := blocked
  exact ⟨nofun, fun fault same => absurd (Except.error.inj same) (other fault)⟩

theorem honours_stopped (stopped : result = .error (.heap .verifyNotReached)) :
    request.Honours span heap result := by
  subst stopped
  refine ⟨nofun, fun fault same => ?_⟩
  cases same
  rfl

theorem not_honours {after : GlobalMemoryAllocator} (valid : HeapSpan span) (large : ¬ request.fits)
    (returned : result = .ok (pointer, after)) : ¬ request.Honours span heap result := by
  intro honours
  obtain ⟨nodes, sound⟩ := honours.returns pointer after returned
  exact large (sound.below valid List.mem_cons_self)

private theorem answer_allocates (words : request.words) (fresh : request.resized = none)
    (unlocked : mutex.taken = false) :
    (∀ fault, heap.allocator.allocate (wrap request.exact) = .error fault →
      request.answer ⟨heap.allocator, mutex⟩ thread = .error (.heap fault)) ∧
    ∀ pointer after, heap.allocator.allocate (wrap request.exact) = .ok (pointer, after) →
      ∃ memory mutex', request.answer ⟨heap.allocator, mutex⟩ thread =
        .ok (pointer, ⟨{ after with memory }, mutex'⟩) ∧
        ∀ {first last}, last ≤ pointer ∨ pointer + wrap request.exact ≤ first →
          Memory.Agree after.memory memory first last := by
  obtain ⟨mutex', allocated⟩ :=
    @allocate_open ⟨heap.allocator, mutex⟩ thread (wrap request.exact) unlocked
  cases request with
  | realloc | reallocarray => cases fresh
  | malloc size =>
    rw [exact, wrap_of_lt words] at allocated ⊢
    simp only [answer, GlobalMemoryAllocator.malloc, allocated]
    constructor
    · intro fault failed
      rw [failed]
    · intro pointer after done
      rw [done]
      exact ⟨after.memory, mutex', rfl, fun _ _ _ _ => rfl⟩
  | calloc nmembers size =>
    simp only [exact] at allocated ⊢
    simp only [answer, GlobalMemoryAllocator.calloc, allocated]
    constructor
    · intro fault failed
      rw [failed]
      rfl
    · intro pointer after done
      rw [done]
      exact ⟨_, mutex', rfl, fun apart => Memory.fill_agree _ apart⟩

private theorem answer_taken (taken : mutex.taken = true) :
    Blocked (request.answer ⟨heap.allocator, mutex⟩ thread) := by
  cases request with
  | malloc size => exact allocate_taken taken
  | calloc nmembers size =>
    obtain ⟨reason, stopped, other⟩ :=
      @allocate_taken ⟨heap.allocator, mutex⟩ thread (wrap (nmembers * size)) taken
    refine ⟨reason, ?_, other⟩
    rw [answer, GlobalMemoryAllocator.calloc, stopped]
    rfl
  | realloc pointer size => exact reallocate_taken taken
  | reallocarray pointer nmembers size => exact reallocate_taken taken

theorem answer_resizes (words : request.words) (resized : request.resized = some pointer) :
    request.answer ⟨heap.allocator, mutex⟩ thread =
      reallocate ⟨heap.allocator, mutex⟩ thread pointer (wrap request.exact) := by
  cases request with
  | malloc | calloc => cases resized
  | realloc pointer size =>
    cases resized
    rw [exact, wrap_of_lt words]
    rfl
  | reallocarray pointer nmembers size =>
    cases resized
    rfl

private theorem honours_allocation (holds : heap.Holds span regions) (valid : HeapSpan span)
    (words : request.words)
    (fresh : request.resized = none) (unlocked : mutex.taken = false) :
    request.Honours span heap (request.answer ⟨heap.allocator, mutex⟩ thread) ↔
      request.fits ∨ heap.Exhausted (wrap request.exact) := by
  obtain ⟨failing, serving⟩ := @answer_allocates heap mutex thread request words fresh unlocked
  cases outcome : heap.allocator.allocate (wrap request.exact) with
  | error fault =>
    obtain ⟨rfl, exhausted⟩ := holds.allocate_fault valid outcome
    exact ⟨fun _ => .inr exhausted, fun _ => honours_stopped (failing _ outcome)⟩
  | ok served =>
    obtain ⟨pointer, after⟩ := served
    obtain ⟨memory, mutex', returned, agree⟩ := serving pointer after outcome
    constructor
    · intro honours
      by_contra refused
      exact not_honours valid (fun fits => refused (.inl fits)) returned honours
    · intro either
      rcases either with fits | exhausted
      · have same : wrap request.exact = request.exact :=
          wrap_of_lt (Nat.lt_of_le_of_lt (Nat.le_add_right _ _) fits)
        rw [same] at outcome agree
        obtain ⟨final, placed, _⟩ := holds.allocate valid fits outcome
        obtain ⟨_, _, _, _, _, _, enough, _, room⟩ := placed.region_of valid List.mem_cons_self
        have cleared := placed.payload valid List.mem_cons_self (Nat.le_refl pointer)
          (show pointer + request.exact ≤ _ by simp only at room enough ⊢; omega) agree
        rw [returned]
        refine ⟨?_, nofun⟩
        intro other allocator same
        cases same
        rw [others, fresh]
        exact ⟨_, cleared.sound valid⟩
      · have stopped := (holds.allocate_refused_iff valid).mpr exhausted
        rw [outcome] at stopped
        cases stopped

/-- A block that is large enough for the wrapped size stays where it is. -/
theorem honours_staying (holds : heap.Holds span regions) (valid : HeapSpan span)
    (words : request.words)
    (resized : request.resized = some pointer) (owned : heap.owns pointer)
    (unlocked : mutex.taken = false)
    (shrinks : wrap request.exact < heap.blockSize pointer) :
    request.Honours span heap (request.answer ⟨heap.allocator, mutex⟩ thread) ↔ request.fits := by
  obtain ⟨mutex', returned⟩ :=
    @reallocate_stays ⟨heap.allocator, mutex⟩ thread _ pointer unlocked shrinks
  rw [answer_resizes words resized, returned]
  constructor
  · intro honours
    by_contra large
    exact not_honours valid large rfl honours
  · intro fits
    have same : wrap request.exact = request.exact :=
      wrap_of_lt (Nat.lt_of_le_of_lt (Nat.le_add_right _ _) fits)
    rw [same] at shrinks
    have stays : heap.allocator.reallocate pointer request.exact = .ok (pointer, heap.allocator) :=
      if_pos shrinks
    refine ⟨?_, nofun⟩
    intro other allocator equal
    cases equal
    rw [others, resized]
    exact holds.reallocated valid owned fits stays

private theorem honours_moving (holds : heap.Holds span regions) (valid : HeapSpan span)
    (words : request.words)
    (resized : request.resized = some pointer) (owned : heap.owns pointer)
    (disabled : mutex.enabled = false)
    (grows : heap.blockSize pointer ≤ wrap request.exact) :
    request.Honours span heap (request.answer ⟨heap.allocator, mutex⟩ thread) ↔
      request.fits ∨ heap.Exhausted (wrap request.exact) := by
  have plain := @reallocate_plain ⟨heap.allocator, mutex⟩ thread (wrap request.exact)
    pointer disabled
  rw [answer_resizes words resized, plain]
  constructor
  · intro honours
    by_contra refused
    have room : ¬ heap.Exhausted (wrap request.exact) := fun exhausted => refused (.inr exhausted)
    cases outcome : heap.allocator.reallocate pointer (wrap request.exact) with
    | ok served =>
      rw [outcome] at honours
      exact not_honours valid (fun fits => refused (.inl fits)) rfl honours
    | error fault =>
      rw [outcome] at honours
      obtain rfl := honours.stops fault rfl
      have moves : ¬ wrap request.exact < heap.allocator.nodeSize (minus pointer sizeofNode) :=
        Nat.not_lt.mpr grows
      rw [MemoryAllocator.reallocate, if_neg moves] at outcome
      cases allocated : heap.allocator.allocate (wrap request.exact) with
      | error fault => exact room (holds.allocate_fault valid allocated).2
      | ok fresh =>
        rw [allocated] at outcome
        simp only [bind, Except.bind] at outcome
        split at outcome
        next fault freed =>
          cases outcome
          cases MemoryAllocator.deallocate_fault freed
        next => cases outcome
  · intro either
    by_cases fits : request.fits
    · have same : wrap request.exact = request.exact :=
        wrap_of_lt (Nat.lt_of_le_of_lt (Nat.le_add_right _ _) fits)
      rw [same]
      rcases holds.carries valid owned fits with ⟨fresh, after, done, carries⟩ | ⟨stopped, _⟩
      · rw [done]
        refine ⟨?_, fun _ stopped => by cases stopped⟩
        intro other allocator equal
        cases equal
        rw [others, resized]
        exact carries.sound
      · rw [stopped]
        exact honours_stopped rfl
    · have exhausted := (holds.allocate_refused_iff valid).mpr (either.resolve_left fits)
      have moves : ¬ wrap request.exact < heap.allocator.nodeSize (minus pointer sizeofNode) :=
        Nat.not_lt.mpr grows
      rw [MemoryAllocator.reallocate, if_neg moves, exhausted]
      exact honours_stopped rfl

private theorem honours_iff (holds : heap.Holds span regions) (valid : HeapSpan span)
    (words : request.words)
    (owned : ∀ pointer ∈ request.resized, heap.owns pointer) :
    request.Honours span heap (request.answer ⟨heap.allocator, mutex⟩ thread) ↔
      request.fits ∨ request.Refused heap mutex := by
  by_cases taken : mutex.taken = true
  · exact ⟨fun _ => .inr (.inl taken), fun _ => honours_blocked (answer_taken taken)⟩
  have unlocked : mutex.taken = false := by simpa using taken
  cases resized : request.resized with
  | none =>
    rw [honours_allocation holds valid words resized unlocked, Refused, resized]
    simp [unlocked]
  | some pointer =>
    have known := owned pointer resized
    rw [Refused, resized]
    by_cases grows : heap.blockSize pointer ≤ wrap request.exact
    · cases locking : mutex.enabled with
      | true =>
        have blocked := @reallocate_blocked ⟨heap.allocator, mutex⟩ thread _ pointer unlocked
          locking (Nat.not_lt.mpr grows)
        rw [← answer_resizes words resized] at blocked
        exact iff_of_true (honours_blocked blocked)
          (.inr (.inr ⟨by simpa using grows, .inl ⟨rfl, rfl⟩⟩))
      | false =>
        rw [honours_moving holds valid words resized known locking grows]
        simp [unlocked, grows]
    · rw [honours_staying holds valid words resized known unlocked (Nat.not_le.mp grows)]
      simp [unlocked, grows]

end Request

/-- In every reachable heap a request is honoured exactly if its exact size leaves room for a header
in a word, or if the call does not come to give back a block. -/
theorem heap_requests_iff {span : Bytes} {memory : Memory} {history : List (HeapState × HeapEvent)}
    {heap : HeapState}
    (valid : HeapSpan span) (run : HeapState.machine.Run (.initial memory span) history heap)
    (mutex : KernelMutex)
    (thread : ThreadId) (request : Request) (words : request.words)
    (owned : ∀ pointer ∈ request.resized, heap.owns pointer) :
    request.Honours span heap (request.answer ⟨heap.allocator, mutex⟩ thread) ↔
      request.fits ∨ request.Refused heap mutex := by
  obtain ⟨regions, holds⟩ := HeapState.valid_of_reachable valid ⟨history, run⟩
  exact Request.honours_iff holds valid words owned

theorem heap_requests_iff_small : ∃ heap, smallHeap = some heap ∧
    (Request.reallocarray (2 ^ 29 + 8) 3 5).Honours ⟨2 ^ 29, 64⟩ heap
      ((Request.reallocarray (2 ^ 29 + 8) 3 5).answer ⟨heap.allocator, false, none,
        []⟩ startupThread) := by
  have valid : HeapSpan ⟨2 ^ 29, 64⟩ := ⟨by decide, by decide, by decide, by decide, by decide⟩
  have played : smallHeap.map (fun heap => decide (heap.owns (2 ^ 29 + 8))) = some true := by
    decide +kernel
  obtain ⟨heap, small, owned⟩ := Option.map_eq_some_iff.mp played
  obtain ⟨history, run⟩ := Machine.reachable_after small
  refine ⟨heap, small, (heap_requests_iff valid run _ _ (.reallocarray _ 3 5) ⟨by decide, by decide⟩ ?_).mpr (.inl ?_)⟩
  · rintro pointer ⟨⟩
    exact of_decide_eq_true owned
  · unfold Request.fits
    decide

/-- A request for all but one byte of the address space is given an empty block, in a heap of 64
bytes. -/
theorem malloc_wraps : ∃ after,
    HeapState.machine.Run (.initial (fun _ => 0) ⟨2 ^ 29,
      64⟩) [] (.initial (fun _ => 0) ⟨2 ^ 29, 64⟩) ∧
    (Request.malloc (2 ^ 32 - 1)).answer ⟨(HeapState.initial (fun _ => 0) ⟨2 ^ 29, 64⟩).allocator,
      .free⟩ startupThread =
      .ok (2 ^ 29 + 8, after) ∧ after.allocator.nodeSize (2 ^ 29) = 0 ∧
    ¬ (Request.malloc (2 ^ 32 - 1)).Honours ⟨2 ^ 29, 64⟩ (.initial (fun _ => 0) ⟨2 ^ 29, 64⟩)
      ((Request.malloc (2 ^ 32 - 1)).answer ⟨(HeapState.initial (fun _ => 0) ⟨2 ^ 29, 64⟩).allocator, .free⟩
        startupThread) := by
  have valid : HeapSpan ⟨2 ^ 29, 64⟩ := ⟨by decide, by decide, by decide, by decide, by decide⟩
  have played : ((Request.malloc (2 ^ 32 - 1)).answer
      ⟨(HeapState.initial (fun _ => 0) ⟨2 ^ 29, 64⟩).allocator, .free⟩ startupThread).toOption.map
      (fun result => (result.1, result.2.allocator.nodeSize (2 ^ 29))) = some (2 ^ 29 + 8, 0) := by
    decide +kernel
  obtain ⟨⟨pointer, after⟩, answered, seen⟩ := Option.map_eq_some_iff.mp played
  obtain ⟨rfl, empty⟩ := Prod.mk.inj seen
  have returned := toOption_some.mp answered
  refine ⟨after, .start, returned, empty, Request.not_honours valid ?_ returned⟩
  unfold Request.fits
  decide

end PicoOs.Kernel
