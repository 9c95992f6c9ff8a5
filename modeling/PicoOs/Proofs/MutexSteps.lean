import PicoOs.Proofs.ThreadCounts
import PicoOs.Library.Outcome

/-! What `wakeup`, `lock` and `unlock` make of a state, and that they keep every view
fine. -/

namespace PicoOs.Kernel
open Library

/-- The assertions that the thread system can run into. -/
def KernelFault.possible : KernelFault → Bool
  | queueFull | queueEmpty | schedulerDisabled | wakeupActive | callerUnmasked | notReached => true
  | _ => false

structure Quiet (before after : State) : Prop where
  points : ∀ thread, (after.threads thread).point = (before.threads thread).point
  contexts : ∀ thread, (after.threads thread).stashedContext =
    (before.threads thread).stashedContext
  next : after.next = before.next
  systemHandler : after.systemHandler = before.systemHandler
  enabled : ∀ mutex, (after.mutexes mutex).enabled = (before.mutexes mutex).enabled

theorem Quiet.update {before after : State} (thread : ThreadId) (value : Thread)
    (threads : after.threads = Function.update before.threads thread value)
    (point : value.point = (before.threads thread).point)
    (context : value.stashedContext = (before.threads thread).stashedContext)
    (next : after.next = before.next)
    (systemHandler : after.systemHandler = before.systemHandler)
    (enabled : ∀ mutex, (after.mutexes mutex).enabled = (before.mutexes mutex).enabled) :
    Quiet before after := by
  refine ⟨fun other => ?_, fun other => ?_, next, systemHandler, enabled⟩
  · rw [threads, update_field Thread.point point]
  · rw [threads, update_field Thread.stashedContext context]

theorem Quiet.trans {first middle last : State} (earlier : Quiet first middle)
    (later : Quiet middle last) : Quiet first last where
  points thread := (later.points thread).trans (earlier.points thread)
  contexts thread := (later.contexts thread).trans (earlier.contexts thread)
  next := later.next.trans earlier.next
  systemHandler := later.systemHandler.trans earlier.systemHandler
  enabled mutex := (later.enabled mutex).trans (earlier.enabled mutex)

theorem Quiet.setMutex {state : State} {mutex : MutexId} {value : KernelMutex}
    (enabled : value.enabled = (state.mutexes mutex).enabled) :
    Quiet state (state.setMutex mutex value) := by
  refine ⟨fun _ => rfl, fun _ => rfl, rfl, rfl, fun other => ?_⟩
  by_cases same : other = mutex
  · rw [same, State.setMutex_self, enabled]
  · rw [State.setMutex_of_ne same]

namespace State
variable {state : State} {thread : ThreadId}

theorem ref_eq (alive : 1 ≤ (state.threads thread).refcount) :
    state.ref thread = .ok (state.modify thread fun value => { value with refcount := value.refcount + 1 }) :=
  if_pos alive

theorem unref_eq (shared : 2 ≤ (state.threads thread).refcount) :
    state.unref thread = .ok (state.modify thread fun value => { value with refcount := value.refcount - 1 }) := by
  unfold unref
  split
  next none => omega
  next last => omega
  next => rfl

def woken (state : State) (thread : ThreadId) : State :=
  if (state.threads thread).maskedFromScheduler then
    { state.modify thread fun value => { value with refcount := value.refcount + 1, maskedFromScheduler := false } with
      queuedThreads := state.queuedThreads ++ [thread] }
  else state

theorem addThread_eq : state.addThread thread = if 16 ≤ state.queuedThreads.length then .error .queueFull
    else .ok { state with queuedThreads := state.queuedThreads ++ [thread] } := by
  unfold addThread enqueue
  by_cases full : 16 ≤ state.queuedThreads.length
  · rw [if_pos full, if_neg (Nat.not_lt.mpr full)]
    rfl
  · rw [if_neg full, if_pos (Nat.lt_of_not_le full)]
    rfl

theorem wakeup_eq (alive : 1 ≤ (state.threads thread).refcount) : state.wakeup thread =
    if state.activeThread = some thread then .error .wakeupActive
    else if (state.threads thread).maskedFromScheduler = true ∧ 16 ≤ state.queuedThreads.length then .error .queueFull
    else .ok (state.woken thread) := by
  unfold wakeup woken
  split
  next => rfl
  next =>
    by_cases masked : (state.threads thread).maskedFromScheduler = true
    · simp only [masked, if_true, true_and]
      rw [ref_eq (by simpa using alive), modify_modify]
      exact addThread_eq
    · rw [if_neg masked, if_neg masked, if_neg fun both => masked both.1]

private theorem wakeup_yields (alive : 1 ≤ (state.threads thread).refcount) :
    Yields (KernelFault.possible · = true) (state.wakeup thread) fun after =>
      state.activeThread ≠ some thread ∧ after = state.woken thread := by
  rw [wakeup_eq alive]
  split
  next => exact Yields.error rfl
  next stopped =>
    split
    next => exact Yields.error rfl
    next => exact Yields.ok ⟨stopped, rfl⟩

def acquired (state : State) (thread : ThreadId) (mutex : MutexId) : State :=
  (state.modify thread fun value => { value with
    refcount := value.refcount + 1, acquiring := none, locks := mutex :: value.locks
      }).setMutex mutex
    { state.mutexes mutex with holdingThread := some thread }

def blocked (state : State) (thread : ThreadId) (mutex : MutexId) : State :=
  (state.modify thread fun value => { value with
    refcount := value.refcount + 1, maskedFromScheduler := true,
      acquiring := some mutex }).setMutex mutex
    { state.mutexes mutex with waitingThreads := (state.mutexes mutex).waitingThreads ++ [thread] }

theorem lock_yields (mutex : MutexId) (alive : 1 ≤ (state.threads thread).refcount) :
    Yields (KernelFault.possible · = true) (state.lock thread mutex) fun after =>
      ((state.mutexes mutex).holdingThread = none ∧ (state.mutexes mutex).enabled = true ∧
        after = state.acquired thread mutex) ∨
      ((state.mutexes mutex).holdingThread ≠ none ∧ (state.mutexes mutex).enabled = true ∧
        after = { state.blocked thread mutex with pendSV := true }) ∨
      ((state.mutexes mutex).enabled = false ∧ after = state.enter thread mutex) := by
  unfold lock
  dsimp only
  split
  next enabled =>
    split
    next free =>
      rw [ref_eq alive]
      refine Yields.ok (Or.inl ⟨free, enabled, ?_⟩)
      simp only [acquired, enter, setMutex, modify, Function.update_self, Function.update_idem]
    next holder held =>
      rw [ref_eq (by simpa using alive), modify_modify]
      refine Yields.bind (Yields.ok rfl) fun _ same => ?_
      subst same
      unfold enqueue trigger
      split
      next =>
        refine Yields.bind (Yields.ok rfl) fun _ same => ?_
        subst same
        split
        next => exact Yields.ok (Or.inr (Or.inl ⟨by simp [held], enabled, rfl⟩))
        next => exact Yields.error rfl
      next => exact Yields.error rfl
  next disabled => exact Yields.ok (Or.inr (Or.inr ⟨by simpa using disabled, rfl⟩))

theorem enter_sound (sound : state.Sound) (mutex : MutexId)
    (active : state.activeThread = some thread)
    (allocates : (state.threads thread).point.allocates = true)
    (acquiring : (state.threads thread).acquiring = none ∨
      (state.threads thread).acquiring = some mutex)
    (unmasked : state.role thread = .ordinary → (state.threads thread).maskedFromScheduler = false) :
    (state.enter thread mutex).Sound := by
  intro other
  unfold enter
  rw [view_modify rfl]
  by_cases same : other = thread
  · subst same
    rw [modify_self]
    apply (sound other).enter mutex _ allocates acquiring unmasked
    simp [view, active]
  · rw [modify_of_ne _ same]
    exact sound other

theorem acquired_sound (sound : state.Sound) (mutex : MutexId)
    (active : state.activeThread = some thread)
    (free : (state.mutexes mutex).holdingThread = none)
    (allocates : (state.threads thread).point.allocates = true)
    (acquiring : (state.threads thread).acquiring = none)
    (unmasked : state.role thread = .ordinary → (state.threads thread).maskedFromScheduler = false) :
    (state.acquired thread mutex).Sound := by
  intro other
  have empty : (state.view other).holding mutex = 0 := by simp [view, free]
  unfold acquired
  rw [view_setMutex, view_modify rfl]
  by_cases same : other = thread
  · subst same
    rw [modify_self]
    have acquired := (sound other).acquire mutex (by simp [view, active]) allocates acquiring unmasked
    rw [empty] at acquired
    simpa [view] using acquired
  · have holding : Function.update (state.view other).holding mutex 0 =
      (state.view other).holding := by
      rw [← empty, Function.update_eq_self]
    have waits : Function.update (state.view other).waits mutex
      ((state.mutexes mutex).waitingThreads.count other) =
        (state.view other).waits := Function.update_eq_self ..
    rw [modify_of_ne _ same]
    simp only [Option.toList_some, List.count_singleton, beq_iff_eq, Ne.symm same, if_false,
      holding, waits]
    exact sound other

theorem blocked_sound (sound : state.Sound) (mutex : MutexId)
    (active : state.activeThread = some thread)
    (allocates : (state.threads thread).point.allocates = true)
    (acquiring : (state.threads thread).acquiring = none) :
    (state.blocked thread mutex).Sound := by
  intro other
  have holding : Function.update (state.view other).holding mutex
    ((state.mutexes mutex).holdingThread.toList.count other) =
      (state.view other).holding := Function.update_eq_self ..
  unfold blocked
  rw [view_setMutex, view_modify rfl]
  by_cases same : other = thread
  · subst same
    rw [modify_self]
    have blocked := (sound other).block mutex (by simp [view, active]) allocates acquiring
    simpa [view] using blocked
  · have waits : Function.update (state.view other).waits mutex
      ((state.mutexes mutex).waitingThreads.count other) =
        (state.view other).waits := Function.update_eq_self ..
    rw [modify_of_ne _ same]
    simp only [List.count_append, List.count_singleton, beq_iff_eq, Ne.symm same, if_false,
      Nat.add_zero, holding, waits]
    exact sound other

/-- What `unlock` does first: the thread leaves its critical section. -/
def dropped (state : State) (thread : ThreadId) (mutex : MutexId) : State :=
  state.modify thread fun value => { value with locks := value.locks.erase mutex }

def released (state : State) (mutex : MutexId) : State :=
  match (state.mutexes mutex).holdingThread with
  | none => state
  | some holder =>
    (state.modify holder fun value => { value with refcount := value.refcount - 1 }).setMutex mutex
      { state.mutexes mutex with holdingThread := none }

def inherited (state : State) (mutex : MutexId) (next : ThreadId) (rest : List ThreadId) : State :=
  (state.setMutex mutex
    { state.mutexes mutex with holdingThread := some next, waitingThreads := rest }).woken next

theorem released_mutexes (mutex : MutexId) :
    (state.released mutex).mutexes =
      Function.update state.mutexes mutex { state.mutexes mutex with holdingThread := none } := by
  unfold released
  split
  next free =>
    exact (Function.update_eq_self_iff.mpr (by cases same : state.mutexes mutex; simp_all)).symm
  next => rfl

theorem released_active (mutex : MutexId) :
    (state.released mutex).activeThread = state.activeThread := by
  unfold released
  split <;> rfl

private theorem clearHolding_eq (mutex : MutexId)
    (shared : ∀ holder, (state.mutexes mutex).holdingThread = some holder →
      2 ≤ (state.threads holder).refcount) :
    state.clearHolding mutex = .ok (state.released mutex) := by
  unfold clearHolding released
  cases held : (state.mutexes mutex).holdingThread with
  | none => rfl
  | some holder =>
    dsimp only
    rw [unref_eq (shared holder held)]
    rfl

private theorem released_view (mutex : MutexId) (other : ThreadId) :
    (state.released mutex).view other = { state.view other with
      thread := { state.threads other with
        refcount := (state.threads other).refcount - (state.view other).holding mutex }
      holding := Function.update (state.view other).holding mutex 0 } := by
  unfold released
  split
  next free =>
    have empty : (state.view other).holding mutex = 0 := by simp [view, free]
    have holding : Function.update (state.view other).holding mutex 0 =
      (state.view other).holding := by
      rw [← empty, Function.update_eq_self]
    rw [empty, holding, Nat.sub_zero]
    rfl
  next holder held =>
    have waits : Function.update (state.view other).waits mutex
      ((state.mutexes mutex).waitingThreads.count other) =
        (state.view other).waits := Function.update_eq_self ..
    rw [view_setMutex, view_modify rfl]
    by_cases same : other = holder
    · have single : (state.view other).holding mutex = 1 := by simp [view, held, same]
      subst same
      rw [modify_self, single]
      exact View.ext rfl rfl rfl rfl rfl rfl rfl waits
    · have empty : (state.view other).holding mutex = 0 := by simp [view, held, Ne.symm same]
      rw [modify_of_ne _ same, empty]
      exact View.ext rfl rfl rfl rfl rfl rfl rfl waits

theorem released_sound (sound : state.Sound) (mutex : MutexId)
    (acquiring : (state.threads thread).acquiring = none) :
    ((state.dropped thread mutex).released mutex).Sound := by
  intro other
  have dropped : (state.dropped thread mutex).view other =
      { state.view other with thread := (state.dropped thread mutex).threads other } :=
        view_modify rfl other
  rw [released_view, dropped]
  by_cases same : other = thread
  · subst same
    rw [State.dropped, modify_self]
    exact (sound other).unlock mutex acquiring
  · rw [State.dropped, modify_of_ne _ same]
    exact (sound other).release mutex

theorem woken_view (other : ThreadId) :
    (state.woken thread).view other =
      if other = thread ∧ (state.threads thread).maskedFromScheduler = true then { state.view other with
        thread := { state.threads other with
          refcount := (state.threads other).refcount + 1, maskedFromScheduler := false }
        queued := (state.view other).queued + 1 }
      else state.view other := by
  unfold woken
  split
  next masked =>
    have modified := congrArg View.tally (@view_modify state thread
      (fun value => { value with refcount := value.refcount + 1, maskedFromScheduler := false }) rfl other)
    by_cases same : other = thread
    · subst same
      rw [if_pos ⟨rfl, masked⟩]
      exact View.ext (Function.update_self ..) rfl rfl rfl (by simp [view]) modified rfl rfl
    · rw [if_neg fun both => same both.1]
      exact View.ext (Function.update_of_ne same ..) rfl rfl rfl
        (by simp [view, Ne.symm same]) modified rfl rfl
  next unmasked => rw [if_neg fun both => unmasked both.2]

theorem inherited_sound (sound : state.Sound) (mutex : MutexId) {next : ThreadId}
    {rest : List ThreadId}
    (free : (state.mutexes mutex).holdingThread = none)
    (waiting : (state.mutexes mutex).waitingThreads = next :: rest)
    (stopped : state.activeThread ≠ some next) : (state.inherited mutex next rest).Sound := by
  intro other
  have empty : (state.view other).holding mutex = 0 := by simp [view, free]
  unfold inherited
  rw [woken_view, view_setMutex]
  by_cases same : other = next
  · subst same
    have waits : (state.view other).waits mutex = rest.count other + 1 := by simp [view, waiting]
    split
    next masked =>
      have awake := (sound other).awake mutex (by omega) (by simpa [view, List.count_eq_zero] using stopped) masked.2
      rw [empty, waits] at awake
      simpa using awake
    next unmasked =>
      have inherits := (sound other).inherit mutex (by omega) (by simpa [setMutex] using unmasked)
      rw [empty, waits] at inherits
      simpa using inherits
  · rw [if_neg fun both => same both.1]
    have holding : Function.update (state.view other).holding mutex 0 =
      (state.view other).holding := by
      rw [← empty, Function.update_eq_self]
    have waits : rest.count other = (state.view other).waits mutex := by
      simp [view, waiting, Ne.symm same]
    simp only [Option.toList_some, List.count_singleton, beq_iff_eq, Ne.symm same, if_false,
      holding, waits,
      Function.update_eq_self]
    exact sound other

theorem waiter_alive {waiter : ThreadId} (sound : state.Sound) (mutex : MutexId)
    (acquiring : (state.threads thread).acquiring = none)
    (waits : waiter ∈ (state.mutexes mutex).waitingThreads) :
    1 ≤ (((state.dropped thread mutex).released mutex).threads waiter).refcount := by
  have left := released_sound sound mutex acquiring
  have exact : (((state.dropped thread mutex).released mutex).threads waiter).refcount = _ :=
    (left waiter).exact
  have counted : 1 ≤ (((state.dropped thread mutex).released mutex).view waiter).waits mutex := by
    apply List.one_le_count_iff.mpr
    rw [released_mutexes, Function.update_self]
    exact waits
  rw [exact]
  cases mutex <;> simp only [View.locked] <;> omega

theorem released_waiting (thread : ThreadId) (mutex : MutexId) :
    (((state.dropped thread mutex).released mutex).mutexes mutex).waitingThreads =
      (state.mutexes mutex).waitingThreads := by
  rw [released_mutexes, Function.update_self]
  rfl

theorem unlock_eq (sound : state.Sound) (mutex : MutexId)
    (enabled : (state.mutexes mutex).enabled = true) :
    state.unlock thread mutex = ((state.dropped thread mutex).released mutex).handOver mutex := by
  have shared : ∀ holder, (state.mutexes mutex).holdingThread = some holder →
      2 ≤ ((state.dropped thread mutex).threads holder).refcount := by
    intro holder held
    have twice := (sound holder).held_twice mutex (by simp [view, held])
    have same : ∀ other, ((state.dropped thread mutex).threads other).refcount =
      (state.threads other).refcount :=
      fun _ => update_field Thread.refcount rfl
    rwa [same]
  have cleared := @clearHolding_eq (state.dropped thread mutex) mutex shared
  unfold unlock
  dsimp only
  rw [if_pos (by exact enabled)]
  change ((state.dropped thread mutex).clearHolding mutex >>= fun state => state.handOver mutex) = _
  rw [cleared]
  rfl

theorem handOver_nil {mutex : MutexId} (waiting : (state.mutexes mutex).waitingThreads = []) :
    state.handOver mutex = .ok state := by
  unfold handOver
  rw [waiting]

theorem handOver_cons {mutex : MutexId} {next : ThreadId} {rest : List ThreadId}
    (waiting : (state.mutexes mutex).waitingThreads = next :: rest) :
    state.handOver mutex = (state.setMutex mutex
      { state.mutexes mutex with holdingThread := some next, waitingThreads := rest }).wakeup next := by
  unfold handOver
  rw [waiting]

theorem unlock_yields (sound : state.Sound) (mutex : MutexId)
    (acquiring : (state.threads thread).acquiring = none) :
    Yields (KernelFault.possible · = true) (state.unlock thread mutex) fun after =>
      ((state.mutexes mutex).enabled = false ∧ after = state.dropped thread mutex) ∨
      ((state.mutexes mutex).waitingThreads = [] ∧ (state.mutexes mutex).enabled = true ∧
        after = (state.dropped thread mutex).released mutex) ∨
      ∃ next rest, (state.mutexes mutex).waitingThreads = next :: rest ∧
        (state.mutexes mutex).enabled = true ∧
        state.activeThread ≠ some next ∧
        after = ((state.dropped thread mutex).released mutex).inherited mutex next rest := by
  by_cases enabled : (state.mutexes mutex).enabled = true
  · rw [unlock_eq sound mutex enabled]
    cases waiting : (state.mutexes mutex).waitingThreads with
    | nil =>
      rw [handOver_nil ((released_waiting thread mutex).trans waiting)]
      exact Yields.ok (Or.inr (Or.inl ⟨rfl, enabled, rfl⟩))
    | cons next rest =>
      have alive := waiter_alive sound mutex acquiring (by rw [waiting]; exact List.mem_cons_self)
      rw [handOver_cons ((released_waiting thread mutex).trans waiting)]
      refine (wakeup_yields ?_).mono fun after woken => ?_
      · exact alive
      · refine Or.inr (Or.inr ⟨next, rest, rfl, enabled, ?_, woken.2⟩)
        have stopped : ((state.dropped thread mutex).released mutex).activeThread ≠ some next :=
          woken.1
        rwa [released_active] at stopped
  · unfold unlock
    dsimp only
    rw [if_neg (by exact enabled)]
    exact Yields.ok (Or.inl ⟨eq_false_of_ne_true enabled, rfl⟩)

end State
end PicoOs.Kernel
