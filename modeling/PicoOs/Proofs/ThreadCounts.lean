import PicoOs.Proofs.ThreadViews

/-! The view of each thread in a state, and how the counts in it change with the
threads and the queues. -/

namespace PicoOs.Kernel

def held (threads : ThreadId → Thread) (next : ThreadId) (kind : Hold) (thread : ThreadId) : Nat :=
  ∑ other ∈ Finset.range next, (threads other).holds.count (kind, thread)

theorem held_update {threads : ThreadId → Thread} {next other : ThreadId} (born : other < next)
    (value : Thread)
    (kind : Hold) (thread : ThreadId) :
    held (Function.update threads other value) next kind thread +
      (threads other).holds.count (kind, thread) =
      held threads next kind thread + value.holds.count (kind, thread) := by
  have member := Finset.mem_range.mpr born
  have rest : ∑ x ∈ (Finset.range next).erase other,
    ((Function.update threads other value) x).holds.count (kind, thread) =
      ∑ x ∈ (Finset.range next).erase other, (threads x).holds.count (kind, thread) := by
    apply Finset.sum_congr rfl
    intro x inside
    rw [Function.update_of_ne (Finset.ne_of_mem_erase inside)]
  unfold held
  rw [← Finset.add_sum_erase _ _ member, ← Finset.add_sum_erase (Finset.range next) _ member, rest,
    Function.update_self]
  omega

theorem held_update_same {threads : ThreadId → Thread} {next other : ThreadId} {value : Thread}
    (same : value.holds = (threads other).holds) :
    held (Function.update threads other value) next = held threads next := by
  funext kind thread
  apply Finset.sum_congr rfl
  intro x _
  by_cases target : x = other
  · rw [target, Function.update_self, same]
  · rw [Function.update_of_ne target]

theorem held_succ (threads : ThreadId → Thread) (next : ThreadId) (value : Thread) (kind : Hold)
    (thread : ThreadId) :
    held (Function.update threads next value) (next + 1) kind thread =
      held threads next kind thread + value.holds.count (kind, thread) := by
  unfold held
  rw [Finset.sum_range_succ, Function.update_self]
  congr 1
  apply Finset.sum_congr rfl
  intro x inside
  rw [Function.update_of_ne (Nat.ne_of_lt (Finset.mem_range.mp inside))]

theorem count_le_held {threads : ThreadId → Thread} {next other : ThreadId} (born : other < next)
    (kind : Hold)
    (thread : ThreadId) : (threads other).holds.count (kind, thread) ≤
      held threads next kind thread := by
  have counts := @held_update threads next other born Thread.unborn kind thread
  have nothing : Thread.unborn.holds.count (kind, thread) = 0 := rfl
  omega

theorem update_field {γ : Type} {threads : ThreadId → Thread} {thread : ThreadId} {value : Thread}
    (field : Thread → γ)
    {other : ThreadId}
    (same : field value = field (threads thread)) :
    field (Function.update threads thread value other) = field (threads other) := by
  by_cases target : other = thread
  · rw [target, Function.update_self, same]
  · rw [Function.update_of_ne target]

theorem born_succ {next thread : ThreadId} (differs : thread ≠ next) :
    decide (thread < next + 1) = decide (thread < next) :=
  decide_eq_decide.mpr ⟨fun below => Nat.lt_of_le_of_ne (Nat.le_of_lt_succ below) differs,
    Nat.lt_succ_of_lt⟩

namespace State

def role (state : State) (thread : ThreadId) : Role :=
  if thread = defaultThread then .default
  else if thread = fallbackThread then .fallback
  else if thread = dummyThread then .dummy
  else if state.systemHandler = some thread then .handler
  else .ordinary

/-- The references of a kind that are not in the frames of a thread. -/
def outside (state : State) (kind : Hold) (thread : ThreadId) : Nat :=
  match kind with
  | .ready | .nascent => 0
  | .parked => state.waitingThreads.count thread + state.leaked.count thread
  | .doomed => state.danglingThreads.count thread

def tally (state : State) (kind : Hold) (thread : ThreadId) : Nat :=
  state.outside kind thread + held state.threads state.next kind thread

def view (state : State) (thread : ThreadId) : View where
  thread := state.threads thread
  role := state.role thread
  born := decide (thread < state.next)
  running := state.activeThread.toList.count thread
  queued := state.queuedThreads.count thread
  tally kind := state.tally kind thread
  holding mutex := (state.mutexes mutex).holdingThread.toList.count thread
  waits mutex := (state.mutexes mutex).waitingThreads.count thread

def Sound (state : State) : Prop := ∀ thread, Fine (state.view thread)

variable {state : State} {thread : ThreadId}

@[simp]
theorem role_default : state.role defaultThread = .default := rfl

@[simp]
theorem role_fallback : state.role fallbackThread = .fallback := rfl

theorem default_of_role (role : state.role thread = .default) : thread = defaultThread := by
  unfold State.role at role
  split at role
  next same => exact same
  split at role
  next => cases role
  split at role
  next => cases role
  split at role
  next => cases role
  next => cases role

theorem role_of_large (large : 4 ≤ thread) :
    state.role thread = if state.systemHandler = some thread then .handler else .ordinary := by
  have above : ∀ fixed < 4, thread ≠ fixed :=
    fun fixed below => Nat.ne_of_gt (Nat.lt_of_lt_of_le below large)
  unfold role
  rw [if_neg (above defaultThread (by decide)), if_neg (above fallbackThread (by decide)),
    if_neg (above dummyThread (by decide))]

theorem view_modify {change : Thread → Thread}
    (same : (change (state.threads thread)).holds = (state.threads thread).holds)
    (other : ThreadId) :
    (state.modify thread change).view other =
      { state.view other with thread := (state.modify thread change).threads other } := by
  have rest : held (state.modify thread change).threads state.next =
    held state.threads state.next := held_update_same same
  apply View.ext <;> try rfl
  funext kind
  exact congrArg (state.outside kind other + ·) (congrFun (congrFun rest kind) other)

@[simp]
theorem modify_self (change : Thread → Thread) :
    (state.modify thread change).threads thread = change (state.threads thread) :=
  Function.update_self ..

@[simp]
theorem modify_of_ne (change : Thread → Thread) {other : ThreadId} (differs : other ≠ thread) :
    (state.modify thread change).threads other = state.threads other :=
  Function.update_of_ne differs ..

theorem modify_modify (first last : Thread → Thread) :
    (state.modify thread first).modify thread last =
      state.modify thread fun value => last (first value) := by
  simp only [modify, Function.update_self, Function.update_idem]

@[simp]
theorem view_thread (other : ThreadId) : (state.view other).thread = state.threads other := rfl

@[simp]
theorem setMutex_threads (mutex : MutexId) (value : KernelMutex) :
    (state.setMutex mutex value).threads = state.threads := rfl

@[simp]
theorem setMutex_self (mutex : MutexId) (value : KernelMutex) :
    (state.setMutex mutex value).mutexes mutex = value :=
  Function.update_self ..

@[simp]
theorem setMutex_of_ne {mutex other : MutexId} {value : KernelMutex} (differs : other ≠ mutex) :
    (state.setMutex mutex value).mutexes other = state.mutexes other :=
  Function.update_of_ne differs ..

theorem view_setMutex (mutex : MutexId) (value : KernelMutex) (other : ThreadId) :
    (state.setMutex mutex value).view other = { state.view other with
      holding := Function.update (state.view other).holding mutex
        (value.holdingThread.toList.count other)
      waits := Function.update (state.view other).waits mutex
        (value.waitingThreads.count other) } := by
  apply View.ext <;> try rfl
  · funext key
    simp only [view, setMutex, Function.update_apply]
    split <;> rfl
  · funext key
    simp only [view, setMutex, Function.update_apply]
    split <;> rfl

theorem active_alive (sound : state.Sound) (active : state.activeThread = some thread) :
    1 ≤ (state.threads thread).refcount := by
  have exact : (state.threads thread).refcount = _ := (sound thread).exact
  have running : (state.view thread).running = 1 := by simp [view, active]
  simp only [View.places] at exact
  omega

theorem tally_update {before after : State} {threads : ThreadId → Thread} {thread : ThreadId}
    {value : Thread}
    (born : thread < before.next) (threads' : after.threads = Function.update threads thread value)
    (next : after.next = before.next)
    (same : held threads before.next = held before.threads before.next)
    (kind : Hold) (other : ThreadId) :
    after.tally kind other + before.outside kind other +
      (threads thread).holds.count (kind, other) =
      before.tally kind other + after.outside kind other + value.holds.count (kind, other) := by
  have counts := @held_update threads _ _ born value kind other
  simp only [tally, threads', next, ← same]
  omega

end State

/-- A step of one thread that moves references between its frames and the queues. -/
theorem State.own_step {before after : State} {thread : ThreadId} {value : Thread}
    (sound : before.Sound)
    (born : thread < before.next)
    (threads : after.threads = Function.update before.threads thread value)
    (next : after.next = before.next)
    (balance : ∀ kind other, after.outside kind other + value.holds.count (kind, other) =
      before.outside kind other + (before.threads thread).holds.count (kind, other))
    (rest : ∀ other, after.view other =
      { before.view other with thread := after.threads other, tally := fun kind => after.tally kind other })
    (moved : Fine { before.view thread with thread := value }) : after.Sound := by
  intro other
  have tally : (fun kind => after.tally kind other) = fun kind => before.tally kind other := by
    funext kind
    have counts := tally_update born threads next rfl kind other
    have balanced := balance kind other
    omega
  rw [rest, tally, threads]
  by_cases same : other = thread
  · subst same
    rw [Function.update_self]
    exact moved
  · rw [Function.update_of_ne same]
    exact sound other

end PicoOs.Kernel
