import PicoOs.Proofs.StepFrames

/-! How a mutex changes in a step of the system. -/

namespace PicoOs.Kernel
open Library

inductive MutexChange (before after : State) (mutex : MutexId) : SystemEvent → Prop where
  | untouched {event : SystemEvent}
      (other : ∀ thread, event ≠ .thread thread (.lock mutex) ∧
        event ≠ .thread thread (.unlock mutex))
      (holding : (after.mutexes mutex).holdingThread = (before.mutexes mutex).holdingThread)
      (waiting : (after.mutexes mutex).waitingThreads = (before.mutexes mutex).waitingThreads) :
      MutexChange before after mutex event
  | acquired (thread : ThreadId) (free : (before.mutexes mutex).holdingThread = none)
      (same : after = before.acquired thread mutex) : MutexChange before after mutex
        (.thread thread (.lock mutex))
  | blocked (thread : ThreadId) (held : (before.mutexes mutex).holdingThread ≠ none)
      (same : after = { before.blocked thread mutex with pendSV := true }) :
      MutexChange before after mutex (.thread thread (.lock mutex))
  | released (thread : ThreadId) (none : (before.mutexes mutex).waitingThreads = [])
      (same : after = (before.dropped thread mutex).released mutex) :
      MutexChange before after mutex (.thread thread (.unlock mutex))
  | handed (thread next : ThreadId) (rest : List ThreadId)
      (waiting : (before.mutexes mutex).waitingThreads = next :: rest) (differs : next ≠ thread)
      (same : after = ((before.dropped thread mutex).released mutex).inherited mutex next rest) :
      MutexChange before after mutex (.thread thread (.unlock mutex))

namespace State
variable {state : State} {thread : ThreadId} {mutex other : MutexId}

private theorem woken_mutexes : (state.woken thread).mutexes = state.mutexes := by
  unfold woken
  split <;> rfl

theorem unlocked_mutexes (thread : ThreadId) (mutex : MutexId) :
    ((state.dropped thread mutex).released mutex).mutexes =
    Function.update state.mutexes mutex { state.mutexes mutex with holdingThread := none } :=
  released_mutexes mutex

theorem inherited_mutexes {next : ThreadId} {rest : List ThreadId} :
    (((state.dropped thread mutex).released mutex).inherited mutex next rest).mutexes =
      Function.update state.mutexes mutex
        { state.mutexes mutex with holdingThread := some next, waitingThreads := rest } := by
  unfold inherited
  rw [woken_mutexes, setMutex, unlocked_mutexes, Function.update_self, Function.update_idem]

end State

theorem Valid.step_change {state after : State} (valid : Valid state) {thread : ThreadId}
    {step : ThreadStep}
    (permitted : state.permitted (.thread thread step))
    (executed : state.step thread step = .ok after) (mutex : MutexId) :
    MutexChange state after mutex (.thread thread step) := by
  have ⟨settled, running, may⟩ := permitted
  have elsewhere (apart : ∀ key, step ≠ .lock key ∧ step ≠ .unlock key)
    (same : after.mutexes = state.mutexes) :
      MutexChange state after mutex (.thread thread step) := by
    refine .untouched (fun other => ⟨fun equal => ?_, fun equal => ?_⟩)
      (by rw [same]) (by rw [same])
    · exact (apart mutex).1 (SystemEvent.thread.inj equal).2
    · exact (apart mutex).2 (SystemEvent.thread.inj equal).2
  have beside {key : MutexId} (differs : mutex ≠ key)
    (either : step = .lock key ∨ step = .unlock key)
      (same : after.mutexes mutex = state.mutexes mutex) :
        MutexChange state after mutex (.thread thread step) := by
    refine .untouched (fun other => ⟨fun equal => ?_, fun equal => ?_⟩)
      (by rw [same]) (by rw [same])
    · obtain rfl := (SystemEvent.thread.inj equal).2
      obtain equal | equal := either
      · exact differs (ThreadStep.lock.inj equal)
      · cases equal
    · obtain rfl := (SystemEvent.thread.inj equal).2
      obtain equal | equal := either
      · cases equal
      · exact differs (ThreadStep.unlock.inj equal)
  cases step with
  | svc => exact elsewhere (fun _ => ⟨nofun, nofun⟩) (Switches.syscall.value executed).mutexes
  | lock key =>
    have opened := valid.opened running (Valid.allocating may.1)
    obtain ⟨free, -, rfl⟩ | ⟨held, -, rfl⟩ | ⟨disabled, -⟩ :=
      (State.lock_yields key (State.active_alive valid.sound running)).value executed
    · by_cases same : mutex = key
      · subst same
        exact .acquired thread free rfl
      · exact beside same (Or.inl rfl) (State.setMutex_of_ne same)
    · by_cases same : mutex = key
      · subst same
        exact .blocked thread held rfl
      · exact beside same (Or.inl rfl) (State.setMutex_of_ne same)
    · rw [opened key] at disabled
      cases disabled
  | unlock key =>
    have allocates := (valid.sound thread).locks (Or.inl (List.ne_nil_of_mem may.1))
    have opened := valid.opened running (Valid.allocating allocates)
    obtain ⟨disabled, -⟩ | ⟨none, -, rfl⟩ | ⟨next, rest, waiting, -, stopped, rfl⟩ :=
      (State.unlock_yields valid.sound key may.2).value executed
    · rw [opened key] at disabled
      cases disabled
    · by_cases same : mutex = key
      · subst same
        exact .released thread none rfl
      · refine beside same (Or.inr rfl) ?_
        rw [State.unlocked_mutexes, Function.update_of_ne same]
    · by_cases same : mutex = key
      · subst same
        exact .handed thread next rest waiting (fun equal => stopped (equal ▸ running)) rfl
      · refine beside same (Or.inr rfl) ?_
        rw [State.inherited_mutexes, Function.update_of_ne same]
  | enable =>
    cases executed
    exact .untouched (fun _ => ⟨nofun, nofun⟩) rfl rfl
  | constructHandler =>
    cases executed
    exact elsewhere (fun _ => ⟨nofun, nofun⟩) rfl
  | pollDangling =>
    obtain ⟨-, rfl⟩ | ⟨victim, rest, -, rfl⟩ := State.pollDangling_yields.value executed
    · exact elsewhere (fun _ => ⟨nofun, nofun⟩) rfl
    · exact elsewhere (fun _ => ⟨nofun, nofun⟩) rfl
  | clearDangling victim =>
    obtain rfl := State.clearDangling_yields.value executed
    exact elsewhere (fun _ => ⟨nofun, nofun⟩) rfl
  | takeWaiting =>
    obtain ⟨caller, rest, -, rfl⟩ := State.takeWaiting_yields.value executed
    exact elsewhere (fun _ => ⟨nofun, nofun⟩) rfl
  | enqueueChild child =>
    obtain rfl := State.addThread_yields.value executed
    exact elsewhere (fun _ => ⟨nofun, nofun⟩) rfl
  | requeueCaller caller =>
    obtain rfl := State.addThread_yields.value executed
    exact elsewhere (fun _ => ⟨nofun, nofun⟩) rfl
  | _ => exact elsewhere (fun _ => ⟨nofun, nofun⟩) ((State.step_kept rfl).value executed).mutexes

theorem Valid.mutex_change {state after : State} (valid : Valid state) {event : SystemEvent}
    (permitted : state.permitted event)
    (executed : state.execute event = .ok after) (mutex : MutexId) :
    MutexChange state after mutex event := by
  cases event with
  | tick =>
    obtain rfl := Except.ok.inj executed
    have same : state.isrSystick.mutexes = state.mutexes := by
      unfold State.isrSystick
      split <;> rfl
    exact .untouched (fun _ => ⟨nofun, nofun⟩) (by rw [same]) (by rw [same])
  | pendSV =>
    have same : after.mutexes = state.mutexes := (Switches.schedulerNext.value executed).mutexes
    exact .untouched (fun _ => ⟨nofun, nofun⟩) (by rw [same]) (by rw [same])
  | thread thread step => exact valid.step_change permitted executed mutex

theorem Valid.handler_kept {state after : State} (valid : Valid state) {event : SystemEvent}
    (permitted : state.permitted event)
    (executed : state.execute event = .ok after)
    (others : ∀ thread, event ≠ .thread thread .constructHandler) :
    after.systemHandler = state.systemHandler := by
  cases event with
  | tick =>
    obtain rfl := Except.ok.inj executed
    unfold State.isrSystick
    split <;> rfl
  | pendSV => exact (Switches.schedulerNext.value executed).systemHandler
  | thread thread step =>
    have ⟨settled, running, may⟩ := permitted
    change state.step thread step = .ok after at executed
    cases step with
    | svc => exact (Switches.syscall.value executed).systemHandler
    | constructHandler => exact absurd rfl (others thread)
    | lock key =>
      obtain ⟨-, -, rfl⟩ | ⟨-, -, rfl⟩ | ⟨-, rfl⟩ :=
        (State.lock_yields key (State.active_alive valid.sound running)).value executed
      · rfl
      · rfl
      · rfl
    | unlock key =>
      have quiet : Quiet state ((state.dropped thread key).released key) :=
        State.dropped_quiet.trans State.released_quiet
      obtain ⟨-, rfl⟩ | ⟨-, -, rfl⟩ | ⟨next, rest, -, -, -, rfl⟩ :=
        (State.unlock_yields valid.sound key may.2).value executed
      · rfl
      · exact quiet.systemHandler
      · exact (quiet.trans State.inherited_quiet).systemHandler
    | enable =>
      cases executed
      rfl
    | pollDangling =>
      obtain ⟨-, rfl⟩ | ⟨victim, rest, -, rfl⟩ := State.pollDangling_yields.value executed
      · rfl
      · rfl
    | clearDangling victim =>
      obtain rfl := State.clearDangling_yields.value executed
      rfl
    | takeWaiting =>
      obtain ⟨caller, rest, -, rfl⟩ := State.takeWaiting_yields.value executed
      rfl
    | enqueueChild child =>
      obtain rfl := State.addThread_yields.value executed
      rfl
    | requeueCaller caller =>
      obtain rfl := State.addThread_yields.value executed
      rfl
    | _ => exact ((State.step_kept rfl).value executed).handler

/-- The SystemHandler is constructed once, and as a new thread. -/
theorem Valid.role_kept {state after : State} (valid : Valid state) {event : SystemEvent}
    (permitted : state.permitted event)
    (executed : state.execute event = .ok after) {other : ThreadId} (born : other < state.next) :
    after.role other = state.role other := by
  by_cases constructs : ∃ thread, event = .thread thread .constructHandler
  · obtain ⟨thread, rfl⟩ := constructs
    have point : (state.threads thread).point = .startupBegin := permitted.2.2.2.2
    have own := valid.order.starting thread (by rw [point]; rfl)
    have absent := valid.order.begin (own ▸ point)
    have apart : state.next ≠ other := Nat.ne_of_gt born
    cases executed
    simp [State.role, State.constructHandler, absent, apart]
  · unfold State.role
    rw [valid.handler_kept permitted executed fun thread same => constructs ⟨thread, same⟩]

/-- Code that never allocates is in no critical section. -/
theorem Valid.outside {state : State} (valid : Valid state) {thread : ThreadId}
    (allocates : (state.threads thread).point.allocates = false) :
    (state.threads thread).locks = [] ∧ (state.threads thread).acquiring = none := by
  refine ⟨?_, ?_⟩
  · by_contra locks
    have allocating : (state.threads thread).point.allocates = true :=
      (valid.sound thread).locks (Or.inl locks)
    rw [allocates] at allocating
    cases allocating
  · by_contra acquiring
    have allocating : (state.threads thread).point.allocates = true :=
      (valid.sound thread).locks (Or.inr acquiring)
    rw [allocates] at allocating
    cases allocating

end PicoOs.Kernel
