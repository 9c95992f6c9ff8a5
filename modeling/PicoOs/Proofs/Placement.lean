import PicoOs.Proofs.StepFrames

/-! Where threads are: at most in one of the active slot, the ready queue and the
dangling queue. -/

namespace PicoOs.Kernel
open Library

structure Placed (state : State) : Prop where
  once : ∀ thread, state.activeThread.toList.count thread + state.queuedThreads.count thread +
    state.danglingThreads.count thread ≤ 1
  awake : ∀ thread ∈ state.queuedThreads, (state.threads thread).maskedFromScheduler = false
  queued : defaultThread ∉ state.queuedThreads ∧ fallbackThread ∉ state.queuedThreads
  dangling : defaultThread ∉ state.danglingThreads ∧ fallbackThread ∉ state.danglingThreads

/-- The step gives a mutex to the default thread, which is blocked in `lock()`. -/
def State.wakesDefault (state : State) : SystemEvent → Prop
  | .thread _ (.unlock mutex) =>
    (state.mutexes mutex).waitingThreads.head? = some defaultThread ∧
      (state.threads defaultThread).maskedFromScheduler = true
  | _ => False

instance (state : State) (event : SystemEvent) : Decidable (state.wakesDefault event) := by
  unfold State.wakesDefault
  split <;> infer_instance

private theorem Valid.placed {state : State} (valid : Valid state)
    (absent : defaultThread ∉ state.queuedThreads) : Placed state := by
  have discarded : ∀ thread ∈ state.danglingThreads, state.role thread = .ordinary ∨
    state.role thread = .dummy := by
    intro thread dangling
    exact ProgramPoint.fits_ends (valid.sound thread).fits
      (State.dangling_ends valid.sound dangling)
  refine ⟨fun thread => ?_, fun thread queued => ?_, ⟨absent, fun queued => ?_⟩,
    ⟨fun dangling => ?_, fun dangling => ?_⟩⟩
  · by_cases default : thread = defaultThread
    · subst default
      have waits := List.count_eq_zero.mpr absent
      have lives : state.danglingThreads.count defaultThread = 0 := by
        apply List.count_eq_zero.mpr
        intro dangling
        obtain role | role := discarded _ dangling <;> cases role
      cases state.activeThread <;> simp [waits, lives, List.count_singleton]
      split <;> omega
    · have single := (valid.sound thread).single fun role => default (State.default_of_role role)
      simp only [View.places, View.ready, State.view, State.tally, State.outside] at single
      omega
  · have ready : 1 ≤ (state.view thread).ready :=
      (List.one_le_count_iff.mpr queued).trans (Nat.le_add_right ..)
    refine ((valid.sound thread).ready ready).2 fun role => ?_
    rw [State.default_of_role role] at queued
    exact absent queued
  · have quiet := ((valid.sound fallbackThread).quiet (Or.inl rfl)).1
    have counted : 1 ≤ (state.view fallbackThread).queued := List.one_le_count_iff.mpr queued
    simp only [View.ready] at quiet
    omega
  · obtain role | role := discarded _ dangling <;> cases role
  · obtain role | role := discarded _ dangling <;> cases role

/-- A reference that is due for the ready queue is to an ordinary thread. -/
theorem Valid.due {state : State} (valid : Valid state) {thread other : ThreadId}
    (running : state.activeThread = some thread)
    (member : (.ready, other) ∈ (state.threads thread).holds) : other ≠ defaultThread := by
  intro same
  subst same
  have role := (valid.sound defaultThread).due (State.counted (State.active_born valid.sound running) member)
  cases role

/-- The default thread is flagged, so that `schedule` does not queue it. -/
theorem Valid.absent_switch {state after : State} (valid : Valid state) {event : SystemEvent}
    (permitted : state.permitted event) (schedules : event.schedules = true)
    (executed : state.execute event = .ok after)
    (absent : defaultThread ∉ state.queuedThreads) : defaultThread ∉ after.queuedThreads := by
  intro queued
  obtain ⟨entry, entered, sound, dispatched⟩ := valid.dispatches permitted schedules executed
  obtain queued | ⟨-, plain⟩ := State.putAway_member (dispatched.queued queued)
  · obtain ⟨active, running, rfl⟩ | ⟨thread, handler, running, suspended⟩ := entered
    · exact absent queued
    · rw [suspended.same] at queued
      obtain queued | same := State.woken_member queued
      · exact absent queued
      · have large := (valid.order.handler handler suspended.serves).1
        rw [← same.1] at large
        cases large
  · have flag := (sound defaultThread).flag.mpr (Or.inl rfl)
    rw [State.view_thread, plain] at flag
    cases flag

theorem Valid.absent_step {state after : State} (valid : Valid state) {event : SystemEvent}
    (permitted : state.permitted event)
    (executed : state.execute event = .ok after) (spares : ¬state.wakesDefault event)
    (absent : defaultThread ∉ state.queuedThreads) : defaultThread ∉ after.queuedThreads := by
  cases event with
  | tick =>
    obtain rfl := Except.ok.inj executed
    unfold State.isrSystick
    split <;> exact absent
  | pendSV => exact valid.absent_switch permitted rfl executed absent
  | thread thread step =>
    have ⟨settled, running, may⟩ := permitted
    have kept (stays : step.moves = false) : defaultThread ∉ after.queuedThreads := by
      rw [((State.step_kept stays).value executed).queued]
      exact absent
    cases step with
    | svc => exact valid.absent_switch permitted rfl executed absent
    | lock mutex =>
      obtain ⟨-, -, rfl⟩ | ⟨-, -, rfl⟩ | ⟨-, rfl⟩ :=
        (State.lock_yields mutex (State.active_alive valid.sound running)).value executed
      · exact absent
      · exact absent
      · exact absent
    | unlock mutex =>
      obtain ⟨-, rfl⟩ | ⟨-, -, rfl⟩ | ⟨next, rest, waiting, -, stopped, rfl⟩ :=
        (State.unlock_yields valid.sound mutex may.2).value executed
      · exact absent
      · rw [State.released_queued]
        exact absent
      · intro queued
        obtain queued | ⟨same, masked⟩ := State.woken_member queued
        · change defaultThread ∈ ((state.dropped thread mutex).released mutex).queuedThreads at queued
          rw [State.released_queued] at queued
          exact absent queued
        · change (((state.dropped thread mutex).released mutex).threads next).maskedFromScheduler = true at masked
          rw [State.unlocked_masked, ← same] at masked
          exact spares ⟨by rw [waiting, ← same]; rfl, masked⟩
    | enable | constructHandler =>
      cases executed
      exact absent
    | pollDangling =>
      obtain ⟨-, rfl⟩ | ⟨victim, rest, -, rfl⟩ := State.pollDangling_yields.value executed
      · exact absent
      · exact absent
    | clearDangling victim =>
      obtain rfl := State.clearDangling_yields.value executed
      exact absent
    | takeWaiting =>
      obtain ⟨caller, rest, -, rfl⟩ := State.takeWaiting_yields.value executed
      exact absent
    | enqueueChild child =>
      have prepared : (state.threads thread).child = .prepared child := may.2.2
      have other := valid.due running (List.mem_append_right _ (by rw [prepared]; exact List.mem_singleton_self _))
      obtain rfl := State.addThread_yields.value executed
      exact List.not_mem_append absent (by simpa using Ne.symm other)
    | requeueCaller caller =>
      have point : (state.threads thread).point = .workerUnmasked caller := may.2.2
      have other := valid.due running (List.mem_append_left _ (by rw [point]; exact List.mem_singleton_self _))
      obtain rfl := State.addThread_yields.value executed
      exact List.not_mem_append absent (by simpa using Ne.symm other)
    | _ => exact kept rfl

theorem threads_placed {stack : ThreadId → PageRange} {context : ThreadId → FullRegisterContext}
    {state : State}
    {history : List (State × SystemEvent)}
    (run : State.machine.Run (State.boot stack context) history state)
    (spares : ∀ entry ∈ history, ¬entry.1.wakesDefault entry.2) : Placed state := by
  have absent := run.invariant_under (fun state => defaultThread ∉ state.queuedThreads)
    (fun state event => ¬state.wakesDefault event)
      (by change defaultThread ∉ [startupThread]; decide)
    (fun reachable earlier meets permitted executed =>
      (reachable_valid reachable).1.absent_step permitted executed meets earlier) spares
  exact (reachable_valid ⟨history, run⟩).1.placed absent

/-- The default thread has to wait for the SystemHandler, thread 4, while it frees the worker,
thread 6. -/
def SystemEvent.blocking : List SystemEvent :=
  [.thread 0 .pollDangling, .thread 0 (.clearDangling 3), .thread 0 .finishDestroy,
    .thread 0 .pollDangling, .pendSV,
    .thread 5 .handOver, .thread 5 .svc, .thread 4 .checkWaiting, .thread 4 .takeWaiting,
      .thread 4 (.readContext 5),
    .thread 4 .construct, .thread 4 (.setup 6 ⟨11, 0⟩ (entryContext 0 0)),
      .thread 4 (.enqueueChild 6),
    .thread 4 (.lock .malloc), .tick, .pendSV, .thread 6 (.finishCall 5 0),
      .thread 6 (.storeReturn 5 0 true),
    .thread 6 (.unmaskCaller 5), .thread 6 (.requeueCaller 5), .thread 6 (.mask none),
      .thread 6 .trigger, .pendSV,
    .thread 0 .pollDangling, .thread 0 (.clearDangling 6), .thread 0 (.lock .malloc), .pendSV]

theorem threads_placed_blocking : ∃ state, State.machine.Reachable .bootPlain state ∧
    (state.mutexes .malloc).waitingThreads = [defaultThread] ∧ state.activeThread = some 4 ∧
    Placed state := by
  have played : ((State.machine.restrict fun state event => ¬state.wakesDefault event).after .bootPlain
      (SystemEvent.startup ++ SystemEvent.blocking)).map
      (fun state => ((state.mutexes .malloc).waitingThreads, state.activeThread)) =
        some ([defaultThread], some 4) := by
    decide +kernel
  obtain ⟨state, executed, shape⟩ := Option.map_eq_some_iff.mp played
  obtain ⟨waiting, active⟩ := Prod.mk.inj shape
  obtain ⟨history, restricted⟩ := Machine.reachable_after executed
  obtain ⟨run, spares⟩ := restricted.unrestrict
  exact ⟨state, ⟨history, run⟩, waiting, active, threads_placed run spares⟩

/-- The default thread is in the ready queue once the SystemHandler has unlocked the mutex. -/
theorem default_queued : ∃ state, State.machine.Reachable .bootPlain state ∧
    state.queuedThreads = [5, defaultThread] := by
  have played : (State.machine.after .bootPlain
      (SystemEvent.startup ++ SystemEvent.blocking ++ [.thread 4 (.unlock .malloc)])).map
        State.queuedThreads =
      some [5, defaultThread] := by
    decide +kernel
  obtain ⟨state, executed, queued⟩ := Option.map_eq_some_iff.mp played
  exact ⟨state, Machine.reachable_after executed, queued⟩

end PicoOs.Kernel
