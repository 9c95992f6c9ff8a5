import PicoOs.Proofs.SwitchFrames

/-! Which thread `schedule` returns while the default thread is blocked. -/

namespace PicoOs.Kernel
open Library

private theorem State.fallback_waits {entry : State} (sound : entry.Sound) :
    fallbackThread ∉ entry.queuedThreads := by
  intro queued
  have quiet := ((sound fallbackThread).quiet (Or.inl rfl)).1
  have counted : 1 ≤ (entry.view fallbackThread).queued := List.one_le_count_iff.mpr queued
  simp only [View.ready] at quiet
  omega

/-- `schedule` takes a thread from the ready queue exactly when no thread waits to be destroyed. -/
theorem schedule_takes_iff {stack : ThreadId → PageRange} {context : ThreadId → FullRegisterContext}
    {state entry after : State} {event : SystemEvent} {next : ThreadId}
    (reachable : State.machine.Reachable (State.boot stack context) state)
    (permitted : state.permitted event)
    (entered : state.scheduling event = .ok entry) (queued : entry.queuedThreads ≠ [])
    (blocked : (entry.threads defaultThread).maskedFromScheduler = true)
    (returned : entry.schedule = .ok (next, after)) :
    (next ∈ entry.queuedThreads ∧ next ≠ fallbackThread) ↔
    entry.danglingThreads = [] ∧ ¬entry.dooms := by
  have sound := (reachable_valid reachable).1.scheduling_sound permitted entered
  have fallback : entry.putAway.idleThread = fallbackThread := by
    unfold State.idleThread
    rw [State.putAway_masked, blocked]
    rfl
  obtain ⟨rest, queue⟩ := entry.putAway_queued
  obtain ⟨head, tail, shape⟩ := List.exists_cons_of_ne_nil queued
  rw [shape] at queue
  rw [← entry.putAway_dangling]
  obtain ⟨idle, same⟩ | ⟨settled, same⟩ := (State.schedule_yields sound).value returned
  · have dangling := idle.resolve_right (by rw [queue]; nofun)
    refine ⟨fun taken => absurd (same.trans fallback) taken.2, fun none => absurd none dangling⟩
  · rw [queue] at same
    obtain rfl : head = next := Option.some.inj same
    have member : head ∈ entry.queuedThreads := by
      rw [shape]
      exact List.mem_cons_self
    refine ⟨fun _ => settled, fun _ => ⟨member, fun same => ?_⟩⟩
    subst same
    exact State.fallback_waits sound member

/-- The default thread frees the startup thread while the SystemHandler, thread 4, holds the mutex
of the heap and the worker, thread 6, ends. -/
def SystemEvent.freeing : List SystemEvent :=
  [.thread 0 .pollDangling, .thread 0 (.clearDangling 3), .tick, .pendSV, .thread 5 .handOver,
    .thread 5 .svc,
    .thread 4 .checkWaiting, .thread 4 .takeWaiting, .thread 4 (.readContext 5),
      .thread 4 .construct,
    .thread 4 (.setup 6 ⟨11, 0⟩ (entryContext 0 0)), .thread 4 (.enqueueChild 6),
      .thread 4 (.lock .malloc), .tick, .pendSV,
    .thread 6 (.finishCall 5 0), .thread 6 (.storeReturn 5 0 true), .thread 6 (.unmaskCaller 5),
    .thread 6 (.requeueCaller 5), .thread 6 (.mask none), .thread 6 .trigger, .pendSV,
      .thread 0 (.lock .malloc)]

theorem freeing_schedules : ∃ state entry after,
    State.machine.after .bootPlain (SystemEvent.startup ++ SystemEvent.freeing) = some state ∧
    state.permitted .pendSV ∧
      state.scheduling .pendSV = .ok entry ∧ entry.queuedThreads = [4, 5] ∧
      (entry.threads defaultThread).maskedFromScheduler = true ∧
      entry.schedule = .ok (fallbackThread, after) := by
  have played : (State.machine.after .bootPlain (SystemEvent.startup ++ SystemEvent.freeing)).map
      (fun state => (state.pendSV, (state.scheduling .pendSV).toOption.map fun entry =>
        (entry.queuedThreads, (entry.threads defaultThread).maskedFromScheduler,
          entry.schedule.toOption.map Prod.fst))) =
      some (true, some ([4, 5], true, some fallbackThread)) := by
    decide +kernel
  obtain ⟨state, executed, shape⟩ := Option.map_eq_some_iff.mp played
  obtain ⟨pending, shape⟩ := Prod.mk.inj shape
  cases entered : state.scheduling .pendSV with
  | error fault =>
    rw [entered] at shape
    cases shape
  | ok entry =>
    rw [entered] at shape
    obtain ⟨queued, shape⟩ := Prod.mk.inj (Option.some.inj shape)
    obtain ⟨masked, shape⟩ := Prod.mk.inj shape
    cases returned : entry.schedule with
    | error fault =>
      rw [returned] at shape
      cases shape
    | ok result =>
      rw [returned] at shape
      obtain ⟨next, after⟩ := result
      obtain rfl : next = fallbackThread := Option.some.inj shape
      exact ⟨state, entry, after, executed, pending, entered, queued, masked, returned⟩

theorem schedule_takes_freeing : ∃ state entry,
    State.machine.after .bootPlain (SystemEvent.startup ++ SystemEvent.freeing) = some state ∧
      state.scheduling .pendSV = .ok entry ∧ entry.queuedThreads = [4, 5] ∧
      ¬(entry.danglingThreads = [] ∧ ¬entry.dooms) := by
  obtain ⟨state, entry, after, executed, permitted, entered, queued, masked, returned⟩ :=
    freeing_schedules
  have taken := schedule_takes_iff (Machine.reachable_after executed) permitted entered
    (by rw [queued]; nofun) masked returned
  exact ⟨state, entry, executed, entered, queued, fun settled => (taken.mpr settled).2 rfl⟩

/-- The fallback thread runs although the SystemHandler, which holds the mutex that the default
thread waits for, and a process are ready. -/
theorem fallback_over_runnable : ∃ state entry after,
    State.machine.Reachable .bootPlain state ∧ state.permitted .pendSV ∧
    state.scheduling .pendSV = .ok entry ∧
      (state.mutexes .malloc).holdingThread = some 4 ∧
      (state.mutexes .malloc).waitingThreads = [defaultThread] ∧
      entry.queuedThreads = [4, 5] ∧ (entry.threads defaultThread).maskedFromScheduler = true ∧
      entry.schedule = .ok (fallbackThread, after) := by
  obtain ⟨state, entry, after, executed, permitted, entered, queued, masked, returned⟩ :=
    freeing_schedules
  have played : (State.machine.after .bootPlain (SystemEvent.startup ++ SystemEvent.freeing)).map
      (fun state => state.mutexes .malloc) = some ⟨true, some 4, [defaultThread]⟩ := by
    decide +kernel
  rw [executed] at played
  have mutex : state.mutexes .malloc = ⟨true, some 4, [defaultThread]⟩ := Option.some.inj played
  refine ⟨state, entry, after, Machine.reachable_after executed, permitted, entered, ?_, ?_, queued,
    masked, returned⟩
  · rw [mutex]
  · rw [mutex]

end PicoOs.Kernel
