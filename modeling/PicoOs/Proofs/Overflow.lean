import PicoOs.Proofs.StepFrames

/-! When the queues of the scheduler and of the SystemHandler overflow. -/

namespace PicoOs.Kernel
open Library

namespace State
variable {state : State} {thread : ThreadId}

/-- The step appends to a queue that holds 16 threads: the ready queue, the dangling queue or the
queue of the SystemHandler. -/
def overflows (state : State) : SystemEvent → Prop
  | .pendSV => ∃ active, state.activeThread = some active ∧ state.fills active
  | .thread _ .svc =>
      16 ≤ state.waitingThreads.length ∨ ∃ handler, state.systemHandler = some handler ∧
      (state.threads handler).maskedFromScheduler = true ∧ 16 ≤ state.queuedThreads.length
  | .thread thread (.unlock mutex) => 16 ≤ state.queuedThreads.length ∧ ∃ next,
      (state.mutexes mutex).waitingThreads.head? = some next ∧ next ≠ thread ∧
        (state.threads next).maskedFromScheduler = true
  | .thread _ (.enqueueChild _) | .thread _ (.requeueCaller _) => 16 ≤ state.queuedThreads.length
  | _ => False

/-- The first waiting thread is woken, which must not be the one that unlocks. -/
theorem unlock_wakes (sound : state.Sound) (running : state.activeThread = some thread)
    {mutex : MutexId}
    (acquiring : (state.threads thread).acquiring = none)
    (enabled : (state.mutexes mutex).enabled = true) {next : ThreadId}
    {rest : List ThreadId} (waiting : (state.mutexes mutex).waitingThreads = next :: rest) :
    ∃ after, state.unlock thread mutex =
      if thread = next then .error .wakeupActive
      else if (state.threads next).maskedFromScheduler = true ∧ 16 ≤ state.queuedThreads.length then .error .queueFull
      else .ok after := by
  have alive := waiter_alive sound mutex acquiring (by rw [waiting]; exact List.mem_cons_self)
  have active : ((state.dropped thread mutex).released mutex).activeThread = some thread :=
    (released_active mutex).trans running
  have queued : ((state.dropped thread mutex).released mutex).queuedThreads = state.queuedThreads :=
    released_queued
  have masked : (((state.dropped thread mutex).released mutex).threads next).maskedFromScheduler =
      (state.threads next).maskedFromScheduler := unlocked_masked next
  rw [unlock_eq sound mutex enabled, handOver_cons ((released_waiting thread mutex).trans waiting),
    wakeup_eq (by exact alive)]
  change ∃ after, (if ((state.dropped thread mutex).released mutex).activeThread = some next then _
    else if (((state.dropped thread mutex).released mutex).threads next).maskedFromScheduler = true ∧
      16 ≤ ((state.dropped thread mutex).released mutex).queuedThreads.length then _ else _) = _
  rw [active, queued, masked]
  simp only [Option.some.injEq]
  exact ⟨_, rfl⟩

private theorem unlock_overflows (sound : state.Sound) (running : state.activeThread = some thread)
    {mutex : MutexId}
    (acquiring : (state.threads thread).acquiring = none)
    (enabled : (state.mutexes mutex).enabled = true) :
    state.unlock thread mutex = .error .queueFull ↔
    state.overflows (.thread thread (.unlock mutex)) := by
  cases waiting : (state.mutexes mutex).waitingThreads with
  | nil =>
    simp only [overflows, waiting]
    rw [unlock_eq sound mutex enabled, handOver_nil ((released_waiting thread mutex).trans waiting)]
    exact ⟨nofun, fun ⟨_, _, first, _, _⟩ => nomatch first⟩
  | cons next rest =>
    obtain ⟨after, woken⟩ := unlock_wakes sound running acquiring enabled waiting
    simp only [overflows, waiting]
    rw [woken]
    by_cases same : thread = next
    · rw [if_pos same]
      refine ⟨nofun, fun ⟨_, other, first, differs, _⟩ => ?_⟩
      obtain rfl : next = other := Option.some.inj first
      exact absurd same.symm differs
    · rw [if_neg same]
      split
      next full => exact ⟨fun _ => ⟨full.2, next, rfl, Ne.symm same, full.1⟩, fun _ => rfl⟩
      next room =>
        refine ⟨nofun, fun ⟨full, other, first, _, masked⟩ => ?_⟩
        obtain rfl : next = other := Option.some.inj first
        exact absurd ⟨masked, full⟩ room

private theorem addThread_overflows {other : ThreadId} :
    state.addThread other = .error .queueFull ↔ 16 ≤ state.queuedThreads.length := by
  rw [addThread_eq]
  split
  next full => exact ⟨fun _ => full, fun _ => rfl⟩
  next room => exact ⟨nofun, fun full => absurd full room⟩

/-- Once the previous thread is put away, nothing is appended to a queue. -/
theorem switch_room (sound : state.Sound) : Yields (· ≠ .queueFull) state.switch fun _ => True := by
  refine (chooseThread_yields sound).bind fun after _ => ?_
  split
  · exact Yields.error nofun
  · unfold unstashContext
    split
    · exact Yields.error nofun
    · exact Yields.ok trivial

private theorem pendSV_eq (valid : Valid state) {active : ThreadId}
    (running : state.activeThread = some active) :
    state.execute .pendSV = (({ state with pendSV := false } : State).stashed active).saveActive >>= switch := by
  have contexts := valid.contexts
  rw [running] at contexts
  have stashed := @stashContext_eq { state with pendSV := false } active (running_empty contexts)
  change ({ state with pendSV := false } : State).schedulerNext = _
  unfold schedulerNext
  simp only [running]
  rw [← running, stashed, ← schedule_switch]
  rfl

theorem pendSV_overflows (valid : Valid state) :
    state.execute .pendSV = .error .queueFull ↔ state.overflows .pendSV := by
  obtain ⟨active, running⟩ := Option.ne_none_iff_exists'.mp valid.active
  have sound : ({ state with pendSV := false } : State).Sound := valid.sound
  have runs : (({ state with pendSV := false } : State).stashed active).activeThread =
    some active := running
  have fills : (({ state with pendSV := false } : State).stashed active).fills active ↔
    state.fills active := by
    unfold State.fills State.stashed
    rw [modify_self]
    rfl
  have overflows : state.overflows .pendSV ↔ state.fills active := by
    refine ⟨fun ⟨other, runs, full⟩ => ?_, fun full => ⟨active, running, full⟩⟩
    obtain rfl : active = other := Option.some.inj (running.symm.trans runs)
    exact full
  rw [pendSV_eq valid running, overflows, ← fills]
  by_cases full : (({ state with pendSV := false } : State).stashed active).fills active
  · rw [saveActive_full runs full]
    exact ⟨fun _ => full, fun _ => rfl⟩
  · rw [saveActive_eq (stashed_sound sound) runs full]
    refine ⟨fun failed => ?_, fun fills => absurd fills full⟩
    exact absurd rfl ((switch_room (saved_sound (stashed_sound sound) runs)).fault failed)

theorem svc_overflows (valid : Valid state) (running : state.activeThread = some thread)
    (user : (state.threads thread).point = .userMode) :
    state.syscall = .error .queueFull ↔ state.overflows (.thread thread .svc) := by
  have contexts := valid.contexts
  rw [running] at contexts
  obtain ⟨handler, serves, setUp⟩ := valid.order.late thread (by rw [user]; rfl)
  have opened := valid.opened running (by rw [user]; nofun)
  have role : state.role handler = .handler := by
    rw [role_of_large (valid.order.handler handler serves).1]
    exact if_pos serves
  have differs : handler ≠ thread := by
    intro same
    have fits := (valid.sound thread).fits
    rw [view_thread, user, ← same] at fits
    exact absurd (role.symm.trans (of_decide_eq_true fits)) nofun
  have kept : (state.suspended thread).threads handler = state.threads handler :=
    Function.update_of_ne differs ..
  have alive : 1 ≤ ((state.suspended thread).threads handler).refcount := by
    rw [kept]
    exact (valid.sound handler).alive (ProgramPoint.setUp_excludes setUp).1
  have suspended := suspendCaller_eq contexts (active_alive valid.sound running) serves
  rw [wakeup_eq alive, kept] at suspended
  have overflows : state.overflows (.thread thread .svc) ↔ 16 ≤ state.waitingThreads.length ∨
      ((state.threads handler).maskedFromScheduler = true ∧ 16 ≤ state.queuedThreads.length) := by
    refine or_congr_right ⟨fun ⟨other, same, full⟩ => ?_, fun full => ⟨handler, serves, full⟩⟩
    obtain rfl : handler = other := Option.some.inj (serves.symm.trans same)
    exact full
  rw [syscall_switch running, overflows]
  by_cases room : state.waitingThreads.length < 16
  · rw [if_pos room, if_neg nofun] at suspended
    by_cases full : (state.threads handler).maskedFromScheduler = true ∧
      16 ≤ (state.suspended thread).queuedThreads.length
    · rw [suspended, if_pos full]
      exact ⟨fun _ => Or.inr full, fun _ => rfl⟩
    · rw [if_neg full] at suspended
      obtain ⟨_, entered⟩ := (suspendCaller_yields valid.sound valid.order contexts opened running user).value suspended
      rw [suspended]
      refine ⟨fun failed => ?_, fun either => ?_⟩
      · change (do let state ← ((state.suspended thread).woken handler).saveActive; state.switch) = _ at failed
        unfold saveActive at failed
        rw [entered.stopped] at failed
        exact absurd rfl ((switch_room entered.sound).fault failed)
      · exact absurd (either.resolve_left (Nat.not_le.mpr room)) full
  · rw [suspended, if_neg room]
    exact ⟨fun _ => Or.inl (Nat.le_of_not_lt room), fun _ => rfl⟩

end State

theorem queue_overflows_iff {stack : ThreadId → PageRange}
    {context : ThreadId → FullRegisterContext} {state : State}
    {event : SystemEvent} (reachable : State.machine.Reachable (State.boot stack context) state)
    (permitted : state.permitted event)
    (other : ∀ thread mutex, event ≠ .thread thread (.lock mutex)) :
    state.execute event = .error .queueFull ↔ state.overflows event := by
  obtain ⟨valid, -⟩ := reachable_valid reachable
  cases event with
  | tick => exact ⟨nofun, nofun⟩
  | pendSV => exact State.pendSV_overflows valid
  | thread thread step =>
    have ⟨settled, running, may⟩ := permitted
    have stays (stays : step.moves = false) : state.step thread step = .error .queueFull ↔ False :=
      ⟨fun failed => (State.step_kept stays).fault failed rfl, nofun⟩
    cases step with
    | svc => exact State.svc_overflows valid running may.2.2
    | lock mutex => exact absurd rfl (other thread mutex)
    | unlock mutex =>
      have allocates := (valid.sound thread).locks (Or.inl (List.ne_nil_of_mem may.1))
      exact State.unlock_overflows valid.sound running may.2
        (valid.opened running (Valid.allocating allocates) mutex)
    | enable | constructHandler => exact ⟨nofun, nofun⟩
    | pollDangling => exact ⟨fun failed => State.pollDangling_yields.fault failed rfl, nofun⟩
    | clearDangling victim =>
        exact ⟨fun failed => State.clearDangling_yields.fault failed rfl, nofun⟩
    | takeWaiting => exact ⟨fun failed => State.takeWaiting_yields.fault failed rfl, nofun⟩
    | enqueueChild child => exact State.addThread_overflows
    | requeueCaller caller => exact State.addThread_overflows
    | _ => exact stays rfl

namespace SystemEvent

/-- Sixteen processes are in the ready queue, and the time slice of the worker that put the last one
there is over. -/
def crowding : List SystemEvent :=
  let events := startup ++ destroys startupThread ++ spawnRounds 4 [(5, true)] 6
  events.take (events.length - (ends 27).length) ++ [.tick]

end SystemEvent

theorem crowded : ∃ state, State.machine.after .bootPlain SystemEvent.crowding = some state ∧
    state.permitted .pendSV ∧
    state.queuedThreads.length = 16 ∧ state.execute .pendSV = .error .queueFull := by
  have played : (State.machine.after .bootPlain SystemEvent.crowding).map (fun state =>
      (state.pendSV, state.queuedThreads.length, match state.execute .pendSV with
        | .ok _ => none
        | .error fault => some fault)) = some (true, 16, some .queueFull) := by
    decide +kernel
  obtain ⟨state, executed, shape⟩ := Option.map_eq_some_iff.mp played
  obtain ⟨pending, shape⟩ := Prod.mk.inj shape
  obtain ⟨queued, shape⟩ := Prod.mk.inj shape
  refine ⟨state, executed, pending, queued, ?_⟩
  split at shape
  · cases shape
  next failed =>
    obtain rfl := Option.some.inj shape
    exact failed

theorem queue_overflows_crowded :
    ∃ state, State.machine.after .bootPlain SystemEvent.crowding = some state ∧
    (state.execute .pendSV = .error .queueFull ↔ state.overflows .pendSV) ∧
    state.overflows .pendSV := by
  obtain ⟨state, executed, permitted, _, failed⟩ := crowded
  have exactly := queue_overflows_iff (Machine.reachable_after executed) permitted nofun
  exact ⟨state, executed, exactly, exactly.mp failed⟩

theorem ready_queue_overflows :
    ∃ state, State.machine.Reachable .bootPlain state ∧ state.permitted .pendSV ∧
    state.queuedThreads.length = 16 ∧ state.execute .pendSV = .error .queueFull := by
  obtain ⟨state, executed, permitted, queued, failed⟩ := crowded
  exact ⟨state, Machine.reachable_after executed, permitted, queued, failed⟩

end PicoOs.Kernel
