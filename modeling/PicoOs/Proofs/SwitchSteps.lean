import PicoOs.Proofs.HandlerSteps

/-! Context switches and supervisor calls. -/

namespace PicoOs.Kernel
open Library

namespace State
variable {state : State} {thread : ThreadId}

def stashed (state : State) (thread : ThreadId) : State :=
  state.modify thread fun value => { value with stashedContext := some state.registers }

theorem stashContext_eq (empty : (state.threads thread).stashedContext.isSome = false) :
    state.stashContext thread = .ok (state.stashed thread) := by
  unfold stashContext
  rw [empty]
  rfl

theorem running_empty (contexts : Contexts state (some thread)) :
    (state.threads thread).stashedContext.isSome = false :=
  Bool.eq_false_iff.mpr fun saved => ((contexts thread).mp saved).2 rfl

theorem stashed_contexts (contexts : Contexts state (some thread))
    (setUp : (state.threads thread).point.setUp = true) :
    Contexts (state.stashed thread) none := by
  intro other
  unfold stashed
  by_cases same : other = thread
  · subst same
    rw [modify_self]
    exact ⟨fun _ => ⟨setUp, nofun⟩, fun _ => rfl⟩
  · rw [modify_of_ne _ same]
    refine (contexts other).trans (and_congr_right fun _ => ⟨fun _ => nofun,
      fun _ active => same ?_⟩)
    exact (Option.some.inj active).symm

theorem stashed_sound (sound : state.Sound) : (state.stashed thread).Sound := by
  intro other
  unfold stashed
  rw [view_modify rfl]
  by_cases same : other = thread
  · subst same
    rw [modify_self]
    exact (sound other).setContext _ _ _
  · rw [modify_of_ne _ same]
    exact sound other

def resumed (state : State) (chosen : ThreadId) (registers : FullRegisterContext) : State :=
  { state.modify chosen fun value => { value with stashedContext := none } with
    registers, control := if (state.threads chosen).privileged then 0b10 else 0b11 }

private theorem resumed_valid {before : State} {chosen : ThreadId} (order : Order before)
    (contexts : Contexts before none)
    (opened : ∀ mutex, (before.mutexes mutex).enabled = true)
    (scheduled : Scheduled before state chosen)
    (registers : FullRegisterContext) : Valid (state.resumed chosen registers) := by
  have points : ∀ other, ((state.resumed chosen registers).threads other).point =
    (state.threads other).point :=
    fun _ => update_field Thread.point rfl
  have setUp : (state.threads chosen).point.setUp = true :=
    (scheduled.sound chosen).running (by simp [view, scheduled.active])
  have saved := scheduled.quiet.saved contexts
  have active : (state.resumed chosen registers).activeThread = some chosen := scheduled.active
  refine ⟨?_, (scheduled.quiet.order order).step (Nat.le_refl _) rfl (fun other => Or.inl (points other))
    fun _ _ => Or.inl (points _), fun other => ?_, ?_, fun other runs masked default =>
      ?_, Or.inl fun mutex => ?_⟩
  · have sound : (state.modify chosen fun value => { value with stashedContext := none }).Sound := by
      intro other
      rw [view_modify rfl]
      by_cases same : other = chosen
      · subst same
        rw [modify_self]
        exact (scheduled.sound other).setContext _ _ _
      · rw [modify_of_ne _ same]
        exact scheduled.sound other
    exact sound
  · rw [points, active]
    by_cases same : other = chosen
    · subst same
      have empty : (state.resumed other registers).threads other =
        { state.threads other with stashedContext := none } :=
        Function.update_self ..
      rw [empty]
      exact ⟨by rintro ⟨⟩, fun both => absurd rfl both.2⟩
    · have kept : (state.resumed chosen registers).threads other = state.threads other :=
        Function.update_of_ne same ..
      rw [kept, saved other]
      exact and_congr_right fun _ =>
        ⟨fun _ active => same (Option.some.inj active).symm, fun _ => by rintro ⟨⟩⟩
  · rw [active]
    rintro ⟨⟩
  · have same : other = chosen := Option.some.inj (Eq.trans (Eq.symm runs) active)
    subst same
    have kept : ((state.resumed other registers).threads other).maskedFromScheduler =
        (state.threads other).maskedFromScheduler := update_field Thread.maskedFromScheduler rfl
    rw [kept, scheduled.awake default] at masked
    cases masked
  · exact (scheduled.quiet.enabled mutex).trans (opened mutex)

/-- What follows once the previous thread is put away: `schedule` chooses a thread, and its context
is restored. -/
def switch (state : State) : Except KernelFault State := do
  let state ← state.chooseThread
  match state.activeThread with
  | none => .error .noActiveThread
  | some thread =>
    unstashContext { state with control := if (state.threads thread).privileged then 0b10 else 0b11 } thread

theorem schedule_switch (state : State) :
    (do let (next, state) ← state.schedule; state.unstashContext next) =
      (do let state ← state.saveActive; state.switch) := by
  unfold schedule switch
  cases state.saveActive with
  | error => rfl
  | ok saved =>
    simp only [bind, Except.bind]
    cases saved.chooseThread with
    | error => rfl
    | ok chosen =>
      dsimp only
      cases chosen.activeThread <;> rfl

theorem switch_yields {tolerated : KernelFault → Prop} (sound : state.Sound) (order : Order state)
    (contexts : Contexts state none)
    (opened : ∀ mutex, (state.mutexes mutex).enabled = true) (stopped : state.activeThread = none) :
    Yields tolerated state.switch Valid := by
  refine (choose_yields sound stopped).bind fun after ⟨chosen, scheduled⟩ => ?_
  split
  next absent => exact nomatch absent.symm.trans scheduled.active
  next thread present =>
    obtain rfl := Option.some.inj (present.symm.trans scheduled.active)
    have setUp : (after.threads thread).point.setUp = true :=
      (scheduled.sound thread).running (by simp [view, present])
    have saved := (scheduled.quiet.saved contexts thread).mpr ⟨setUp, nofun⟩
    obtain ⟨registers, context⟩ := Option.isSome_iff_exists.mp saved
    unfold unstashContext
    dsimp only
    rw [context]
    exact Yields.ok (resumed_valid order contexts opened scheduled registers)

private theorem saved_stopped (active : ThreadId) : (state.saved active).activeThread = none := by
  unfold saved
  split
  · split <;> rfl
  · split <;> rfl

theorem schedulerNext_yields (sound : state.Sound) (order : Order state)
    (contexts : Contexts state (some thread))
    (opened : ∀ mutex, (state.mutexes mutex).enabled = true)
    (running : state.activeThread = some thread) :
    Yields (· = .queueFull) state.schedulerNext Valid := by
  have setUp : (state.threads thread).point.setUp = true :=
    (sound thread).running (by simp [view, running])
  have moved : (state.stashed thread).activeThread = some thread := running
  have ordered : Order (state.stashed thread) :=
    order.step (Nat.le_refl _) rfl (fun _ => Or.inl (update_field Thread.point rfl)) fun _ _ =>
      Or.inl (update_field Thread.point rfl)
  unfold schedulerNext
  rw [running]
  dsimp only
  rw [stashContext_eq (running_empty contexts)]
  refine Yields.bind (Yields.ok rfl) fun _ same => ?_
  subst same
  rw [schedule_switch]
  refine (saveActive_yields (stashed_sound sound) moved).bind fun _ same => ?_
  subst same
  have quiet : Quiet (state.stashed thread) ((state.stashed thread).saved thread) :=
    saved_quiet thread
  exact switch_yields (saved_sound (stashed_sound sound) moved) (quiet.order ordered)
    (quiet.saved (stashed_contexts contexts setUp))
      (fun mutex => (quiet.enabled mutex).trans (opened mutex))
    (saved_stopped thread)

def suspended (state : State) (caller : ThreadId) : State :=
  { state.modify caller fun value => { value with
      maskedFromScheduler := true, stashedContext := some state.registers } with
    activeThread := none, waitingThreads := state.waitingThreads ++ [caller] }

private theorem suspended_sound (sound : state.Sound) (running : state.activeThread = some thread)
    (user : (state.threads thread).point = .userMode) : (state.suspended thread).Sound := by
  intro other
  have frames : held (state.suspended thread).threads state.next = held state.threads state.next :=
    held_update_same rfl
  by_cases same : other = thread
  · subst same
    have parked := ((sound other).setContext (some state.registers) (state.threads other).ownedPageRanges
      (state.threads other).privileged).suspend (by simp [view, running]) user
    convert parked using 1
    refine View.ext (Function.update_self ..) rfl rfl rfl rfl ?_ rfl rfl
    funext kind
    change (state.suspended other).outside kind other +
      held (state.suspended other).threads state.next kind other = _
    rw [frames]
    cases kind <;> simp [view, tally, outside, suspended, modify]
    omega
  · convert sound other using 1
    refine View.ext (Function.update_of_ne same ..) rfl rfl ?_ rfl ?_ rfl rfl
    · simp [view, running, suspended, Ne.symm same]
    · funext kind
      change (state.suspended thread).outside kind other +
        held (state.suspended thread).threads state.next kind other = _
      rw [frames]
      cases kind <;> simp [view, tally, outside, suspended, modify, Ne.symm same]

def suspendCaller (state : State) (thread : ThreadId) : Except KernelFault State := do
  let state ← state.ref thread
  let state ← state.stashContext thread
  let state ← state.clearActive thread
  state.notifyWorkerThread thread

theorem syscall_switch (running : state.activeThread = some thread) :
    state.syscall = (do let state ← state.suspendCaller thread; let state ← state.saveActive; state.switch) := by
  unfold syscall suspendCaller
  rw [running]
  simp only [bind_assoc, schedule_switch]

theorem suspendCaller_eq (contexts : Contexts state (some thread))
    (alive : 1 ≤ (state.threads thread).refcount) {handler : ThreadId}
    (serves : state.systemHandler = some handler) :
    state.suspendCaller thread =
    (if state.waitingThreads.length < 16 then (state.suspended thread).wakeup handler else .error .queueFull) := by
  have empty := running_empty contexts
  unfold suspendCaller
  rw [ref_eq alive]
  simp only [bind, Except.bind]
  rw [stashContext_eq (by rw [modify_self]; exact empty)]
  dsimp only
  rw [clearActive_eq (by simp [stashed]; exact alive)]
  dsimp only
  unfold notifyWorkerThread enqueue
  have shape : (((state.modify thread fun value => { value with refcount := value.refcount + 1 }).stashed thread).left
      thread).modify thread (fun value => { value with maskedFromScheduler := true }) =
      { state.suspended thread with waitingThreads := state.waitingThreads } := by
    simp only [left, stashed, suspended, modify, Function.update_self, Function.update_idem,
      Nat.add_sub_cancel]
  dsimp only
  rw [shape]
  simp only [bind, Except.bind]
  split
  next error full =>
    split at full
    next => cases full
    next room =>
      obtain rfl := Except.error.inj full
      exact (if_neg room).symm
  next waiting room =>
    split at room
    next below =>
      obtain rfl := Except.ok.inj room
      rw [if_pos below]
      change (match state.systemHandler with
        | none => _
        | some handler => _) = _
      rw [serves]
      rfl
    next => cases room

theorem woken_quiet : Quiet state (state.woken thread) := by
  unfold woken
  split
  · exact .update _ _ rfl rfl rfl rfl rfl fun _ => rfl
  · exact ⟨fun _ => rfl, fun _ => rfl, rfl, rfl, fun _ => rfl⟩

theorem woken_active : (state.woken thread).activeThread = state.activeThread := by
  unfold woken
  split <;> rfl

private theorem woken_sound (sound : state.Sound) (role : state.role thread = .handler)
    (setUp : (state.threads thread).point.setUp = true)
    (stopped : state.activeThread ≠ some thread) :
    (state.woken thread).Sound := by
  intro other
  rw [woken_view]
  split
  next both =>
    obtain ⟨rfl, masked⟩ := both
    exact (sound other).wake role setUp masked (by simpa [view, List.count_eq_zero] using stopped)
  next => exact sound other

structure Suspended (before after : State) (thread handler : ThreadId) : Prop where
  serves : before.systemHandler = some handler
  room : before.waitingThreads.length < 16
  same : after = (before.suspended thread).woken handler
  sound : after.Sound
  order : Order after
  contexts : Contexts after none
  opened : ∀ mutex, (after.mutexes mutex).enabled = true
  stopped : after.activeThread = none

theorem suspendCaller_yields (sound : state.Sound) (order : Order state)
    (contexts : Contexts state (some thread))
    (opened : ∀ mutex, (state.mutexes mutex).enabled = true)
    (running : state.activeThread = some thread)
    (user : (state.threads thread).point = .userMode) :
    Yields (· = .queueFull) (state.suspendCaller thread) fun after =>
      ∃ handler, Suspended state after thread handler := by
  obtain ⟨handler, serves, setUp⟩ := order.late thread (by rw [user]; rfl)
  rw [suspendCaller_eq contexts (active_alive sound running) serves]
  split
  next room =>
    have sound := suspended_sound sound running user
    have points : ∀ other, ((state.suspended thread).threads other).point =
      (state.threads other).point :=
      fun _ => update_field Thread.point rfl
    have ordered : Order (state.suspended thread) :=
      order.step (Nat.le_refl _) rfl (fun other => Or.inl (points other)) fun _ _ =>
        Or.inl (points _)
    have role : (state.suspended thread).role handler = .handler := by
      rw [role_of_large (order.handler handler serves).1]
      exact if_pos serves
    have saved : Contexts (state.suspended thread) none := by
      intro other
      have stashed := stashed_contexts contexts (by rw [user]; rfl) other
      by_cases same : other = thread
      · subst same
        have moved : (state.suspended other).threads other = _ := Function.update_self ..
        rw [moved]
        exact ⟨fun _ => ⟨by rw [user]; rfl, nofun⟩, fun _ => rfl⟩
      · have kept : (state.suspended thread).threads other = state.threads other :=
          Function.update_of_ne same ..
        rw [State.stashed, modify_of_ne _ same] at stashed
        rw [kept]
        exact stashed
    have ready : ((state.suspended thread).threads handler).point.setUp = true := by rwa [points]
    have serving : 1 ≤ ((state.suspended thread).threads handler).refcount :=
      (sound handler).alive (ProgramPoint.setUp_excludes ready).1
    rw [wakeup_eq serving, if_neg nofun]
    split
    next => exact Yields.error rfl
    have quiet : Quiet (state.suspended thread) ((state.suspended thread).woken handler) :=
      woken_quiet
    exact Yields.ok ⟨handler, serves, room, rfl, woken_sound sound role ready nofun,
      quiet.order ordered, quiet.saved saved,
      fun mutex => (quiet.enabled mutex).trans (opened mutex), woken_active.trans rfl⟩
  next => exact Yields.error rfl

theorem syscall_yields (sound : state.Sound) (order : Order state)
    (contexts : Contexts state (some thread))
    (opened : ∀ mutex, (state.mutexes mutex).enabled = true)
    (running : state.activeThread = some thread)
    (user : (state.threads thread).point = .userMode) :
    Yields (· = .queueFull) state.syscall Valid := by
  rw [syscall_switch running]
  refine (suspendCaller_yields sound order contexts opened running user).bind fun after
    ⟨handler, suspended⟩ => ?_
  unfold saveActive
  rw [suspended.stopped]
  exact switch_yields suspended.sound suspended.order suspended.contexts suspended.opened
    suspended.stopped

end State
end PicoOs.Kernel
