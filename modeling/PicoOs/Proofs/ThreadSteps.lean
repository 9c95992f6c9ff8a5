import PicoOs.Proofs.ThreadInvariant

/-! The steps of a thread outside of its critical sections. -/

namespace PicoOs.Kernel
open Library

/-- The caller of a system call, as seen from the thread that serves it. -/
structure Parked (state : State) (thread caller : ThreadId) : Prop where
  user : (state.threads caller).point = .userMode
  masked : (state.threads caller).maskedFromScheduler = true
  saved : (state.threads caller).stashedContext.isSome = true
  differs : caller ≠ thread
  counted : 1 ≤ (state.view caller).tally .parked
  born : caller < state.next

private theorem State.parked_sound {state : State} {thread : ThreadId} (sound : state.Sound)
    (running : state.activeThread = some thread) (role : state.role thread = .handler)
    (acquiring : (state.threads thread).acquiring = none) :
    (state.modify thread fun value => { value with maskedFromScheduler := true }).Sound := by
  intro other
  rw [view_modify rfl]
  by_cases same : other = thread
  · subst same
    rw [modify_self]
    exact (sound other).park role (by simp [view, running]) acquiring
  · rw [modify_of_ne _ same]
    exact sound other

namespace Valid
variable {state : State} {thread : ThreadId} (valid : Valid state)
  (running : state.activeThread = some thread)
  (unlocked : (state.threads thread).locks = [])
  (acquiring : (state.threads thread).acquiring = none)
include valid running

/-- A caller whose reference is in a frame sits in user mode, with its context saved. -/
theorem parked {caller : ThreadId}
    (holds : (.parked, caller) ∈ (state.threads thread).point.holds) :
    Parked state thread caller := by
  have member : (Hold.parked, caller) ∈ (state.threads thread).holds := List.mem_append_left _ holds
  have counted := State.counted (State.active_born valid.sound running) member
  have ⟨user, masked⟩ := (valid.sound caller).parked counted
  change (state.threads caller).point = .userMode at user
  have differs : caller ≠ thread := by
    intro same
    rw [← same, user] at holds
    cases holds
  have saved := (valid.contexts caller).mpr ⟨by rw [user]; rfl, ?_⟩
  · exact ⟨user, masked, saved, differs, counted,
      State.born_of_point valid.sound (by rw [user]; nofun)⟩
  · rw [running]
    exact fun same => differs (Option.some.inj same).symm

include unlocked acquiring

theorem triggers (triggers : (state.threads thread).point.triggers = true) :
    Yields (KernelFault.possible · = true)
      (state.setPoint thread (state.threads thread).point.afterTrigger).trigger Valid := by
  refine Valid.trigger ?_ (valid.opened running fun start => by rw [start] at triggers; cases triggers)
  cases point : (state.threads thread).point with
  | dummyEnabled =>
    refine valid.go running unlocked acquiring point
      (valid.childless (by rw [point]; rfl)) _ nofun ?_ rfl
    exact ⟨fun role fits => (by cases role <;> first | rfl | cases fits), rfl, rfl, rfl, nofun⟩
  | fallbackLoop =>
    refine valid.go running unlocked acquiring point
      (valid.childless (by rw [point]; rfl)) _ nofun ?_ rfl
    exact ⟨fun _ fits => fits, rfl, rfl, rfl, id⟩
  | dying captured =>
    refine valid.go running unlocked acquiring point
      (valid.childless (by rw [point]; rfl)) _ nofun ?_ rfl
    exact ⟨fun role fits => (by cases role <;> first | rfl | cases fits), rfl, rfl, rfl, nofun⟩
  | _ =>
    rw [point] at triggers
    cases triggers

theorem pollDangling (point : (state.threads thread).point = .defaultLoop) :
    Yields (KernelFault.possible · = true) (state.pollDangling thread) Valid := by
  have opened := valid.opened running (by rw [point]; nofun)
  unfold State.pollDangling
  split
  next => exact valid.trigger opened
  next victim dangling queue =>
    refine Yields.ok (valid.move opened running (.defaultRelease victim) unlocked acquiring
      (valid.childless (by rw [point]; rfl)) ?_ rfl ?_ (fun _ => rfl) ⟨rfl, rfl, rfl⟩ id)
    · rw [point]
      exact ⟨fun _ fits => fits, rfl, rfl, rfl, nofun⟩
    · intro kind other
      rw [point]
      cases kind <;> simp [State.outside, ProgramPoint.holds, queue, State.setPoint, State.modify,
        List.count_cons]

theorem finishDestroy (destroying : (state.threads thread).point.isDestroying = true) :
    Valid (state.setPoint thread .defaultLoop) := by
  cases point : (state.threads thread).point with
  | defaultDestroying ranges =>
    refine valid.go running unlocked acquiring point
      (valid.childless (by rw [point]; rfl)) _ nofun ?_ rfl
    exact ⟨fun _ fits => fits, rfl, rfl, rfl, nofun⟩
  | _ =>
    rw [point] at destroying
    cases destroying

theorem finish (finishes : (state.threads thread).point.finishes = true) :
    Valid (state.setPoint thread (state.threads thread).point.afterFinish) := by
  cases point : (state.threads thread).point with
  | startupDone | handlerDone =>
    refine valid.go running unlocked acquiring point
      (valid.childless (by rw [point]; rfl)) _ nofun ?_ rfl
    exact ⟨fun _ fits => fits, rfl, rfl, rfl, nofun⟩
  | _ =>
    rw [point] at finishes
    cases finishes

theorem checkWaiting (point : (state.threads thread).point = .handlerLoop) :
    Yields (KernelFault.possible · = true) (state.checkWaiting thread) Valid := by
  unfold State.checkWaiting
  split
  next =>
    refine State.trigger_yields.mono fun after same => ?_
    subst same
    have fits := (valid.sound thread).fits
    rw [State.view_thread, point] at fits
    have sound := State.parked_sound valid.sound running (of_decide_eq_true fits) acquiring
    exact valid.quiet (valid.opened running (by rw [point]; nofun)) sound (.update _ _ rfl rfl rfl rfl rfl fun _ => rfl)
      rfl (fun _ _ => Or.inl rfl) fun _ => rfl
  next =>
    refine Yields.ok (valid.go running unlocked acquiring point (valid.childless (by rw [point]; rfl)) _ nofun ?_ rfl)
    exact ⟨fun _ fits => fits, rfl, rfl, rfl, nofun⟩

theorem takeWaiting (point : (state.threads thread).point = .handlerTake) :
    Yields (KernelFault.possible · = true) (state.takeWaiting thread) Valid := by
  unfold State.takeWaiting
  split
  next => exact Yields.error rfl
  next caller waiting queue =>
    refine Yields.ok (valid.move (valid.opened running (by rw [point]; nofun)) running (.handlerTaken caller) unlocked
      acquiring (valid.childless (by rw [point]; rfl)) ?_ rfl ?_ (fun _ => rfl) ⟨rfl, rfl, rfl⟩ id)
    · rw [point]
      exact ⟨fun _ fits => fits, rfl, rfl, rfl, nofun⟩
    · intro kind other
      rw [point]
      cases kind <;> simp [State.outside, ProgramPoint.holds, queue, State.setPoint, State.modify,
        List.count_cons]
      omega

theorem readContext {caller : ThreadId}
    (point : (state.threads thread).point = .handlerTaken caller) :
    Yields (KernelFault.possible · = true) (state.readContext thread caller) Valid := by
  have parked := valid.parked running (by rw [point]; exact List.mem_singleton_self _)
  unfold State.readContext
  rw [if_pos parked.saved]
  refine Yields.ok (valid.go running unlocked acquiring point (valid.childless (by rw [point]; rfl)) _ nofun ?_ rfl)
  exact ⟨fun _ fits => fits, rfl, rfl, rfl, nofun⟩

theorem finishCall {caller : ThreadId} {value : UInt32}
    (point : (state.threads thread).point = .workerCall caller)
    (childless : (state.threads thread).child = .none) :
    Yields (KernelFault.possible · = true) (state.finishCall thread caller value) Valid := by
  have parked := valid.parked running (by rw [point]; exact List.mem_singleton_self _)
  obtain ⟨context, saved⟩ := Option.isSome_iff_exists.mp parked.saved
  unfold State.finishCall
  rw [saved]
  refine Yields.ok (valid.go running unlocked acquiring point childless _ nofun ?_ rfl)
  exact ⟨fun _ fits => fits, rfl, rfl, rfl, fun _ => rfl⟩

theorem finishExit {caller : ThreadId}
    (point : (state.threads thread).point = .workerStored caller false) :
    Yields (KernelFault.possible · = true) (state.finishExit thread caller) Valid := by
  have parked := valid.parked running (by rw [point]; exact List.mem_singleton_self _)
  unfold State.finishExit
  rw [if_pos parked.masked]
  refine Yields.ok (valid.go running unlocked acquiring point (valid.childless (by rw [point]; rfl)) _ nofun ?_ rfl)
  exact ⟨fun _ fits => fits, rfl, rfl, rfl, nofun⟩

theorem enable (point : (state.threads thread).point = .dummyStart) :
    Valid { state.setPoint thread .dummyEnabled with
      enabled := true, mutexes := fun mutex => { state.mutexes mutex with enabled := true } } := by
  refine valid.move (fun _ => rfl) running .dummyEnabled unlocked acquiring
    (valid.childless (by rw [point]; rfl)) ?_ rfl
    ?_ (fun _ => rfl) ⟨rfl, rfl, rfl⟩ id
  · rw [point]
    exact ⟨fun _ fits => fits, rfl, rfl, rfl, nofun⟩
  · intro kind other
    rw [point]
    rfl

theorem mask {captured : Option ThreadId}
    (point : (state.threads thread).point = .returned captured) :
    Valid (state.modify thread fun value => { value with maskedFromScheduler := true, point := .dying captured }) := by
  have childless := valid.childless (by rw [point]; rfl)
  have fits := (valid.sound thread).fits
  rw [State.view_thread, point] at fits
  refine valid.become (valid.opened running (by rw [point]; nofun)) running
    { state.threads thread with maskedFromScheduler := true, point := .dying captured } ?_ rfl rfl
      nofun (fun _ => rfl) rfl
    (fun _ => Or.inr rfl) rfl ?_ (fun _ => rfl) ⟨rfl, rfl, rfl⟩ id
  · exact (valid.sound thread).mask (by simp [State.view, running]) (of_decide_eq_true fits) unlocked acquiring childless
  · intro kind other
    rw [Thread.count_holds, Thread.count_holds, point]
    rfl

omit unlocked acquiring in
theorem loadExecutable (point : (state.threads thread).point = .processStart) (range : PageRange) :
    Valid (state.modify thread fun value => { value with ownedPageRanges := value.ownedPageRanges ++
      [range] }) := by
  have late : (state.threads thread).point.late = true := by rw [point]; rfl
  refine valid.become (valid.opened running (by rw [point]; nofun)) running
    { state.threads thread with ownedPageRanges := (state.threads thread).ownedPageRanges ++ [range] } ?_
    (by rw [point]; rfl) (by rw [point]; rfl) (fun _ => late) id rfl Or.inl rfl (fun _ _ => rfl) (fun _ => rfl)
    ⟨rfl, rfl, rfl⟩ id
  exact (valid.sound thread).setContext _ _ _

theorem handOver (point : (state.threads thread).point = .processStart) :
    Valid { state.modify thread fun value => { value with privileged := false, point := .userMode } with control := 0b11 } := by
  have late : (state.threads thread).point.late = true := by rw [point]; rfl
  have childless := valid.childless (by rw [point]; rfl)
  have fits := (valid.sound thread).fits
  rw [State.view_thread, point] at fits
  refine valid.become (valid.opened running (by rw [point]; nofun)) running
    { state.threads thread with privileged := false, point := .userMode } ?_ rfl rfl (fun _ => late)
    (by rw [point]; nofun) rfl Or.inl rfl ?_ (fun _ => rfl) ⟨rfl, rfl, rfl⟩ id
  · have outfit := (valid.sound thread).setContext (state.threads thread).stashedContext
      (state.threads thread).ownedPageRanges false
    exact outfit.advance (by simp [State.view, running]) fits rfl (by rw [State.view_thread, point]; rfl) unlocked
      acquiring fun child => absurd childless child
  · intro kind other
    rw [Thread.count_holds, Thread.count_holds, point]
    rfl

end Valid
end PicoOs.Kernel
