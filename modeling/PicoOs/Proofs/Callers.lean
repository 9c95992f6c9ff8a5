import PicoOs.Proofs.StepPoints

/-! Where the reference to a thread is that waits for its system call: in the queue of
the SystemHandler, in the frames of the thread that works on the call, or in a closure
that was never destructed. -/

namespace PicoOs.Kernel
open Library

def ProgramPoint.carries : ProgramPoint → Option ThreadId
  | handlerTaken thread | handlerContext thread | workerCall thread | workerReturn thread _ _
  | workerStored thread _
  | workerUnmasked thread => some thread
  | returned captured | dying captured | halted captured => captured
  | _ => none

theorem ProgramPoint.carries_holds {point : ProgramPoint} {caller : ThreadId}
    (carries : point.carries = some caller) :
    1 ≤ point.holds.count (.parked, caller) + point.holds.count (.ready, caller) := by
  cases point with
  | handlerTaken | handlerContext | workerCall | workerReturn | workerStored | workerUnmasked =>
    obtain rfl := Option.some.inj carries
    simp [holds]
  | returned captured | dying captured | halted captured =>
    obtain rfl : captured = some caller := carries
    simp [holds]
  | _ => cases carries

theorem ProgramPoint.carries_setUp {point : ProgramPoint} {caller : ThreadId}
    (carries : point.carries = some caller) :
    point.setUp = true := by
  cases point with
  | unborn | fresh | destroyed => cases carries
  | _ => rfl

inductive Keeper where
  | queue
  | frame (worker : ThreadId)
  | closure

def State.keeps (state : State) (caller : ThreadId) : Keeper → Prop
  | .queue => caller ∈ state.waitingThreads
  | .frame worker => (state.threads worker).point.carries = some caller
  | .closure => caller ∈ state.leaked

private theorem count_pair_held {threads : ThreadId → Thread} {next first second : ThreadId}
    (born : first < next) (later : second < next)
    (differs : second ≠ first) (kind : Hold) (thread : ThreadId) :
    (threads first).holds.count (kind, thread) + (threads second).holds.count (kind, thread) ≤
      held threads next kind thread := by
  have counts := @held_update threads next first born Thread.unborn kind thread
  have rest := @count_le_held (Function.update threads first Thread.unborn) next second
    later kind thread
  have nothing : Thread.unborn.holds.count (kind, thread) = 0 := rfl
  rw [Function.update_of_ne differs] at rest
  omega

namespace Valid
variable {state after : State} {caller worker : ThreadId} {keeper : Keeper} {event : SystemEvent}

theorem frame_holds (valid : Valid state)
    (carries : (state.threads worker).point.carries = some caller) :
    worker < state.next ∧
      1 ≤ (state.threads worker).holds.count (.parked, caller) +
        (state.threads worker).holds.count (.ready, caller) := by
  refine ⟨State.born_of_point valid.sound (ProgramPoint.setUp_excludes (ProgramPoint.carries_setUp carries)).2.2, ?_⟩
  have holds := ProgramPoint.carries_holds carries
  rw [Thread.count_holds, Thread.count_holds]
  omega

/-- Threads in a system call are ordinary. -/
theorem kept_ordinary (valid : Valid state) (keeps : state.keeps caller keeper) :
    state.role caller = .ordinary := by
  have fine := valid.sound caller
  have parked (counted : 1 ≤ (state.view caller).tally .parked) : state.role caller = .ordinary :=
    ProgramPoint.fits_userMode fine.fits (fine.parked counted).1
  cases keeper with
  | queue =>
      exact parked ((List.one_le_count_iff.mpr keeps).trans ((Nat.le_add_right ..).trans (Nat.le_add_right ..)))
  | closure =>
      exact parked ((List.one_le_count_iff.mpr keeps).trans ((Nat.le_add_left ..).trans (Nat.le_add_right ..)))
  | frame worker =>
    obtain ⟨born, holds⟩ := valid.frame_holds keeps
    have counted := @count_le_held state.threads _ _ born .parked caller
    have prepared := @count_le_held state.threads _ _ born .ready caller
    by_cases waits : 1 ≤ (state.threads worker).holds.count (.parked, caller)
    · exact parked ((waits.trans counted).trans (Nat.le_add_left ..))
    · have ready : 1 ≤ (state.threads worker).holds.count (.ready, caller) := by omega
      exact fine.due ((ready.trans prepared).trans (Nat.le_add_left ..))

theorem kept_places (valid : Valid state) (keeps : state.keeps caller keeper) :
    state.activeThread.toList.count caller + state.queuedThreads.count caller +
      state.danglingThreads.count caller +
      state.waitingThreads.count caller + state.leaked.count caller +
        held state.threads state.next .parked caller +
        held state.threads state.next .ready caller +
          held state.threads state.next .doomed caller ≤ 1 := by
  have single := (valid.sound caller).single fun role => by
    have ordinary := (valid.kept_ordinary keeps).symm.trans role
    cases ordinary
  simp only [View.places, View.ready, State.view, State.tally, State.outside] at single
  omega

theorem keeps_counts (valid : Valid state) (keeps : state.keeps caller keeper) :
    1 ≤ state.waitingThreads.count caller + state.leaked.count caller +
      held state.threads state.next .parked caller +
      held state.threads state.next .ready caller := by
  cases keeper with
  | queue =>
    have counted : 1 ≤ state.waitingThreads.count caller := List.one_le_count_iff.mpr keeps
    omega
  | closure =>
    have counted : 1 ≤ state.leaked.count caller := List.one_le_count_iff.mpr keeps
    omega
  | frame worker =>
    obtain ⟨born, holds⟩ := valid.frame_holds keeps
    have parked := @count_le_held state.threads _ _ born .parked caller
    have ready := @count_le_held state.threads _ _ born .ready caller
    omega

theorem kept_once {other : Keeper} (valid : Valid state) (keeps : state.keeps caller keeper)
    (also : state.keeps caller other) :
    keeper = other := by
  have places := valid.kept_places keeps
  cases keeper with
  | queue =>
    have counted : 1 ≤ state.waitingThreads.count caller := List.one_le_count_iff.mpr keeps
    cases other with
    | queue => rfl
    | closure =>
      have counted : 1 ≤ state.leaked.count caller := List.one_le_count_iff.mpr also
      omega
    | frame second =>
      obtain ⟨born, holds⟩ := valid.frame_holds also
      have parked := @count_le_held state.threads _ _ born .parked caller
      have ready := @count_le_held state.threads _ _ born .ready caller
      omega
  | closure =>
    have counted : 1 ≤ state.leaked.count caller := List.one_le_count_iff.mpr keeps
    cases other with
    | closure => rfl
    | queue =>
      have counted : 1 ≤ state.waitingThreads.count caller := List.one_le_count_iff.mpr also
      omega
    | frame second =>
      obtain ⟨born, holds⟩ := valid.frame_holds also
      have parked := @count_le_held state.threads _ _ born .parked caller
      have ready := @count_le_held state.threads _ _ born .ready caller
      omega
  | frame first =>
    obtain ⟨born, holds⟩ := valid.frame_holds keeps
    have parked := @count_le_held state.threads _ _ born .parked caller
    have ready := @count_le_held state.threads _ _ born .ready caller
    cases other with
    | queue =>
      have counted : 1 ≤ state.waitingThreads.count caller := List.one_le_count_iff.mpr also
      omega
    | closure =>
      have counted : 1 ≤ state.leaked.count caller := List.one_le_count_iff.mpr also
      omega
    | frame second =>
      obtain ⟨later, others⟩ := valid.frame_holds also
      by_contra differs
      have apart : second ≠ first := fun same => differs (congrArg Keeper.frame same.symm)
      have parked := @count_pair_held state.threads _ _ _ born later apart .parked caller
      have ready := @count_pair_held state.threads _ _ _ born later apart .ready caller
      omega

theorem kept_away (valid : Valid state) (keeps : state.keeps caller keeper) :
    state.activeThread ≠ some caller ∧
    caller ∉ state.queuedThreads ∧ caller ∉ state.danglingThreads := by
  have places := valid.kept_places keeps
  have counts := valid.keeps_counts keeps
  refine ⟨fun running => ?_, fun queued => ?_, fun dangling => ?_⟩
  · have counted : state.activeThread.toList.count caller = 1 := by simp [running]
    omega
  · have counted : 1 ≤ state.queuedThreads.count caller := List.one_le_count_iff.mpr queued
    omega
  · have counted : 1 ≤ state.danglingThreads.count caller := List.one_le_count_iff.mpr dangling
    omega

private theorem kept_setUp (valid : Valid state) (keeps : state.keeps caller keeper) :
    (state.threads caller).point.setUp = true := by
  have fine := valid.sound caller
  have counts := valid.keeps_counts keeps
  by_cases parked : 1 ≤ (state.view caller).tally .parked
  · have user : (state.threads caller).point = .userMode := (fine.parked parked).1
    rw [user]
    rfl
  · refine (fine.ready ?_).1
    simp only [View.ready, State.view, State.tally, State.outside] at parked ⊢
    omega

end Valid

namespace State
variable {state entry after : State} {other : ThreadId}

theorem putAway_same : (entry.threads other).same (entry.putAway.threads other) := by
  have left {active : ThreadId} : (entry.threads other).same
    ((entry.left active).threads other) := by
    refine update_same rfl ?_ other
    exact ⟨rfl, rfl, id⟩
  unfold putAway saved
  split
  · exact .refl
  · split
    · split
      · exact left
      · exact .refl
    · split
      · exact left
      · exact .refl

private theorem putAway_waiting : entry.putAway.waitingThreads = entry.waitingThreads := by
  unfold putAway saved
  split
  · rfl
  · split
    · split <;> rfl
    · split <;> rfl

theorem woken_waiting {thread : ThreadId} :
    (state.woken thread).waitingThreads = state.waitingThreads := by
  unfold woken
  split <;> rfl

end State

namespace Dispatched
variable {entry after : State} {other : ThreadId}

private theorem waiting (dispatched : Dispatched entry after) :
    after.waitingThreads = entry.waitingThreads := by
  obtain ⟨registers, rests, rfl⟩ | ⟨chosen, rest, registers, settled, queue, rfl⟩ := dispatched
  · exact State.putAway_waiting
  · exact State.putAway_waiting

/-- Only the chosen thread's context is taken. -/
theorem same (dispatched : Dispatched entry after) (rests : after.activeThread ≠ some other) :
    (entry.threads other).same (after.threads other) := by
  obtain ⟨registers, idles, rfl⟩ | ⟨chosen, rest, registers, settled, queue, rfl⟩ := dispatched
  · have apart : other ≠ entry.putAway.idleThread := fun same => rests (congrArg some same.symm)
    have idled : (entry.putAway.threads other).same (entry.putAway.idled.threads other) :=
      State.update_beside rfl apart
    exact (State.putAway_same.trans idled).trans (State.update_beside rfl apart)
  · have apart : other ≠ chosen := fun same => rests (congrArg some same.symm)
    exact State.putAway_same.trans (State.update_beside rfl apart)

end Dispatched

namespace Entered
variable {state entry : State} {event : SystemEvent} {other : ThreadId}

private theorem same (entered : Entered state entry event)
    (stopped : state.activeThread ≠ some other) :
    (state.threads other).same (entry.threads other) := by
  obtain ⟨active, running, rfl⟩ | ⟨thread, handler, running, suspended⟩ := entered
  · have apart : other ≠ active := fun same => stopped (same ▸ running)
    exact State.update_beside rfl apart
  · have apart : other ≠ thread := fun same => stopped (same ▸ running)
    have parked : (state.threads other).same ((state.suspended thread).threads other) :=
      State.update_beside rfl apart
    rw [suspended.same]
    exact parked.trans State.woken_same

end Entered

def State.queues (state : State) : SystemEvent → List ThreadId
  | .thread thread .svc => state.waitingThreads ++ [thread]
  | .thread _ .takeWaiting => state.waitingThreads.tail
  | _ => state.waitingThreads

def State.closures (state : State) : SystemEvent → List ThreadId
  | .thread _ (.clearDangling victim) => state.leaked ++ (state.threads victim).references
  | _ => state.leaked

namespace Valid
variable {state after : State} {other : ThreadId} {event : SystemEvent}

private theorem switch_same (valid : Valid state) (permitted : state.permitted event)
    (schedules : event.schedules = true)
    (executed : state.execute event = .ok after) (stopped : state.activeThread ≠ some other)
    (rests : after.activeThread ≠ some other) :
    (state.threads other).same (after.threads other) := by
  obtain ⟨entry, entered, _, dispatched⟩ := valid.dispatches permitted schedules executed
  exact (entered.same stopped).trans (dispatched.same rests)

private theorem switch_waiting (valid : Valid state) (permitted : state.permitted event)
    (schedules : event.schedules = true)
    (executed : state.execute event = .ok after) : after.waitingThreads = state.queues event := by
  obtain ⟨entry, entered, _, dispatched⟩ := valid.dispatches permitted schedules executed
  rw [dispatched.waiting]
  obtain ⟨active, running, rfl⟩ | ⟨thread, handler, running, suspended⟩ := entered
  · rfl
  · rw [suspended.same]
    exact State.woken_waiting

theorem waiting_step (valid : Valid state) (permitted : state.permitted event)
    (executed : state.execute event = .ok after) :
    after.waitingThreads = state.queues event := by
  cases event with
  | tick =>
    obtain rfl := Except.ok.inj executed
    unfold State.isrSystick
    split <;> rfl
  | pendSV => exact valid.switch_waiting permitted rfl executed
  | thread thread step =>
    have ⟨_, running, may⟩ := permitted
    by_cases stays : step.moves = false
    · have kept := ((State.step_kept stays).value executed).waiting
      rw [kept]
      cases step with
      | svc | takeWaiting => cases stays
      | _ => rfl
    · cases step with
      | svc => exact valid.switch_waiting permitted rfl executed
      | lock mutex =>
        obtain ⟨-, -, rfl⟩ | ⟨-, -, rfl⟩ | ⟨-, rfl⟩ :=
          (State.lock_yields mutex (State.active_alive valid.sound running)).value executed
        · rfl
        · rfl
        · rfl
      | unlock mutex =>
        have released : ((state.dropped thread mutex).released mutex).waitingThreads =
          state.waitingThreads := by
          unfold State.released
          split <;> rfl
        obtain ⟨-, rfl⟩ | ⟨-, -, rfl⟩ | ⟨next, rest, -, -, -, rfl⟩ :=
          (State.unlock_yields valid.sound mutex may.2).value executed
        · rfl
        · exact released
        · exact State.woken_waiting.trans released
      | enable | constructHandler =>
        cases executed
        rfl
      | pollDangling =>
        obtain ⟨-, rfl⟩ | ⟨victim, rest, -, rfl⟩ := State.pollDangling_yields.value executed
        · rfl
        · rfl
      | clearDangling victim =>
        obtain rfl := State.clearDangling_yields.value executed
        rfl
      | takeWaiting =>
        obtain ⟨caller, rest, queue, rfl⟩ := State.takeWaiting_yields.value executed
        unfold State.queues
        rw [queue]
        rfl
      | enqueueChild child =>
        obtain rfl := State.addThread_yields.value executed
        rfl
      | requeueCaller caller =>
        obtain rfl := State.addThread_yields.value executed
        rfl
      | _ => exact absurd rfl stays

theorem leaked_step (valid : Valid state) (permitted : state.permitted event)
    (executed : state.execute event = .ok after) :
    after.leaked = state.closures event := by
  cases event with
  | tick =>
    obtain rfl := Except.ok.inj executed
    unfold State.isrSystick
    split <;> rfl
  | pendSV => exact (Switches.schedulerNext.value executed).leaked
  | thread thread step =>
    have ⟨_, running, may⟩ := permitted
    by_cases stays : step.moves = false
    · have kept := ((State.step_kept stays).value executed).leaked
      rw [kept]
      cases step with
      | clearDangling => cases stays
      | _ => rfl
    · cases step with
      | svc => exact (Switches.syscall.value executed).leaked
      | lock mutex =>
        obtain ⟨-, -, rfl⟩ | ⟨-, -, rfl⟩ | ⟨-, rfl⟩ :=
          (State.lock_yields mutex (State.active_alive valid.sound running)).value executed
        · rfl
        · rfl
        · rfl
      | unlock mutex =>
        have released : ((state.dropped thread mutex).released mutex).leaked = state.leaked := by
          unfold State.released
          split <;> rfl
        obtain ⟨-, rfl⟩ | ⟨-, -, rfl⟩ | ⟨next, rest, -, -, -, rfl⟩ :=
          (State.unlock_yields valid.sound mutex may.2).value executed
        · rfl
        · exact released
        · refine Eq.trans ?_ released
          unfold State.inherited State.woken
          split <;> rfl
      | enable | constructHandler =>
        cases executed
        rfl
      | pollDangling =>
        obtain ⟨-, rfl⟩ | ⟨victim, rest, -, rfl⟩ := State.pollDangling_yields.value executed
        · rfl
        · rfl
      | clearDangling victim =>
        obtain rfl := State.clearDangling_yields.value executed
        rfl
      | takeWaiting =>
        obtain ⟨caller, rest, queue, rfl⟩ := State.takeWaiting_yields.value executed
        rfl
      | enqueueChild child =>
        obtain rfl := State.addThread_yields.value executed
        rfl
      | requeueCaller caller =>
        obtain rfl := State.addThread_yields.value executed
        rfl
      | _ => exact absurd rfl stays

variable {caller worker : ThreadId}

/-- Unless the worker itself makes a step, its place in the code stays the same, or it is destroyed
and its closure keeps the reference. -/
theorem carrier_kept (valid : Valid state) (permitted : state.permitted event)
    (executed : state.execute event = .ok after)
    (carries : (state.threads worker).point.carries = some caller)
    (other : ∀ step, step ≠ .svc → event ≠ .thread worker step) :
    (after.threads worker).point = (state.threads worker).point ∨
      (state.threads worker).point.ends = true ∧ caller ∈ after.leaked := by
  have setUp := ProgramPoint.carries_setUp carries
  cases event with
  | tick =>
    obtain rfl := Except.ok.inj executed
    refine Or.inl ?_
    unfold State.isrSystick
    split <;> rfl
  | pendSV => exact Or.inl ((Switches.schedulerNext.value executed).point worker)
  | thread thread step =>
    by_cases call : step = .svc
    · subst call
      exact Or.inl ((Switches.syscall.value executed).point worker)
    · have apart : worker ≠ thread := by
        intro same
        exact other step call (by rw [same])
      obtain kept | rfl | ⟨value, shouldReturn, rfl⟩ :=
        valid.step_other permitted executed call apart setUp
      · exact Or.inl kept.point
      · have ⟨_, running, _, _, point⟩ := permitted
        have point : (state.threads thread).point = .defaultRelease worker := point
        have ended : (state.threads worker).point.ends = true :=
          State.released_ends valid.sound running point
        refine Or.inr ⟨ended, ?_⟩
        rw [valid.leaked_step permitted executed]
        refine List.mem_append_right _ (List.mem_append_left _ ?_)
        cases reached : (state.threads worker).point with
        | dying captured | halted captured =>
          rw [reached] at carries
          obtain rfl : captured = some caller := carries
          exact List.mem_singleton_self _
        | dummyStart | dummyEnabled =>
          rw [reached] at carries
          cases carries
        | _ =>
          rw [reached] at ended
          cases ended
      · obtain ⟨context, -, rfl⟩ := State.storeReturn_yields.value executed
        refine Or.inl ?_
        rw [State.setPoint, State.modify_of_ne _ apart, State.modify_self]

private theorem lands_carries {step : ThreadStep} (may : (state.threads worker).may step)
    (carries : (state.lands worker step).carries = some caller) :
    (state.threads worker).point.carries = some caller ∨ step = .takeWaiting ∧
    state.waitingThreads.head? = some caller := by
  have at_point {point : ProgramPoint} (reached : (state.threads worker).point = point)
    (same : point.carries = some caller) :
      (state.threads worker).point.carries = some caller ∨ step = .takeWaiting ∧
        state.waitingThreads.head? = some caller :=
    Or.inl (reached ▸ same)
  cases step with
  | compute | lock | lockReturn | unlock | construct | loadExecutable | svc
  | proceed => exact Or.inl carries
  | enable | clearDangling | finishDestroy | constructHandler | setupHandler | requeueCaller
  | handOver => cases carries
  | trigger =>
    have triggers : (state.threads worker).point.triggers = true := may.2.2
    dsimp only [State.lands] at carries
    cases point : (state.threads worker).point with
    | dummyEnabled | fallbackLoop =>
      rw [point] at carries
      cases carries
    | dying captured =>
      rw [point] at carries
      exact Or.inl carries
    | _ =>
      rw [point] at triggers
      cases triggers
  | pollDangling =>
    dsimp only [State.lands] at carries
    split at carries
    · exact Or.inl carries
    · cases carries
  | setup =>
    dsimp only [State.lands] at carries
    cases point : (state.threads worker).point with
    | handlerContext =>
      rw [point] at carries
      cases carries
    | _ =>
      rw [point] at carries
      exact Or.inl carries
  | enqueueChild =>
    dsimp only [State.lands] at carries
    cases point : (state.threads worker).point with
    | startupReady | handlerSpawned =>
      rw [point] at carries
      cases carries
    | _ =>
      rw [point] at carries
      exact Or.inl carries
  | finish =>
    have finishes : (state.threads worker).point.finishes = true := may.2.2
    dsimp only [State.lands] at carries
    cases point : (state.threads worker).point with
    | startupDone | handlerDone =>
      rw [point] at carries
      cases carries
    | _ =>
      rw [point] at finishes
      cases finishes
  | checkWaiting =>
    dsimp only [State.lands] at carries
    split at carries
    · exact Or.inl carries
    · cases carries
  | takeWaiting =>
    dsimp only [State.lands] at carries
    split at carries
    · exact Or.inl carries
    next queue => exact Or.inr ⟨rfl, by rw [queue]; exact carries⟩
  | readContext => exact at_point may.2.2 carries
  | finishCall => exact at_point may.2.2.1 carries
  | storeReturn | finishExit | unmaskCaller | mask => exact at_point may.2.2 carries

private theorem meddled_carries {thread : ThreadId} {step : ThreadStep}
    (permitted : state.permitted (.thread thread step))
    (executed : state.step thread step = .ok after) (differs : worker ≠ thread)
    (meddles : state.Meddles step worker)
    (carries : (after.threads worker).point.carries = some caller) :
    (state.threads worker).point.carries = some caller ∨
      (∃ stack context, step = .setup worker stack context) ∧
      (state.threads thread).point = .handlerContext caller := by
  cases meddles with
  | destroys =>
    obtain rfl := State.clearDangling_yields.value executed
    have gone : ((state.destroyed thread worker).threads worker).point = .destroyed :=
      (@State.update_beside (state.modify worker fun _ => { Thread.unborn with point := .destroyed })
        (state.destroyed thread worker) thread worker _ rfl differs).point.trans
          (State.changed_point rfl rfl)
    rw [gone] at carries
    cases carries
  | stores _ value shouldReturn =>
    obtain ⟨context, -, rfl⟩ := State.storeReturn_yields.value executed
    rw [State.setPoint, State.modify_of_ne _ differs, State.modify_self] at carries
    exact Or.inl carries
  | createsHandler | creates =>
    cases executed
    rw [State.changed_point rfl rfl] at carries
    cases carries
  | setsUpHandler _ stack context serves =>
    obtain ⟨handler, also, rfl⟩ := State.setupHandler_yields.value executed
    obtain rfl := Option.some.inj (serves.symm.trans also)
    rw [State.setPoint, State.modify_of_ne _ differs, State.modify_self] at carries
    cases carries
  | setsUp _ stack context =>
    obtain rfl := State.setup_yields.value executed
    rw [State.modify_of_ne _ differs, State.modify_self] at carries
    refine Or.inr ⟨⟨stack, context, rfl⟩, ?_⟩
    change (state.threads thread).point.entry.carries = some caller at carries
    cases point : (state.threads thread).point with
    | handlerContext other =>
      rw [point] at carries
      exact congrArg ProgramPoint.handlerContext (Option.some.inj carries)
    | _ =>
      rw [point] at carries
      cases carries

/-- A thread comes to work on a system call only by taking the caller out of the queue, or as a new
worker. -/
theorem carries_step (valid : Valid state) (permitted : state.permitted event)
    (executed : state.execute event = .ok after)
    (carries : (after.threads worker).point.carries = some caller) :
    (state.threads worker).point.carries = some caller ∨
      (event = .thread worker .takeWaiting ∧ state.waitingThreads.head? = some caller) ∨
        ∃ thread stack context, event = .thread thread (.setup worker stack context) ∧
          (state.threads thread).point = .handlerContext caller := by
  cases event with
  | tick =>
    obtain rfl := Except.ok.inj executed
    refine Or.inl ?_
    unfold State.isrSystick at carries
    split at carries <;> exact carries
  | pendSV => exact Or.inl ((Switches.schedulerNext.value executed).point worker ▸ carries)
  | thread thread step =>
    by_cases call : step = .svc
    · subst call
      exact Or.inl ((Switches.syscall.value executed).point worker ▸ carries)
    · by_cases own : worker = thread
      · subst own
        rw [valid.step_lands permitted executed call] at carries
        exact (lands_carries permitted.2.2 carries).imp id fun ⟨takes, first⟩ =>
          Or.inl ⟨by rw [takes], first⟩
      · obtain kept | meddles := valid.step_beside permitted executed call own
        · exact Or.inl (kept.point ▸ carries)
        · obtain same | ⟨⟨stack, context, rfl⟩, point⟩ :=
            meddled_carries permitted executed own meddles carries
          · exact Or.inl same
          · exact Or.inr (Or.inr ⟨thread, stack, context, rfl, point⟩)

/-- The saved context of a thread in a system call is only touched by the worker that stores the
return value. -/
theorem kept_context {keeper later : Keeper} (valid : Valid state)
    (permitted : state.permitted event)
    (executed : state.execute event = .ok after) (keeps : state.keeps caller keeper)
    (kept : after.keeps caller later) :
    (after.threads caller).stashedContext = (state.threads caller).stashedContext ∨
      ∃ worker value shouldReturn, event = .thread worker
        (.storeReturn caller value shouldReturn) := by
  have ⟨stopped, _, _⟩ := valid.kept_away keeps
  have ⟨rests, _, _⟩ := ((valid.execute permitted).value executed).kept_away kept
  cases event with
  | tick =>
    obtain rfl := Except.ok.inj executed
    refine Or.inl ?_
    unfold State.isrSystick
    split <;> rfl
  | pendSV => exact Or.inl (valid.switch_same permitted rfl executed stopped rests).context
  | thread thread step =>
    by_cases call : step = .svc
    · subst call
      exact Or.inl (valid.switch_same permitted rfl executed stopped rests).context
    · have ⟨_, running, may⟩ := permitted
      have apart : caller ≠ thread := fun same => stopped (same ▸ running)
      obtain same | rfl | ⟨value, shouldReturn, rfl⟩ :=
        valid.step_other permitted executed call apart (valid.kept_setUp keeps)
      · exact Or.inl same.context
      · have point : (state.threads thread).point = .defaultRelease caller := may.2.2
        have places := valid.kept_places keeps
        have counts := valid.keeps_counts keeps
        have doomed := @count_le_held state.threads _ _
          (State.active_born valid.sound running) .doomed caller
        have counted : 1 ≤ (state.threads thread).holds.count (.doomed, caller) :=
          List.one_le_count_iff.mpr (List.mem_append_left _ (by rw [point]; exact List.mem_singleton_self _))
        omega
      · exact Or.inr ⟨thread, value, shouldReturn, rfl⟩

/-- What is found in the closure of a destroyed thread was in its frames. -/
theorem closure_frame (valid : Valid state) {thread victim : ThreadId}
    (permitted : state.permitted (.thread thread (.clearDangling victim)))
    (inside : caller ∈ (state.threads victim).references) : state.keeps caller (.frame victim) := by
  have ⟨_, running, _, _, point⟩ := permitted
  have point : (state.threads thread).point = .defaultRelease victim := point
  have ended : (state.threads victim).point.ends = true :=
    State.released_ends valid.sound running point
  have childless := valid.childless (ProgramPoint.ends_excludes ended).2.2.1
  rw [Thread.references, childless] at inside
  have inside := (List.mem_append.mp inside).resolve_right List.not_mem_nil
  change (state.threads victim).point.carries = some caller
  cases reached : (state.threads victim).point with
  | dying captured | halted captured =>
    rw [reached] at inside
    exact Option.mem_toList.mp inside
  | dummyStart | dummyEnabled =>
    rw [reached] at inside
    exact absurd inside List.not_mem_nil
  | _ =>
    rw [reached] at ended
    cases ended

end Valid
end PicoOs.Kernel
