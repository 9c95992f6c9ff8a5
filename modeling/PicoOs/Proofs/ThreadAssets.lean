import PicoOs.Proofs.StepPoints

/-! Which steps change the page ranges of a thread or its privilege level. -/

namespace PicoOs.Kernel
open Library

namespace State
variable {state after middle : State} {thread other : ThreadId}

theorem update_assets {value : Thread}
    (threads : after.threads = Function.update state.threads thread value)
    (same : value.assets = (state.threads thread).assets) (other : ThreadId) :
    (after.threads other).assets = (state.threads other).assets := by
  rw [threads]
  exact update_field Thread.assets same

private theorem released_assets {mutex : MutexId} :
    ((state.released mutex).threads other).assets = (state.threads other).assets := by
  unfold released
  split
  · rfl
  · exact update_assets rfl (by rfl) other

theorem woken_assets : ((state.woken thread).threads other).assets =
    (state.threads other).assets := by
  unfold woken
  split
  · exact update_field Thread.assets rfl
  · rfl

end State

namespace Valid
variable {state after : State} {thread other : ThreadId} {step : ThreadStep}

theorem step_points (valid : Valid state) (permitted : state.permitted (.thread thread step))
    (executed : state.step thread step = .ok after) (own : step ≠ .svc) (differs : other ≠ thread) :
    (after.threads other).point = state.pointAfter thread step other := by
  by_cases unlocks : ∃ mutex, step = .unlock mutex
  · obtain ⟨mutex, rfl⟩ := unlocks
    rcases valid.step_beside permitted executed own differs with same | meddles
    · exact same.point
    · cases meddles
  · rcases (valid.step_effect permitted executed own (not_exists.mp unlocks)).others
      differs with ⟨elsewhere, same⟩ | touches
    · rw [same, State.pointAfter_elsewhere elsewhere]
    · generalize after.threads other = value at touches
      cases touches with
      | destroys | createsHandler | creates | setsUp => exact (if_pos rfl).symm
      | setsUpHandler _ stack context serves => exact (if_pos serves).symm
      | stores | unmasks => rfl

theorem target_ne (valid : Valid state) (permitted : state.permitted (.thread thread step))
    (executed : state.step thread step = .ok after) (own : step ≠ .svc) :
    state.target step ≠ some thread := by
  by_cases unlocks : ∃ mutex, step = .unlock mutex
  · obtain ⟨mutex, rfl⟩ := unlocks
    exact fun same => by cases same
  · exact (valid.step_effect permitted executed own (not_exists.mp unlocks)).target_ne

theorem step_assets (valid : Valid state) (permitted : state.permitted (.thread thread step))
    (executed : state.step thread step = .ok after) (own : step ≠ .svc) (other : ThreadId) :
    (after.threads other).assets = state.assetsAfter thread step other := by
  by_cases unlocks : ∃ mutex, step = .unlock mutex
  · obtain ⟨mutex, rfl⟩ := unlocks
    have dropped : ((state.dropped thread mutex).threads other).assets =
      (state.threads other).assets := State.update_assets rfl (by rfl) other
    obtain ⟨-, rfl⟩ | ⟨-, -, rfl⟩ | ⟨next, rest, -, -, -, rfl⟩ :=
      (State.unlock_yields valid.sound mutex permitted.2.2.2).value executed
    · exact dropped
    · exact State.released_assets.trans dropped
    · have inherited : ((((state.dropped thread mutex).released mutex).inherited mutex next rest).threads other).assets =
          (((state.dropped thread mutex).released mutex).threads other).assets := State.woken_assets
      exact inherited.trans (State.released_assets.trans dropped)
  · have effect := valid.step_effect permitted executed own (not_exists.mp unlocks)
    by_cases mine : other = thread
    · subst mine
      exact effect.alters.assets
    · rcases effect.others mine with ⟨elsewhere, same⟩ | touches
      · rw [same, State.assetsAfter_elsewhere elsewhere mine]
      · generalize after.threads other = value at touches
        cases touches with
        | destroys | createsHandler | creates | setsUp => exact (if_pos rfl).symm
        | setsUpHandler _ stack context serves => exact (if_pos serves).symm
        | stores | unmasks => rfl

/-- A step of a thread lets it run on, and only `hand_over_to_loaded_executable` leaves the
privileged mode. -/
theorem step_stays (valid : Valid state) (permitted : state.permitted (.thread thread step))
    (executed : state.step thread step = .ok after) (own : step ≠ .svc) :
    after.activeThread = state.activeThread ∧ after.control = if step = .handOver then 0b11 else state.control := by
  have ⟨settled, running, may⟩ := permitted
  have control (other : step ≠ .handOver) (same : after.control = state.control) :
      after.control = if step = .handOver then 0b11 else state.control := by rw [if_neg other, same]
  cases step with
  | svc => exact absurd rfl own
  | proceed => cases executed
  | handOver =>
    cases executed
    exact ⟨rfl, (if_pos rfl).symm⟩
  | compute | lockReturn | enable | finishDestroy | finish | mask | loadExecutable
  | constructHandler | construct | unmaskCaller =>
    cases executed
    exact ⟨rfl, control nofun rfl⟩
  | lock mutex =>
    obtain ⟨-, -, rfl⟩ | ⟨-, -, rfl⟩ | ⟨-, rfl⟩ :=
      (State.lock_yields mutex (State.active_alive valid.sound running)).value executed
    · exact ⟨rfl, control nofun rfl⟩
    · exact ⟨rfl, control nofun rfl⟩
    · exact ⟨rfl, control nofun rfl⟩
  | unlock mutex =>
    have released : ((state.dropped thread mutex).released mutex).control = state.control := by
      unfold State.released
      split
      · rfl
      · rfl
    obtain ⟨-, rfl⟩ | ⟨-, -, rfl⟩ | ⟨next, rest, -, -, -, rfl⟩ :=
      (State.unlock_yields valid.sound mutex may.2).value executed
    · exact ⟨rfl, control nofun rfl⟩
    · exact ⟨State.released_active mutex, control nofun released⟩
    · have woken : (((state.dropped thread mutex).released mutex).inherited mutex next rest).control =
          ((state.dropped thread mutex).released mutex).control := by
        unfold State.inherited State.woken
        split
        · rfl
        · rfl
      exact ⟨State.woken_active.trans (State.released_active mutex),
        control nofun (woken.trans released)⟩
  | trigger =>
    obtain rfl := State.trigger_yields.value executed
    exact ⟨rfl, control nofun rfl⟩
  | pollDangling =>
    obtain ⟨-, rfl⟩ | ⟨victim, rest, -, rfl⟩ := State.pollDangling_yields.value executed
    · exact ⟨rfl, control nofun rfl⟩
    · exact ⟨rfl, control nofun rfl⟩
  | clearDangling victim =>
    obtain rfl := State.clearDangling_yields.value executed
    exact ⟨rfl, control nofun rfl⟩
  | setupHandler stack context =>
    obtain ⟨handler, -, rfl⟩ := State.setupHandler_yields.value executed
    exact ⟨rfl, control nofun rfl⟩
  | setup child stack context =>
    obtain rfl := State.setup_yields.value executed
    exact ⟨rfl, control nofun rfl⟩
  | enqueueChild | requeueCaller =>
    obtain rfl := State.addThread_yields.value executed
    exact ⟨rfl, control nofun rfl⟩
  | checkWaiting =>
    obtain ⟨-, rfl⟩ | ⟨-, rfl⟩ := State.checkWaiting_yields.value executed
    · exact ⟨rfl, control nofun rfl⟩
    · exact ⟨rfl, control nofun rfl⟩
  | takeWaiting =>
    obtain ⟨caller, rest, -, rfl⟩ := State.takeWaiting_yields.value executed
    exact ⟨rfl, control nofun rfl⟩
  | readContext caller =>
    obtain rfl := State.readContext_yields.value executed
    exact ⟨rfl, control nofun rfl⟩
  | finishCall caller value =>
    obtain ⟨context, -, rfl⟩ := State.finishCall_yields.value executed
    exact ⟨rfl, control nofun rfl⟩
  | storeReturn caller value shouldReturn =>
    obtain ⟨context, -, rfl⟩ := State.storeReturn_yields.value executed
    exact ⟨rfl, control nofun rfl⟩
  | finishExit caller =>
    obtain rfl := State.finishExit_yields.value executed
    exact ⟨rfl, control nofun rfl⟩

end Valid

namespace State
variable {state entry after : State} {other : ThreadId}

private theorem putAway_assets :
    (entry.putAway.threads other).assets = (entry.threads other).assets := by
  unfold putAway saved
  split
  · rfl
  · split
    · split
      · exact update_assets rfl (by rfl) other
      · rfl
    · split
      · exact update_assets rfl (by rfl) other
      · rfl

private theorem dummy_waits (sound : entry.Sound) : dummyThread ∉ entry.queuedThreads := by
  intro queued
  have quiet := ((sound dummyThread).quiet (Or.inr rfl)).1
  have counted : 1 ≤ (entry.view dummyThread).queued := List.one_le_count_iff.mpr queued
  simp only [View.ready] at quiet
  omega

private theorem resumed_assets {chosen : ThreadId} {registers : FullRegisterContext} :
    ((state.resumed chosen registers).threads other).assets = (state.threads other).assets :=
  update_assets rfl (by rfl) other

end State

namespace Valid
variable {state after : State} {event : SystemEvent}

/-- A switch leaves all threads what they have, and enters the mode of the thread that it
chooses. -/
theorem switch_assets (valid : Valid state) (permitted : state.permitted event)
    (schedules : event.schedules = true)
    (executed : state.execute event = .ok after) :
    (∀ other, (after.threads other).assets = (state.threads other).assets) ∧
    ∃ chosen, after.activeThread = some chosen ∧ chosen ≠ dummyThread ∧
      after.control = if (state.threads chosen).privileged then 0b10 else 0b11 := by
  obtain ⟨entry, entered, sound, dispatched⟩ := valid.dispatches permitted schedules executed
  have before (other : ThreadId) : (entry.threads other).assets = (state.threads other).assets := by
    cases entered with
    | pendSV active running same =>
      rw [same]
      exact State.update_assets rfl (by rfl) other
    | svc thread handler running suspended =>
      rw [suspended.same]
      exact State.woken_assets.trans (State.update_assets rfl (by rfl) other)
  have away (other : ThreadId) : (entry.putAway.threads other).assets =
    (state.threads other).assets :=
    State.putAway_assets.trans (before other)
  obtain ⟨registers, rests, rfl⟩ | ⟨chosen, rest, registers, settled, queue, rfl⟩ := dispatched
  · have idled (other : ThreadId) : (entry.putAway.idled.threads other).assets =
      (entry.putAway.threads other).assets :=
      State.update_assets rfl (by rfl) other
    refine ⟨fun other => State.resumed_assets.trans ((idled other).trans (away other)),
      entry.putAway.idleThread, rfl, ?_, ?_⟩
    · unfold State.idleThread
      split
      · decide
      · decide
    · have level : (entry.putAway.idled.threads entry.putAway.idleThread).privileged =
        (state.threads entry.putAway.idleThread).privileged :=
        congrArg Prod.snd ((idled entry.putAway.idleThread).trans (away entry.putAway.idleThread))
      have control : (entry.putAway.idled.resumed entry.putAway.idleThread registers).control =
        if (entry.putAway.idled.threads entry.putAway.idleThread).privileged then 0b10 else 0b11 :=
          rfl
      rw [control, level]
  · refine ⟨fun other => State.resumed_assets.trans (away other), chosen, rfl, ?_, ?_⟩
    · rintro rfl
      exact State.dummy_waits (State.putAway_sound sound) (by rw [queue]; exact List.mem_cons_self)
    · have level : (entry.putAway.threads chosen).privileged = (state.threads chosen).privileged :=
        congrArg Prod.snd (away chosen)
      rw [← level]
      rfl

end Valid

/-- What the destructor of a thread has still to give back. -/
def ProgramPoint.ranges : ProgramPoint → List PageRange
  | defaultDestroying ranges => ranges
  | _ => []

/-- The ranges of the thread, and those that it is about to give back. -/
def Thread.holdings (thread : Thread) : List PageRange :=
  thread.ownedPageRanges ++ thread.point.ranges

namespace Valid
variable {state : State} {thread : ThreadId} {step : ThreadStep}

/-- A process only computes and calls the kernel. -/
theorem step_user (valid : Valid state) (permitted : state.permitted (.thread thread step))
    (user : (state.threads thread).point = .userMode) :
    step = .svc ∨ ∃ registers, step = .compute registers := by
  obtain ⟨-, -, may⟩ := permitted
  have unlocked : ¬((state.threads thread).locks ≠ [] ∨ (state.threads thread).acquiring ≠ none) :=
    fun locks => by
    have allocates := (valid.sound thread).locks locks
    rw [State.view_thread, user] at allocates
    cases allocates
  have childless := @Valid.childless state thread valid (by rw [user]; rfl)
  cases step with
  | svc => exact .inl rfl
  | compute registers => exact .inr ⟨registers, rfl⟩
  | lock mutex =>
    have allocates := may.1
    rw [user] at allocates
    cases allocates
  | lockReturn mutex =>
      exact absurd (Or.inr (by rw [show (state.threads thread).acquiring = _ from may]; nofun)) unlocked
  | unlock mutex => exact absurd (Or.inl (List.ne_nil_of_mem may.1)) unlocked
  | enqueueChild child =>
    have reached : (state.threads thread).child = .prepared child := may.2.2
    cases childless.symm.trans reached
  | construct | setup | finishCall =>
    have reached := may.2.2.1
    rw [user] at reached
    cases reached
  | _ =>
    have reached := may.2.2
    simp only [Thread.reaches, user] at reached
    cases reached

/-- In the kernel, a thread only comes to points of the kernel. -/
theorem step_kernel (valid : Valid state) (permitted : state.permitted (.thread thread step))
    (own : step ≠ .svc)
    (stays : step ≠ .handOver) (kernel : (state.threads thread).point ≠ .userMode) :
    (state.lands thread step).setUp = true ∧ state.lands thread step ≠ .userMode := by
  obtain ⟨-, running, may⟩ := permitted
  have setUp : (state.threads thread).point.setUp = true :=
    (valid.sound thread).running (by simp [State.view, running])
  have held : (state.threads thread).point.setUp = true ∧
    (state.threads thread).point ≠ .userMode := ⟨setUp, kernel⟩
  cases step with
  | svc => exact absurd rfl own
  | handOver => exact absurd rfl stays
  | trigger | finish | setup | enqueueChild =>
    simp only [State.lands]
    generalize (state.threads thread).point = point at held
    cases point <;> first | exact held | exact ⟨rfl, fun same => by cases same⟩
  | pollDangling | takeWaiting | checkWaiting =>
    simp only [State.lands]
    split
    · exact held
    · exact ⟨rfl, fun same => by cases same⟩
  | clearDangling | finishDestroy | constructHandler | setupHandler | readContext | finishCall
  | storeReturn | finishExit | unmaskCaller
  | requeueCaller | mask | enable => exact ⟨rfl, fun same => by cases same⟩
  | _ => exact held

end Valid

/-- Only the destruction of a thread moves ranges between threads. -/
theorem State.lands_ranges {state : State} {thread : ThreadId} {step : ThreadStep}
    (permitted : state.permitted (.thread thread step)) (own : step ≠ .svc)
    (starts : ∀ victim, step ≠ .clearDangling victim) (ends : step ≠ .finishDestroy) :
    (state.lands thread step).ranges = (state.threads thread).point.ranges := by
  obtain ⟨-, -, may⟩ := permitted
  cases step with
  | svc => exact absurd rfl own
  | clearDangling victim => exact absurd rfl (starts victim)
  | finishDestroy => exact absurd rfl ends
  | trigger | finish | setup | enqueueChild =>
    simp only [State.lands]
    generalize (state.threads thread).point = point
    cases point <;> rfl
  | pollDangling | takeWaiting | checkWaiting =>
    have reached := may.2.2
    simp only [Thread.reaches] at reached
    simp only [State.lands]
    split
    · rfl
    · rw [reached]
      rfl
  | finishCall =>
    have reached := may.2.2.1
    rw [reached]
    rfl
  | enable | constructHandler | setupHandler | readContext | storeReturn | finishExit | unmaskCaller
  | requeueCaller | mask | handOver =>
    have reached := may.2.2
    simp only [Thread.reaches] at reached
    rw [reached]
    rfl
  | _ => rfl

end PicoOs.Kernel
