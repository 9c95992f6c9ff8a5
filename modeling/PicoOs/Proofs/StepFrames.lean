import PicoOs.Proofs.SwitchFrames

/-! What the steps of the threads leave alone. -/

namespace PicoOs.Kernel
open Library

def ThreadStep.moves : ThreadStep → Bool
  | lock _ | unlock _ | enable | pollDangling | clearDangling _ | takeWaiting | enqueueChild _
  | requeueCaller _ | svc
  | constructHandler => true
  | _ => false

structure Kept (before after : State) : Prop where
  active : after.activeThread = before.activeThread
  queued : after.queuedThreads = before.queuedThreads
  dangling : after.danglingThreads = before.danglingThreads
  waiting : after.waitingThreads = before.waitingThreads
  mutexes : after.mutexes = before.mutexes
  leaked : after.leaked = before.leaked
  handler : after.systemHandler = before.systemHandler

namespace State
variable {state after : State} {thread : ThreadId}

theorem woken_queued : (state.woken thread).queuedThreads =
    if (state.threads thread).maskedFromScheduler then state.queuedThreads ++ [thread] else state.queuedThreads := by
  unfold woken
  split <;> rfl

theorem woken_member {other : ThreadId} (queued : other ∈ (state.woken thread).queuedThreads) :
    other ∈ state.queuedThreads ∨ other = thread ∧
    (state.threads thread).maskedFromScheduler = true := by
  rw [woken_queued] at queued
  split at queued
  · exact (List.mem_append.mp queued).imp id fun last => ⟨List.mem_singleton.mp last, ‹_›⟩
  · exact Or.inl queued

theorem released_queued {mutex : MutexId} :
    (state.released mutex).queuedThreads = state.queuedThreads := by
  unfold released
  split <;> rfl

private theorem trigger_kept : Yields (· ≠ .queueFull) state.trigger (Kept state) := by
  unfold trigger
  split
  · exact Yields.ok ⟨rfl, rfl, rfl, rfl, rfl, rfl, rfl⟩
  · exact Yields.error nofun

theorem step_kept {step : ThreadStep} (stays : step.moves = false) :
    Yields (· ≠ .queueFull) (state.step thread step) (Kept state) := by
  cases step with
  | lock | unlock | enable | pollDangling | clearDangling | takeWaiting | enqueueChild
  | requeueCaller | svc
  | constructHandler => cases stays
  | proceed => exact Yields.error nofun
  | compute | lockReturn | finishDestroy | construct | finish | unmaskCaller | mask | loadExecutable
  | handOver => exact Yields.ok ⟨rfl, rfl, rfl, rfl, rfl, rfl, rfl⟩
  | trigger =>
    exact trigger_kept.mono fun after kept =>
      ⟨kept.active, kept.queued, kept.dangling, kept.waiting, kept.mutexes,
        kept.leaked, kept.handler⟩
  | setupHandler stack context =>
    unfold step setupHandler Thread.setupContext
    dsimp only
    split
    · exact Yields.error nofun
    · split
      · exact Yields.error nofun
      · exact Yields.ok ⟨rfl, rfl, rfl, rfl, rfl, rfl, rfl⟩
  | setup child stack context =>
    unfold step setup Thread.setupContext
    dsimp only
    split
    · exact Yields.error nofun
    · exact Yields.ok ⟨rfl, rfl, rfl, rfl, rfl, rfl, rfl⟩
  | checkWaiting =>
    unfold step checkWaiting
    dsimp only
    split
    · exact trigger_kept.mono fun after kept =>
        ⟨kept.active, kept.queued, kept.dangling, kept.waiting, kept.mutexes,
          kept.leaked, kept.handler⟩
    · exact Yields.ok ⟨rfl, rfl, rfl, rfl, rfl, rfl, rfl⟩
  | readContext caller =>
    unfold step readContext
    dsimp only
    split
    · exact Yields.ok ⟨rfl, rfl, rfl, rfl, rfl, rfl, rfl⟩
    · exact Yields.error nofun
  | finishCall caller value =>
    unfold step finishCall
    dsimp only
    split
    · exact Yields.error nofun
    · exact Yields.ok ⟨rfl, rfl, rfl, rfl, rfl, rfl, rfl⟩
  | storeReturn caller value shouldReturn =>
    unfold step storeReturn
    dsimp only
    split
    · exact Yields.error nofun
    · exact Yields.ok ⟨rfl, rfl, rfl, rfl, rfl, rfl, rfl⟩
  | finishExit caller =>
    unfold step finishExit
    dsimp only
    split
    · exact Yields.ok ⟨rfl, rfl, rfl, rfl, rfl, rfl, rfl⟩
    · exact Yields.error nofun

theorem addThread_yields : Yields (fun _ => True) (state.addThread thread)
    (· = { state with queuedThreads := state.queuedThreads ++ [thread] }) := by
  rw [addThread_eq]
  split
  · exact Yields.error trivial
  · exact Yields.ok rfl

theorem pollDangling_yields : Yields (· ≠ .queueFull) (state.pollDangling thread) fun after =>
    (state.danglingThreads = [] ∧ after = { state with pendSV := true }) ∨
      ∃ victim rest, state.danglingThreads = victim :: rest ∧
        after = { state.setPoint thread (.defaultRelease victim) with danglingThreads := rest } := by
  unfold pollDangling trigger
  split
  next settled =>
    split
    · exact Yields.ok (Or.inl ⟨settled, rfl⟩)
    · exact Yields.error nofun
  next victim rest queue => exact Yields.ok (Or.inr ⟨victim, rest, queue, rfl⟩)

theorem clearDangling_yields {victim : ThreadId} :
    Yields (· ≠ .queueFull) (state.clearDangling thread victim) (· =
      state.destroyed thread victim) := by
  unfold clearDangling
  dsimp only
  split
  · exact Yields.ok rfl
  · exact Yields.error nofun

theorem takeWaiting_yields : Yields (· ≠ .queueFull) (state.takeWaiting thread) fun after =>
    ∃ caller rest, state.waitingThreads = caller :: rest ∧
      after = { state.setPoint thread (.handlerTaken caller) with waitingThreads := rest } := by
  unfold takeWaiting
  split
  · exact Yields.error nofun
  next caller rest queue => exact Yields.ok ⟨caller, rest, queue, rfl⟩

theorem checkWaiting_yields : Yields (fun _ => True) (state.checkWaiting thread) fun after =>
    (state.waitingThreads = [] ∧ after =
      { state.modify thread fun value => { value with maskedFromScheduler := true } with pendSV := true }) ∨
      (state.waitingThreads ≠ [] ∧ after = state.setPoint thread .handlerTake) := by
  unfold checkWaiting
  split
  next empty => exact trigger_yields.any.mono fun _ same => Or.inl ⟨empty, same⟩
  next waiting => exact Yields.ok (Or.inr ⟨waiting, rfl⟩)

theorem readContext_yields {caller : ThreadId} :
    Yields (fun _ => True) (state.readContext thread caller)
    (· = state.setPoint thread (.handlerContext caller)) := by
  unfold readContext
  split
  · exact Yields.ok rfl
  · exact Yields.error trivial

theorem finishCall_yields {caller : ThreadId} {value : UInt32} :
    Yields (fun _ => True) (state.finishCall thread caller value)
    fun after => ∃ context, (state.threads caller).stashedContext = some context ∧
      after = state.setPoint thread (.workerReturn caller value (context.r0 ≠ scExit)) := by
  unfold finishCall
  split
  · exact Yields.error trivial
  next context saved => exact Yields.ok ⟨context, saved, rfl⟩

theorem storeReturn_yields {caller : ThreadId} {value : UInt32} {shouldReturn : Bool} :
    Yields (fun _ => True) (state.storeReturn thread caller value shouldReturn) fun after =>
      ∃ context, (state.threads caller).stashedContext = some context ∧
        after = (state.modify caller fun thread => { thread with stashedContext := some { context with r0 := value } }).setPoint
          thread (.workerStored caller shouldReturn) := by
  unfold storeReturn
  split
  · exact Yields.error trivial
  next context saved => exact Yields.ok ⟨context, saved, rfl⟩

theorem finishExit_yields {caller : ThreadId} :
    Yields (fun _ => True) (state.finishExit thread caller)
    (· = state.setPoint thread (.returned (some caller))) := by
  unfold finishExit
  split
  · exact Yields.ok rfl
  · exact Yields.error trivial

def outfitted (value : Thread) (stack : PageRange) (context : FullRegisterContext)
    (entry : ProgramPoint) : Thread :=
  { value with ownedPageRanges := value.ownedPageRanges ++ [stack], stashedContext := some context, point := entry }

theorem setup_yields {child : ThreadId} {stack : PageRange} {context : FullRegisterContext} :
    Yields (fun _ => True) (state.setup thread child stack context) fun after =>
      after = (state.modify child fun _ => outfitted (state.threads child) stack context
        (state.threads thread).point.entry).modify thread fun value =>
          { value with point := (state.threads thread).point.afterSetup, child := .prepared child } := by
  unfold setup Thread.setupContext
  dsimp only
  split
  · exact Yields.error trivial
  · exact Yields.ok rfl

theorem setupHandler_yields {stack : PageRange} {context : FullRegisterContext} :
    Yields (fun _ => True) (state.setupHandler thread stack context) fun after =>
      ∃ handler, state.systemHandler = some handler ∧
        after = (state.modify handler fun _ => outfitted (state.threads handler) stack context .handlerLoop).setPoint thread
          .startupReady := by
  unfold setupHandler Thread.setupContext
  split
  · exact Yields.error trivial
  next handler serves =>
    split
    · exact Yields.error trivial
    · exact Yields.ok ⟨handler, serves, rfl⟩

end State
end PicoOs.Kernel
