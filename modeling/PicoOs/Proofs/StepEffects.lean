import PicoOs.Proofs.MutexRuns

/-! What a step of a thread can do to the threads. It changes its own thread, and at most one other
one besides; only `unlock` and the supervisor call reach further. -/

namespace PicoOs.Kernel
open Library

/-- The point that the code of the thread comes to. -/
def State.lands (state : State) (thread : ThreadId) : ThreadStep → ProgramPoint
  | .enable => .dummyEnabled
  | .trigger => (state.threads thread).point.afterTrigger
  | .pollDangling =>
    match state.danglingThreads with
    | [] => (state.threads thread).point
    | victim :: _ => .defaultRelease victim
  | .clearDangling victim => .defaultDestroying (state.threads victim).ownedPageRanges
  | .finishDestroy => .defaultLoop
  | .constructHandler => .startupHandler
  | .setupHandler _ _ => .startupReady
  | .setup _ _ _ => (state.threads thread).point.afterSetup
  | .enqueueChild _ => (state.threads thread).point.afterEnqueue
  | .finish => (state.threads thread).point.afterFinish
  | .checkWaiting =>
      if state.waitingThreads = [] then (state.threads thread).point else .handlerTake
  | .takeWaiting =>
    match state.waitingThreads with
    | [] => (state.threads thread).point
    | caller :: _ => .handlerTaken caller
  | .readContext caller => .handlerContext caller
  | .finishCall caller value =>
    .workerReturn caller value ((state.threads caller).stashedContext.map FullRegisterContext.r0 ≠ some scExit)
  | .storeReturn caller _ shouldReturn => .workerStored caller shouldReturn
  | .finishExit caller => .returned (some caller)
  | .unmaskCaller caller => .workerUnmasked caller
  | .requeueCaller _ => .returned none
  | .mask captured => .dying captured
  | .handOver => .userMode
  | _ => (state.threads thread).point

def Thread.assets (thread : Thread) : List PageRange × Bool :=
  (thread.ownedPageRanges, thread.privileged)

def State.pointAfter (state : State) (thread : ThreadId) (step : ThreadStep) (other : ThreadId) :
    ProgramPoint :=
  let point := (state.threads other).point
  match step with
  | .clearDangling victim => if other = victim then .destroyed else point
  | .constructHandler | .construct => if other = state.next then .fresh else point
  | .setupHandler _ _ => if state.systemHandler = some other then .handlerLoop else point
  | .setup child _ _ => if other = child then (state.threads thread).point.entry else point
  | _ => point

/-- What a step of a thread leaves to this or another one. -/
def State.assetsAfter (state : State) (thread : ThreadId) (step : ThreadStep) (other : ThreadId) :
    List PageRange × Bool :=
  let value := state.threads other
  match step with
  | .clearDangling victim => if other = victim then ([], false) else value.assets
  | .constructHandler | .construct => if other = state.next then ([], true) else value.assets
  | .setupHandler stack _ =>
    if state.systemHandler = some other then (value.ownedPageRanges ++ [stack], value.privileged)
    else value.assets
  | .setup child stack _ =>
      if other = child then (value.ownedPageRanges ++ [stack], value.privileged) else value.assets
  | .loadExecutable range =>
      if other = thread then (value.ownedPageRanges ++ [range], value.privileged) else value.assets
  | .handOver => if other = thread then (value.ownedPageRanges, false) else value.assets
  | _ => value.assets

def ThreadStep.locking : ThreadStep → Bool
  | lock _ | lockReturn _ | unlock _ | svc => true
  | _ => false

def State.target (state : State) : ThreadStep → Option ThreadId
  | .clearDangling victim => some victim
  | .constructHandler | .construct => some state.next
  | .setupHandler _ _ => state.systemHandler
  | .setup child _ _ => some child
  | .storeReturn caller _ _ | .unmaskCaller caller => some caller
  | _ => none

/-- What a step makes of the other thread. -/
inductive State.Touches (state : State) (thread : ThreadId) :
    ThreadStep → ThreadId → Thread → Prop where
  | destroys (victim : ThreadId) (ended : (state.threads victim).point.ends = true) :
      Touches state thread (.clearDangling victim) victim { Thread.unborn with point := .destroyed }
  | createsHandler : Touches state thread .constructHandler state.next
      { Thread.construct with privileged := true, maskedFromScheduler := true }
  | creates : Touches state thread .construct state.next
      { Thread.construct with privileged := true }
  | setsUpHandler (handler : ThreadId) (stack : PageRange) (context : FullRegisterContext)
      (serves : state.systemHandler = some handler) :
      Touches state thread (.setupHandler stack context) handler
        (outfitted (state.threads handler) stack context .handlerLoop)
  | setsUp (child : ThreadId) (stack : PageRange) (context : FullRegisterContext) :
      Touches state thread (.setup child stack context) child
        (outfitted (state.threads child) stack context (state.threads thread).point.entry)
  | stores (caller : ThreadId) (value : UInt32) (shouldReturn : Bool)
      (context : FullRegisterContext) :
      Touches state thread (.storeReturn caller value shouldReturn) caller
        { state.threads caller with stashedContext := some { context with r0 := value } }
  | unmasks (caller : ThreadId) (user : (state.threads caller).point = .userMode) :
      Touches state thread (.unmaskCaller caller) caller
        { state.threads caller with maskedFromScheduler := false }

/-- What a step makes of its own thread. It masks itself only to wait for a mutex, to park as the
SystemHandler thread, or to die. -/
structure State.Alters (state : State) (thread : ThreadId) (step : ThreadStep)
    (value : Thread) : Prop where
  point : value.point = state.lands thread step
  assets : value.assets = state.assetsAfter thread step thread
  masked : value.maskedFromScheduler = (state.threads thread).maskedFromScheduler ∨
    (step.locking = true ∧ value.acquiring ≠ none) ∨
    (step = .checkWaiting ∧ state.waitingThreads = []) ∨ ∃ captured, step = .mask captured
  sections : step.locking = false →
    value.locks = (state.threads thread).locks ∧ value.acquiring = (state.threads thread).acquiring

/-- A step changes its own thread, and one other at most. -/
inductive StepEffect (state : State) (thread : ThreadId) (step : ThreadStep)
    (after : State) : Prop where
  | own (value : Thread) (alone : state.target step = none)
      (threads : after.threads = Function.update state.threads thread value)
      (alters : state.Alters thread step value)
  | both (target : ThreadId) (replaced value : Thread) (apart : target ≠ thread)
      (touches : state.Touches thread step target replaced)
      (threads : after.threads = Function.update (Function.update state.threads target replaced) thread value)
      (alters : state.Alters thread step value)

namespace State
variable {state after : State} {thread target : ThreadId} {step : ThreadStep}

private theorem modify_both (apart : target ≠ thread) (first second : Thread → Thread) :
    ((state.modify target first).modify thread second).threads = Function.update
      (Function.update state.threads target (first (state.threads target))) thread
        (second (state.threads thread)) := by
  simp only [modify, Function.update_of_ne apart.symm]

/-- A thread that runs through kernel code, but whose page ranges and privilege stay. -/
theorem Alters.plain {value : Thread} (point : value.point = state.lands thread step)
    (assets : value.assets = (state.threads thread).assets)
    (stay : state.assetsAfter thread step thread = (state.threads thread).assets)
    (masked : value.maskedFromScheduler = (state.threads thread).maskedFromScheduler)
    (locks : value.locks = (state.threads thread).locks)
    (acquiring : value.acquiring = (state.threads thread).acquiring) :
    state.Alters thread step value :=
  ⟨point, assets.trans stay.symm, .inl masked, fun _ => ⟨locks, acquiring⟩⟩

theorem Touches.targets {replaced : Thread} (touches : state.Touches thread step target replaced) :
    state.target step = some target := by
  cases touches with
  | setsUpHandler handler stack context serves => exact serves
  | _ => rfl

theorem assetsAfter_elsewhere {other : ThreadId} (elsewhere : state.target step ≠ some other)
    (differs : other ≠ thread) :
    state.assetsAfter thread step other = (state.threads other).assets := by
  have missed {target : ThreadId} (target_eq : state.target step = some target) : other ≠ target :=
    fun same => elsewhere (target_eq.trans (congrArg some same.symm))
  cases step with
  | clearDangling | constructHandler | construct | setup => exact if_neg (missed rfl)
  | setupHandler => exact if_neg elsewhere
  | loadExecutable | handOver => exact if_neg differs
  | _ => rfl

theorem assetsAfter_own (elsewhere : state.target step ≠ some thread) :
    ∃ more, (state.assetsAfter thread step thread).1 =
      (state.threads thread).ownedPageRanges ++ more := by
  have missed {target : ThreadId} (target_eq : state.target step = some target) : thread ≠ target :=
    fun same => elsewhere (target_eq.trans (congrArg some same.symm))
  have kept : (state.threads thread).ownedPageRanges = (state.threads thread).ownedPageRanges ++
    [] := (List.append_nil _).symm
  cases step with
  | clearDangling | constructHandler | construct
  | setup => exact ⟨[], (congrArg Prod.fst (if_neg (missed rfl))).trans kept⟩
  | setupHandler => exact ⟨[], (congrArg Prod.fst (if_neg elsewhere)).trans kept⟩
  | loadExecutable range => exact ⟨[range], congrArg Prod.fst (if_pos rfl)⟩
  | handOver => exact ⟨[], (congrArg Prod.fst (if_pos rfl)).trans kept⟩
  | _ => exact ⟨[], kept⟩

theorem assetsAfter_level {other : ThreadId} (elsewhere : state.target step ≠ some other)
    (stays : step ≠ .handOver) :
    (state.assetsAfter thread step other).2 = (state.threads other).privileged := by
  have missed {target : ThreadId} (target_eq : state.target step = some target) : other ≠ target :=
    fun same => elsewhere (target_eq.trans (congrArg some same.symm))
  cases step with
  | clearDangling | constructHandler | construct | setup =>
    exact congrArg Prod.snd (if_neg (missed rfl))
  | setupHandler => exact congrArg Prod.snd (if_neg elsewhere)
  | loadExecutable =>
    rw [assetsAfter]
    split <;> rfl
  | handOver => exact absurd rfl stays
  | _ => rfl

theorem pointAfter_elsewhere {other : ThreadId} (elsewhere : state.target step ≠ some other) :
    state.pointAfter thread step other = (state.threads other).point := by
  have missed {target : ThreadId} (target_eq : state.target step = some target) : other ≠ target :=
    fun same => elsewhere (target_eq.trans (congrArg some same.symm))
  cases step with
  | clearDangling | constructHandler | construct | setup => exact if_neg (missed rfl)
  | setupHandler => exact if_neg elsewhere
  | _ => rfl

end State

namespace StepEffect
variable {state after : State} {thread other : ThreadId} {step : ThreadStep}

theorem alters (effect : StepEffect state thread step after) :
    state.Alters thread step (after.threads thread) := by
  cases effect with
  | own value alone threads alters =>
    rw [threads, Function.update_self]
    exact alters
  | both target replaced value apart touches threads alters =>
    rw [threads, Function.update_self]
    exact alters

theorem target_ne (effect : StepEffect state thread step after) :
    state.target step ≠ some thread := by
  cases effect with
  | own value alone threads alters =>
      exact fun same => Option.some_ne_none thread (same.symm.trans alone)
  | both target replaced value apart touches threads alters =>
    exact fun same => apart (Option.some.inj (touches.targets.symm.trans same))

/-- Another thread is the one that the step is about, or it stays as it is. -/
theorem others (effect : StepEffect state thread step after) (differs : other ≠ thread) :
    (state.target step ≠ some other ∧ after.threads other = state.threads other) ∨
      state.Touches thread step other (after.threads other) := by
  cases effect with
  | own value alone threads alters =>
    rw [threads, Function.update_of_ne differs]
    exact .inl ⟨fun same => (Option.some_ne_none other) (same.symm.trans alone), rfl⟩
  | both target replaced value apart touches threads alters =>
    rw [threads, Function.update_of_ne differs]
    by_cases same : other = target
    · subst same
      rw [Function.update_self]
      exact .inr touches
    · rw [Function.update_of_ne same]
      exact .inl ⟨fun here => same (Option.some.inj (here.symm.trans touches.targets)), rfl⟩

end StepEffect

namespace Valid
variable {state after : State} {thread : ThreadId}

private theorem destroys_effect (valid : Valid state) (running : state.activeThread = some thread)
    {victim : ThreadId} (point : (state.threads thread).point = .defaultRelease victim)
    (executed : state.clearDangling thread victim = .ok after) :
    StepEffect state thread (.clearDangling victim) after := by
  obtain rfl := State.clearDangling_yields.value executed
  have ended := State.released_ends valid.sound running point
  have differs : victim ≠ thread := by
    intro same
    rw [same, point] at ended
    cases ended
  have threads : (state.destroyed thread victim).threads = _ := State.modify_both differs
    (fun _ => { Thread.unborn with point := .destroyed })
    (fun value => { value with point := .defaultDestroying (state.threads victim).ownedPageRanges })
  exact .both victim _ _ differs (.destroys victim ended) threads
    (.plain rfl rfl (if_neg differs.symm) rfl rfl rfl)

private theorem setsUpHandler_effect (valid : Valid state) {stack : PageRange}
    {context : FullRegisterContext} (point : (state.threads thread).point = .startupHandler)
    (executed : state.setupHandler thread stack context = .ok after) :
    StepEffect state thread (.setupHandler stack context) after := by
  obtain ⟨handler, serves, rfl⟩ := State.setupHandler_yields.value executed
  have starting := valid.order.starting thread (by rw [point]; rfl)
  obtain ⟨other, found, fresh⟩ := valid.order.fresh (starting ▸ point)
  obtain rfl : other = handler := Option.some.inj (found.symm.trans serves)
  have differs : other ≠ thread := by
    intro same
    rw [same, point] at fresh
    cases fresh
  have stays : state.assetsAfter thread (.setupHandler stack context) thread =
      (state.threads thread).assets :=
    if_neg fun same => differs (Option.some.inj (serves.symm.trans same))
  exact .both other _ _ differs (.setsUpHandler other stack context serves)
    (State.modify_both differs _ _) (.plain rfl rfl stays rfl rfl rfl)

private theorem setsUp_effect (valid : Valid state) (running : state.activeThread = some thread)
    {child : ThreadId} {stack : PageRange} {context : FullRegisterContext}
    (creates : (state.threads thread).point.creates = true)
    (carries : (state.threads thread).child = .fresh child)
    (executed : state.setup thread child stack context = .ok after) :
    StepEffect state thread (.setup child stack context) after := by
  obtain rfl := State.setup_yields.value executed
  have nascent := State.counted (State.active_born valid.sound running)
    (List.mem_append_right _ (by rw [carries]; exact List.mem_singleton_self _))
  have fresh := ((valid.sound child).nascent nascent).1
  have differs : child ≠ thread := by
    intro same
    rw [State.view_thread, same] at fresh
    rw [fresh] at creates
    cases creates
  exact .both child _ _ differs (.setsUp child stack context) (State.modify_both differs _ _)
    (.plain rfl rfl (if_neg differs.symm) rfl rfl rfl)

/-- The thread whose system call the worker finishes is parked, so that it is another one. -/
private theorem stores_effect (valid : Valid state) (running : state.activeThread = some thread)
    {caller : ThreadId} {value : UInt32} {shouldReturn : Bool}
    (point : (state.threads thread).point = .workerReturn caller value shouldReturn)
    (executed : state.storeReturn thread caller value shouldReturn = .ok after) :
    StepEffect state thread (.storeReturn caller value shouldReturn) after := by
  obtain ⟨context, -, rfl⟩ := State.storeReturn_yields.value executed
  have parked := @Valid.parked state thread valid running caller
    (by rw [point]; exact List.mem_singleton_self _)
  exact .both caller _ _ parked.differs (.stores caller value shouldReturn context)
    (State.modify_both parked.differs _ _) (.plain rfl rfl rfl rfl rfl rfl)

/-- All that a step can do, except for `unlock` and the supervisor call. -/
theorem step_effect (valid : Valid state) {step : ThreadStep}
    (permitted : state.permitted (.thread thread step))
    (executed : state.step thread step = .ok after) (own : step ≠ .svc)
    (keeps : ∀ mutex, step ≠ .unlock mutex) : StepEffect state thread step after := by
  obtain ⟨settled, running, may⟩ := permitted
  have apart : state.next ≠ thread := Nat.ne_of_gt (State.active_born valid.sound running)
  cases step with
  | svc => exact absurd rfl own
  | unlock mutex => exact absurd rfl (keeps mutex)
  | proceed => cases executed
  | compute registers =>
    cases executed
    exact .own _ rfl (Function.update_eq_self _ _).symm (.plain rfl rfl rfl rfl rfl rfl)
  | enable | finishDestroy | finish =>
    cases executed
    exact .own _ rfl rfl (.plain rfl rfl rfl rfl rfl rfl)
  | lockReturn mutex =>
    cases executed
    exact .own _ rfl rfl ⟨rfl, rfl, .inl rfl, fun quiet => by cases quiet⟩
  | mask captured =>
    cases executed
    exact .own _ rfl rfl ⟨rfl, rfl, .inr (.inr (.inr ⟨captured, rfl⟩)), fun _ => ⟨rfl, rfl⟩⟩
  | loadExecutable range =>
    cases executed
    exact .own _ rfl rfl ⟨rfl, (if_pos rfl).symm, .inl rfl, fun _ => ⟨rfl, rfl⟩⟩
  | handOver =>
    cases executed
    exact .own _ rfl rfl ⟨rfl, (if_pos rfl).symm, .inl rfl, fun _ => ⟨rfl, rfl⟩⟩
  | lock mutex =>
    obtain ⟨-, -, rfl⟩ | ⟨-, -, rfl⟩ | ⟨-, rfl⟩ :=
      (State.lock_yields mutex (State.active_alive valid.sound running)).value executed
    · exact .own _ rfl rfl ⟨rfl, rfl, .inl rfl, fun quiet => by cases quiet⟩
    · exact .own _ rfl rfl ⟨rfl, rfl,
        .inr (.inl ⟨rfl, fun free => by cases free⟩), fun quiet => by cases quiet⟩
    · exact .own _ rfl rfl ⟨rfl, rfl, .inl rfl, fun quiet => by cases quiet⟩
  | trigger =>
    obtain rfl := State.trigger_yields.value executed
    exact .own _ rfl rfl (.plain rfl rfl rfl rfl rfl rfl)
  | pollDangling =>
    obtain ⟨empty, rfl⟩ | ⟨victim, rest, queue, rfl⟩ := State.pollDangling_yields.value executed
    · have stays : state.lands thread .pollDangling = (state.threads thread).point := by
        rw [State.lands, empty]
      exact .own _ rfl (Function.update_eq_self _ _).symm (.plain stays.symm rfl rfl rfl rfl rfl)
    · have moves : state.lands thread .pollDangling = .defaultRelease victim := by
        rw [State.lands, queue]
      exact .own _ rfl rfl (.plain moves.symm rfl rfl rfl rfl rfl)
  | enqueueChild child =>
    obtain rfl := State.addThread_yields.value executed
    exact .own _ rfl rfl (.plain rfl rfl rfl rfl rfl rfl)
  | requeueCaller caller =>
    obtain rfl := State.addThread_yields.value executed
    exact .own _ rfl rfl (.plain rfl rfl rfl rfl rfl rfl)
  | checkWaiting =>
    obtain ⟨empty, rfl⟩ | ⟨waiting, rfl⟩ := State.checkWaiting_yields.value executed
    · exact .own _ rfl rfl ⟨(if_pos empty).symm, rfl, .inr (.inr (.inl ⟨rfl, empty⟩)),
        fun _ => ⟨rfl, rfl⟩⟩
    · exact .own _ rfl rfl (.plain (if_neg waiting).symm rfl rfl rfl rfl rfl)
  | takeWaiting =>
    obtain ⟨caller, rest, queue, rfl⟩ := State.takeWaiting_yields.value executed
    have moves : state.lands thread .takeWaiting = .handlerTaken caller := by
      rw [State.lands, queue]
    exact .own _ rfl rfl (.plain moves.symm rfl rfl rfl rfl rfl)
  | readContext caller =>
    obtain rfl := State.readContext_yields.value executed
    exact .own _ rfl rfl (.plain rfl rfl rfl rfl rfl rfl)
  | finishCall caller value =>
    obtain ⟨context, saved, rfl⟩ := State.finishCall_yields.value executed
    have moves : state.lands thread (.finishCall caller value) =
      .workerReturn caller value (context.r0 ≠ scExit) := by
      simp [State.lands, saved]
    exact .own _ rfl rfl (.plain moves.symm rfl rfl rfl rfl rfl)
  | finishExit caller =>
    obtain rfl := State.finishExit_yields.value executed
    exact .own _ rfl rfl (.plain rfl rfl rfl rfl rfl rfl)
  | clearDangling victim => exact valid.destroys_effect running may.2.2 executed
  | constructHandler =>
    cases executed
    exact .both state.next _ _ apart .createsHandler (Function.update_comm apart.symm _ _ _)
      (.plain rfl rfl (if_neg apart.symm) rfl rfl rfl)
  | construct =>
    cases executed
    exact .both state.next _ _ apart .creates (Function.update_comm apart.symm _ _ _)
      (.plain rfl rfl (if_neg apart.symm) rfl rfl rfl)
  | setupHandler stack context => exact valid.setsUpHandler_effect may.2.2 executed
  | setup child stack context => exact valid.setsUp_effect running may.2.2.1 may.2.2.2 executed
  | storeReturn caller value shouldReturn => exact valid.stores_effect running may.2.2 executed
  | unmaskCaller caller =>
    cases executed
    have point : (state.threads thread).point = .workerStored caller true := may.2.2
    have parked := @Valid.parked state thread valid running caller
      (by rw [point]; exact List.mem_singleton_self _)
    exact .both caller _ _ parked.differs (.unmasks caller parked.user)
      (State.modify_both parked.differs _ _)
      (.plain rfl rfl rfl rfl rfl rfl)

end Valid

end PicoOs.Kernel
