import PicoOs.Proofs.Callers

/-! The system call protocol: the life of every call, as the history of a run tells it,
is what the state of the thread system shows. -/

namespace PicoOs.Kernel
open Library

inductive CallPhase where
  | user
  | waiting (context : FullRegisterContext)
  | taken (context : FullRegisterContext)
  | working (worker : ThreadId) (context : FullRegisterContext)
  | returned (worker : ThreadId) (context : FullRegisterContext) (value : UInt32)
  | stored (worker : ThreadId) (context : FullRegisterContext) (value : UInt32)
  | exited

/-- The events in the life of the system calls of a thread: the supervisor call, the dequeueing, the
set up of a worker, the end of the call proper, the store of its result, and the requeueing. -/
def State.concerns (state : State) (thread : ThreadId) : SystemEvent → Prop
  | .thread caller .svc | .thread _ (.finishCall caller _) | .thread _ (.storeReturn caller _ _)
  | .thread _ (.requeueCaller caller) => caller = thread
  | .thread _ .takeWaiting => state.waitingThreads.head? = some thread
  | .thread handler (.setup _ _ _) => (state.threads handler).point = .handlerContext thread
  | _ => False

instance (state : State) (thread : ThreadId) (event : SystemEvent) :
    Decidable (state.concerns thread event) := by
  refine @SystemEvent.casesOn (fun event => Decidable (state.concerns thread event)) event
    instDecidableFalse instDecidableFalse fun worker step => ?_
  apply @ThreadStep.casesOn (fun step => Decidable (state.concerns thread (.thread worker step)))
    step <;> intros <;> first
    | exact instDecidableFalse
    | exact inferInstanceAs (Decidable (_ = _))

/-- The only order in which they may come. -/
def State.advances (state : State) : SystemEvent → CallPhase → Option CallPhase
  | .thread _ .svc, .user => some (.waiting state.registers)
  | .thread _ .takeWaiting, .waiting context => some (.taken context)
  | .thread _ (.setup worker _ _), .taken context => some (.working worker context)
  | .thread thread (.finishCall _ value), .working worker context =>
    if thread = worker then some (.returned worker context value) else none
  | .thread thread (.storeReturn _ result _), .returned worker context value =>
    if thread = worker ∧ result = value then
      some (if context.r0 = scExit then .exited else .stored worker context value)
    else none
  | .thread thread (.requeueCaller _), .stored worker _ _ =>
      if thread = worker then some .user else none
  | _, _ => none

def CallPhase.after (thread : ThreadId) (state : State) (event : SystemEvent) (phase : CallPhase) :
    Option CallPhase :=
  if state.concerns thread event then state.advances event phase else some phase

/-- The phase of a thread after a history, unless that leaves the protocol. -/
def callPhase (thread : ThreadId) (history : List (State × SystemEvent)) : Option CallPhase :=
  history.foldl (fun phase (state,
    event) => phase.bind (CallPhase.after thread state event)) (some .user)

def ProgramPoint.leaves (thread : ThreadId) : ProgramPoint → Prop
  | workerStored caller false => caller = thread
  | returned captured | dying captured | halted captured => captured = some thread
  | _ => False

namespace CallPhase

def located (thread worker : ThreadId) (point : ProgramPoint) : CallPhase → Prop
  | taken _ => point = .handlerTaken thread ∨ point = .handlerContext thread
  | working assigned _ => assigned = worker ∧ point = .workerCall thread
  | returned assigned context value =>
    assigned = worker ∧ point = .workerReturn thread value (context.r0 ≠ scExit)
  | stored assigned context _ =>
    assigned = worker ∧ context.r0 ≠ scExit ∧
      (point = .workerStored thread true ∨ point = .workerUnmasked thread)
  | exited => point.leaves thread
  | _ => False

def keptBy (state : State) (thread : ThreadId) (phase : CallPhase) : Keeper → Prop
  | .queue => ∃ context, phase = .waiting context
  | .frame worker => phase.located thread worker (state.threads worker).point
  | .closure => phase = .exited

/-- The registers the caller goes on with, as far as they are known. -/
def saved : CallPhase → Option FullRegisterContext
  | waiting context | taken context | working _ context | returned _ context _ => some context
  | stored _ context value => some { context with r0 := value }
  | user | exited => none

structure Agrees (state : State) (thread : ThreadId) (phase : CallPhase) : Prop where
  kept : phase = .user ∨ ∃ keeper, state.keeps thread keeper
  placed : ∀ keeper, state.keeps thread keeper → phase.keptBy state thread keeper
  context : ∀ context, phase.saved = some context →
    (state.threads thread).stashedContext = some context

theorem Agrees.by_keeper {state : State} (valid : Valid state) {thread : ThreadId}
    {phase : CallPhase} {keeper : Keeper}
    (keeps : state.keeps thread keeper) (placed : phase.keptBy state thread keeper)
    (context : ∀ context, phase.saved = some context →
      (state.threads thread).stashedContext = some context) :
    phase.Agrees state thread :=
  ⟨Or.inr ⟨keeper, keeps⟩, fun _ also => valid.kept_once keeps also ▸ placed, context⟩

theorem Agrees.free {state : State} {thread : ThreadId}
    (gone : ∀ keeper, ¬state.keeps thread keeper) :
    user.Agrees state thread :=
  ⟨Or.inl rfl, fun keeper keeps => absurd keeps (gone keeper), nofun⟩

theorem located_carries {thread worker : ThreadId} {point : ProgramPoint} {phase : CallPhase}
    (located : phase.located thread worker point) : point.carries = some thread := by
  cases phase with
  | user | waiting => cases located
  | taken =>
    obtain rfl | rfl := located
    · rfl
    · rfl
  | working =>
    obtain ⟨-, rfl⟩ := located
    rfl
  | returned =>
    obtain ⟨-, rfl⟩ := located
    rfl
  | stored =>
    obtain ⟨-, -, rfl | rfl⟩ := located
    · rfl
    · rfl
  | exited =>
    cases point with
    | workerStored caller shouldReturn =>
      cases shouldReturn with
      | false => exact congrArg some located
      | true => cases located
    | returned captured | dying captured | halted captured => exact located
    | _ => cases located

theorem located_exited {thread worker : ThreadId} {point : ProgramPoint} {phase : CallPhase}
    (located : phase.located thread worker point)
    (ended : (∃ caller, point = .workerStored caller false) ∨
      (∃ captured, point = .returned captured) ∨
      ∃ captured, point = .dying captured) : phase = .exited := by
  have absent (same : point = .workerStored thread true) : False := by
    obtain ⟨caller, rfl⟩ | ⟨captured, rfl⟩ | ⟨captured, rfl⟩ := ended
    · cases same
    · cases same
    · cases same
  cases phase with
  | exited => rfl
  | user | waiting => cases located
  | taken =>
    obtain rfl | rfl := located
    · exact ended.elim nofun (Or.elim · nofun nofun)
    · exact ended.elim nofun (Or.elim · nofun nofun)
  | working =>
    obtain ⟨-, rfl⟩ := located
    exact ended.elim nofun (Or.elim · nofun nofun)
  | returned =>
    obtain ⟨-, rfl⟩ := located
    exact ended.elim nofun (Or.elim · nofun nofun)
  | stored =>
    obtain ⟨-, -, stores | rfl⟩ := located
    · exact (absent stores).elim
    · exact ended.elim nofun (Or.elim · nofun nofun)

/-- A step of the thread that works on a call either concerns the call or stays within its phase. -/
theorem located_step {state : State} {thread worker : ThreadId} {step : ThreadStep}
    {phase : CallPhase}
    (may : (state.threads worker).may step) (apart : ¬state.concerns thread (.thread worker step))
    (located : phase.located thread worker (state.threads worker).point) :
    phase.located thread worker (state.lands worker step) := by
  have carries := located_carries located
  have elsewhere {point : ProgramPoint} (reached : (state.threads worker).point = point)
    (free : point.carries = none) :
      False := by
    rw [reached, free] at carries
    cases carries
  cases step with
  | compute | lock | lockReturn | unlock | construct | loadExecutable | svc
  | proceed => exact located
  | enable | pollDangling | clearDangling | constructHandler | setupHandler | checkWaiting
  | takeWaiting | handOver =>
    exact (elsewhere may.2.2 rfl).elim
  | finishDestroy =>
    have destroying : (state.threads worker).point.isDestroying = true := may.2.2
    cases point : (state.threads worker).point with
    | defaultDestroying => exact (elsewhere point rfl).elim
    | _ =>
      rw [point] at destroying
      cases destroying
  | trigger =>
    have triggers : (state.threads worker).point.triggers = true := may.2.2
    dsimp only [State.lands]
    cases point : (state.threads worker).point with
    | dummyEnabled | fallbackLoop => exact (elsewhere point rfl).elim
    | dying captured =>
      rw [point] at located
      obtain rfl := located_exited located (Or.inr (Or.inr ⟨captured, rfl⟩))
      exact located
    | _ =>
      rw [point] at triggers
      cases triggers
  | setup child stack context =>
    dsimp only [State.lands]
    cases point : (state.threads worker).point with
    | handlerContext caller =>
      rw [point] at carries
      exact absurd (point.trans (congrArg ProgramPoint.handlerContext (Option.some.inj carries))) apart
    | _ =>
      rw [point] at located
      exact located
  | enqueueChild child =>
    dsimp only [State.lands]
    cases point : (state.threads worker).point with
    | startupReady | handlerSpawned => exact (elsewhere point rfl).elim
    | _ =>
      rw [point] at located
      exact located
  | finish =>
    have finishes : (state.threads worker).point.finishes = true := may.2.2
    cases point : (state.threads worker).point with
    | startupDone | handlerDone => exact (elsewhere point rfl).elim
    | _ =>
      rw [point] at finishes
      cases finishes
  | finishCall caller value =>
    have point : (state.threads worker).point = .workerCall caller := may.2.2.1
    rw [point] at carries
    exact absurd (Option.some.inj carries) apart
  | storeReturn caller value shouldReturn =>
    have point : (state.threads worker).point = .workerReturn caller value shouldReturn := may.2.2
    rw [point] at carries
    exact absurd (Option.some.inj carries) apart
  | requeueCaller caller =>
    have point : (state.threads worker).point = .workerUnmasked caller := may.2.2
    rw [point] at carries
    exact absurd (Option.some.inj carries) apart
  | readContext caller =>
    have point : (state.threads worker).point = .handlerTaken caller := may.2.2
    rw [point] at carries located
    obtain rfl : caller = thread := Option.some.inj carries
    cases phase with
    | taken => exact Or.inr rfl
    | user | waiting | exited => cases located
    | working => exact absurd located.2 nofun
    | returned => exact absurd located.2 nofun
    | stored => exact located.2.2.elim nofun nofun
  | finishExit caller =>
    have point : (state.threads worker).point = .workerStored caller false := may.2.2
    rw [point] at carries located
    obtain rfl : caller = thread := Option.some.inj carries
    obtain rfl := located_exited located (Or.inl ⟨caller, rfl⟩)
    rfl
  | unmaskCaller caller =>
    have point : (state.threads worker).point = .workerStored caller true := may.2.2
    rw [point] at carries located
    obtain rfl : caller = thread := Option.some.inj carries
    cases phase with
    | stored => exact ⟨located.1, located.2.1, Or.inr rfl⟩
    | user | waiting | exited => cases located
    | taken => exact located.elim nofun nofun
    | working => exact absurd located.2 nofun
    | returned => exact absurd located.2 nofun
  | mask captured =>
    have point : (state.threads worker).point = .returned captured := may.2.2
    rw [point] at located
    obtain rfl := located_exited located (Or.inr (Or.inl ⟨captured, rfl⟩))
    exact located

section Step
variable {state after : State} {thread : ThreadId} {event : SystemEvent} {phase : CallPhase}

private theorem located_ends {worker : ThreadId} {point : ProgramPoint}
    (located : phase.located thread worker point)
    (ended : point.ends = true) : phase = .exited := by
  cases point with
  | dying captured => exact located_exited located (Or.inr (Or.inr ⟨captured, rfl⟩))
  | halted captured =>
    cases phase with
    | exited => rfl
    | user | waiting => cases located
    | taken => exact located.elim nofun nofun
    | working => exact absurd located.2 nofun
    | returned => exact absurd located.2 nofun
    | stored => exact located.2.2.elim nofun nofun
  | dummyStart | dummyEnabled => cases located_carries located
  | _ => cases ended

/-- As long as no event concerns the call, whoever keeps the caller passes it on within the
phase. -/
theorem Agrees.passed (valid : Valid state) (permitted : state.permitted event)
    (executed : state.execute event = .ok after)
    (apart : ¬state.concerns thread event) (agrees : phase.Agrees state thread) {keeper : Keeper}
    (keeps : state.keeps thread keeper) :
    ∃ keeper, after.keeps thread keeper ∧ phase.keptBy after thread keeper := by
  have placed := agrees.placed keeper keeps
  cases keeper with
  | queue =>
    refine ⟨.queue, ?_, placed⟩
    change thread ∈ after.waitingThreads
    rw [valid.waiting_step permitted executed]
    unfold State.queues
    split
    · exact List.mem_append_left _ keeps
    · obtain ⟨front, rest, queue⟩ := List.exists_cons_of_ne_nil (List.ne_nil_of_mem keeps)
      rw [queue]
      have member : thread ∈ front :: rest := queue ▸ keeps
      refine (List.mem_cons.mp member).resolve_left fun first => apart ?_
      change state.waitingThreads.head? = some thread
      rw [queue, first]
      rfl
    · exact keeps
  | closure =>
    refine ⟨.closure, ?_, placed⟩
    change thread ∈ after.leaked
    rw [valid.leaked_step permitted executed]
    unfold State.closures
    split
    · exact List.mem_append_left _ keeps
    · exact keeps
  | frame worker =>
    by_cases own : ∃ step, step ≠ .svc ∧ event = .thread worker step
    · obtain ⟨step, call, rfl⟩ := own
      have lands := valid.step_lands permitted executed call
      have located := located_step permitted.2.2 apart placed
      refine ⟨.frame worker, ?_, ?_⟩
      · change (after.threads worker).point.carries = some thread
        rw [lands]
        exact located_carries located
      · change phase.located thread worker (after.threads worker).point
        rwa [lands]
    · obtain same | ⟨ended, leaked⟩ :=
        valid.carrier_kept permitted executed keeps fun step call same => own ⟨step, call, same⟩
      · refine ⟨.frame worker, ?_, ?_⟩
        · change (after.threads worker).point.carries = some thread
          rwa [same]
        · change phase.located thread worker (after.threads worker).point
          rwa [same]
      · exact ⟨.closure, leaked, located_ends placed ended⟩

/-- Nobody gets hold of a thread that is not in a system call, unless it makes one. -/
theorem Agrees.unkept (valid : Valid state) (permitted : state.permitted event)
    (executed : state.execute event = .ok after)
    (apart : ¬state.concerns thread event) (free : ∀ keeper, ¬state.keeps thread keeper)
    (keeper : Keeper) :
    ¬after.keeps thread keeper := by
  intro keeps
  cases keeper with
  | queue =>
    change thread ∈ after.waitingThreads at keeps
    rw [valid.waiting_step permitted executed] at keeps
    unfold State.queues at keeps
    split at keeps
    · obtain earlier | last := List.mem_append.mp keeps
      · exact free .queue earlier
      · exact apart (List.mem_singleton.mp last).symm
    · exact free .queue (List.mem_of_mem_tail keeps)
    · exact free .queue keeps
  | closure =>
    change thread ∈ after.leaked at keeps
    rw [valid.leaked_step permitted executed] at keeps
    unfold State.closures at keeps
    split at keeps
    · obtain earlier | new := List.mem_append.mp keeps
      · exact free .closure earlier
      · exact free (.frame _) (valid.closure_frame permitted new)
    · exact free .closure keeps
  | frame worker =>
    obtain earlier | ⟨-, first⟩ | ⟨handler, stack, context, rfl, point⟩ :=
      valid.carries_step permitted executed keeps
    · exact free (.frame worker) earlier
    · exact free .queue (List.mem_of_mem_head? first)
    · exact apart point

private theorem Agrees.stays (valid : Valid state) (permitted : state.permitted event)
    (executed : state.execute event = .ok after)
    (apart : ¬state.concerns thread event) (agrees : phase.Agrees state thread) :
    phase.Agrees after thread := by
  by_cases kept : ∃ keeper, state.keeps thread keeper
  · obtain ⟨keeper, keeps⟩ := kept
    obtain ⟨later, kept, placed⟩ := agrees.passed valid permitted executed apart keeps
    refine .by_keeper ((valid.execute permitted).value executed) kept placed fun context saved => ?_
    obtain same | ⟨worker, value, shouldReturn, rfl⟩ :=
      valid.kept_context permitted executed keeps kept
    · exact same.trans (agrees.context context saved)
    · exact absurd rfl apart
  · have free : ∀ keeper, ¬state.keeps thread keeper := fun keeper keeps => kept ⟨keeper, keeps⟩
    obtain rfl := agrees.kept.resolve_right kept
    exact .free (Agrees.unkept valid permitted executed apart free)

private theorem svc_context (valid : Valid state)
    (permitted : state.permitted (.thread thread .svc))
    (executed : state.execute (.thread thread .svc) = .ok after)
    (rests : after.activeThread ≠ some thread) :
    (after.threads thread).stashedContext = some state.registers := by
  obtain ⟨entry, entered, _, dispatched⟩ := valid.dispatches permitted rfl executed
  rw [(dispatched.same rests).context]
  cases entered with
  | svc _ handler running suspended =>
    have parked : ((state.suspended thread).threads thread).stashedContext =
      some state.registers := by
      simp [State.suspended]
    rw [suspended.same, State.woken_same.context]
    exact parked

private theorem Agrees.called (valid : Valid state)
    (permitted : state.permitted (.thread thread .svc))
    (executed : state.execute (.thread thread .svc) = .ok after)
    (agrees : phase.Agrees state thread) :
    phase = .user ∧ (waiting state.registers).Agrees after thread := by
  have later := (valid.execute permitted).value executed
  have free : ¬∃ keeper, state.keeps thread keeper :=
    fun ⟨keeper, keeps⟩ => (valid.kept_away keeps).1 permitted.2.1
  have keeps : after.keeps thread .queue := by
    change thread ∈ after.waitingThreads
    rw [valid.waiting_step permitted executed]
    exact List.mem_append_right _ (List.mem_singleton_self _)
  refine ⟨agrees.kept.resolve_right free, .by_keeper later keeps ⟨_, rfl⟩ fun context saved => ?_⟩
  obtain rfl := Option.some.inj saved
  exact svc_context valid permitted executed (later.kept_away keeps).1

private theorem Agrees.taking {taker : ThreadId} (valid : Valid state)
    (permitted : state.permitted (.thread taker .takeWaiting))
    (executed : state.execute (.thread taker .takeWaiting) = .ok after)
    (first : state.waitingThreads.head? = some thread)
    (agrees : phase.Agrees state thread) :
    ∃ context, phase = .waiting context ∧ (taken context).Agrees after thread := by
  have later := (valid.execute permitted).value executed
  have keeps : state.keeps thread .queue := List.mem_of_mem_head? first
  obtain ⟨context, rfl⟩ := agrees.placed .queue keeps
  have point : (after.threads taker).point = .handlerTaken thread := by
    rw [valid.step_lands permitted executed nofun]
    obtain ⟨rest, queue⟩ := List.head?_eq_some_iff.mp first
    dsimp only [State.lands]
    rw [queue]
  have kept : after.keeps thread (.frame taker) := congrArg ProgramPoint.carries point
  refine ⟨context, rfl, .by_keeper later kept (Or.inl point) fun context saved => ?_⟩
  obtain same | ⟨worker, value, shouldReturn, same⟩ :=
    valid.kept_context permitted executed keeps kept
  · exact same.trans (agrees.context context saved)
  · cases same

private theorem Agrees.assigned {handler worker : ThreadId} {stack : PageRange}
    {entry : FullRegisterContext} (valid : Valid state)
    (permitted : state.permitted (.thread handler (.setup worker stack entry)))
    (executed : state.execute (.thread handler (.setup worker stack entry)) = .ok after)
    (point : (state.threads handler).point = .handlerContext thread)
    (agrees : phase.Agrees state thread) :
    ∃ context, phase = .taken context ∧ (working worker context).Agrees after thread := by
  have later := (valid.execute permitted).value executed
  have ⟨_, running, _, _, _, fresh⟩ := permitted
  have fresh : (state.threads handler).child = .fresh worker := fresh
  have keeps : state.keeps thread (.frame handler) := congrArg ProgramPoint.carries point
  have placed := agrees.placed (.frame handler) keeps
  change phase.located thread handler (state.threads handler).point at placed
  rw [point] at placed
  have started : (after.threads worker).point = .workerCall thread := by
    obtain rfl := State.setup_yields.value executed
    have nascent := State.counted (State.active_born valid.sound running)
      (List.mem_append_right _ (by rw [fresh]; exact List.mem_singleton_self _))
    have young : (state.threads worker).point = .fresh := ((valid.sound worker).nascent nascent).1
    have apart : worker ≠ handler := by
      intro same
      rw [same, point] at young
      cases young
    rw [State.modify_of_ne _ apart, State.modify_self, point]
    rfl
  cases phase with
  | taken context =>
    have kept : after.keeps thread (.frame worker) := congrArg ProgramPoint.carries started
    refine ⟨context, rfl, .by_keeper later kept ⟨rfl, started⟩ fun context saved => ?_⟩
    obtain same | ⟨worker, value, shouldReturn, same⟩ :=
      valid.kept_context permitted executed keeps kept
    · exact same.trans (agrees.context context saved)
    · cases same
  | user | waiting | exited => cases placed
  | working => cases placed.2
  | returned => cases placed.2
  | stored =>
    obtain placed | placed := placed.2.2
    · cases placed
    · cases placed

private theorem Agrees.finished {worker : ThreadId} {value : UInt32} (valid : Valid state)
    (permitted : state.permitted (.thread worker (.finishCall thread value)))
    (executed : state.execute (.thread worker (.finishCall thread value)) = .ok after)
    (agrees : phase.Agrees state thread) :
    ∃ context, phase = .working worker context ∧
    (returned worker context value).Agrees after thread := by
  have later := (valid.execute permitted).value executed
  have point : (state.threads worker).point = .workerCall thread := permitted.2.2.2.2.1
  have keeps : state.keeps thread (.frame worker) := congrArg ProgramPoint.carries point
  have placed := agrees.placed (.frame worker) keeps
  change phase.located thread worker (state.threads worker).point at placed
  rw [point] at placed
  cases phase with
  | working assigned context =>
    obtain rfl : assigned = worker := placed.1
    have stashed := agrees.context context rfl
    have moved : (after.threads assigned).point = .workerReturn thread value
      (context.r0 ≠ scExit) := by
      rw [valid.step_lands permitted executed (by rintro ⟨⟩)]
      simp [State.lands, stashed]
    have kept : after.keeps thread (.frame assigned) := congrArg ProgramPoint.carries moved
    refine ⟨context, rfl, .by_keeper later kept ⟨rfl, moved⟩ fun context saved => ?_⟩
    obtain same | ⟨worker, value, shouldReturn, same⟩ :=
      valid.kept_context permitted executed keeps kept
    · exact same.trans (agrees.context context saved)
    · cases same
  | user | waiting | exited => cases placed
  | taken =>
    obtain placed | placed := placed
    · cases placed
    · cases placed
  | returned => cases placed.2
  | stored =>
    obtain placed | placed := placed.2.2
    · cases placed
    · cases placed

private theorem Agrees.storing {worker : ThreadId} {result : UInt32} {shouldReturn : Bool}
    (valid : Valid state)
    (permitted : state.permitted (.thread worker (.storeReturn thread result shouldReturn)))
    (executed : state.execute (.thread worker (.storeReturn thread result shouldReturn)) = .ok after)
    (agrees : phase.Agrees state thread) : ∃ context, phase = .returned worker context result ∧
      (if context.r0 = scExit then exited else stored worker context result).Agrees after thread := by
  have later := (valid.execute permitted).value executed
  have point : (state.threads worker).point = .workerReturn thread result shouldReturn :=
    permitted.2.2.2.2
  have keeps : state.keeps thread (.frame worker) := congrArg ProgramPoint.carries point
  have placed := agrees.placed (.frame worker) keeps
  change phase.located thread worker (state.threads worker).point at placed
  rw [point] at placed
  cases phase with
  | returned assigned context value =>
    obtain ⟨rfl, same⟩ := placed
    obtain ⟨-, rfl, number⟩ := ProgramPoint.workerReturn.inj same
    have moved : (after.threads assigned).point = .workerStored thread shouldReturn :=
      valid.step_lands permitted executed (by rintro ⟨⟩)
    have kept : after.keeps thread (.frame assigned) := congrArg ProgramPoint.carries moved
    refine ⟨context, rfl, .by_keeper later kept ?_ fun next saved => ?_⟩
    · change CallPhase.located thread assigned (after.threads assigned).point _
      rw [moved, number]
      split
      next exits =>
        rw [decide_eq_false (not_not_intro exits)]
        rfl
      next goes =>
        rw [decide_eq_true goes]
        exact ⟨rfl, goes, Or.inl rfl⟩
    · have stashed := agrees.context context rfl
      obtain ⟨found, also, rfl⟩ := State.storeReturn_yields.value executed
      obtain rfl := Option.some.inj (stashed.symm.trans also)
      split at saved
      · cases saved
      · obtain rfl := Option.some.inj saved
        have differs : thread ≠ assigned :=
          fun same => (valid.kept_away keeps).1 (same ▸ permitted.2.1)
        rw [State.setPoint, State.modify_of_ne _ differs, State.modify_self]
  | user | waiting | exited => cases placed
  | taken =>
    obtain placed | placed := placed
    · cases placed
    · cases placed
  | working => cases placed.2
  | stored =>
    obtain placed | placed := placed.2.2
    · cases placed
    · cases placed

private theorem Agrees.resumes {worker : ThreadId} (valid : Valid state)
    (permitted : state.permitted (.thread worker (.requeueCaller thread)))
    (executed : state.execute (.thread worker (.requeueCaller thread)) = .ok after)
    (agrees : phase.Agrees state thread) :
    (∃ context value, phase = .stored worker context value) ∧ user.Agrees after thread := by
  have point : (state.threads worker).point = .workerUnmasked thread := permitted.2.2.2.2
  have keeps : state.keeps thread (.frame worker) := congrArg ProgramPoint.carries point
  have placed := agrees.placed (.frame worker) keeps
  change phase.located thread worker (state.threads worker).point at placed
  rw [point] at placed
  refine ⟨?_, .free fun keeper kept => ?_⟩
  · cases phase with
    | stored assigned context value =>
      obtain rfl : assigned = worker := placed.1
      exact ⟨context, value, rfl⟩
    | user | waiting | exited => cases placed
    | taken =>
      obtain placed | placed := placed
      · cases placed
      · cases placed
    | working => cases placed.2
    | returned => cases placed.2
  · have before : state.keeps thread keeper := by
      cases keeper with
      | queue =>
        have same : after.waitingThreads = state.waitingThreads :=
          valid.waiting_step permitted executed
        change thread ∈ state.waitingThreads
        exact same ▸ kept
      | closure =>
        have same : after.leaked = state.leaked := valid.leaked_step permitted executed
        change thread ∈ state.leaked
        exact same ▸ kept
      | frame other =>
        obtain earlier | ⟨same, -⟩ | ⟨handler, stack, context, same, -⟩ :=
          valid.carries_step permitted executed kept
        · exact earlier
        · cases same
        · cases same
    obtain rfl := valid.kept_once keeps before
    change (after.threads worker).point.carries = some thread at kept
    rw [valid.step_lands permitted executed (by rintro ⟨⟩)] at kept
    cases kept

private theorem Agrees.moves (valid : Valid state) (permitted : state.permitted event)
    (executed : state.execute event = .ok after)
    (concerns : state.concerns thread event) (agrees : phase.Agrees state thread) :
    ∃ next, state.advances event phase = some next ∧ next.Agrees after thread := by
  cases event with
  | tick | pendSV => cases concerns
  | thread actor step =>
    cases step with
    | svc =>
      obtain rfl : actor = thread := concerns
      obtain ⟨rfl, moved⟩ := agrees.called valid permitted executed
      exact ⟨_, rfl, moved⟩
    | takeWaiting =>
      obtain ⟨context, rfl, moved⟩ := agrees.taking valid permitted executed concerns
      exact ⟨_, rfl, moved⟩
    | setup worker stack entry =>
      obtain ⟨context, rfl, moved⟩ := agrees.assigned valid permitted executed concerns
      exact ⟨_, rfl, moved⟩
    | finishCall caller value =>
      obtain rfl : caller = thread := concerns
      obtain ⟨context, rfl, moved⟩ := agrees.finished valid permitted executed
      exact ⟨_, if_pos rfl, moved⟩
    | storeReturn caller value shouldReturn =>
      obtain rfl : caller = thread := concerns
      obtain ⟨context, rfl, moved⟩ := agrees.storing valid permitted executed
      exact ⟨_, if_pos ⟨rfl, rfl⟩, moved⟩
    | requeueCaller caller =>
      obtain rfl : caller = thread := concerns
      obtain ⟨⟨context, value, rfl⟩, moved⟩ := agrees.resumes valid permitted executed
      exact ⟨_, if_pos rfl, moved⟩
    | _ => cases concerns

end Step

end CallPhase

/-- The SystemHandler thread only parks when nobody waits for it. -/
def State.Attentive (state : State) : Prop :=
  ∀ handler, state.systemHandler = some handler → (state.threads handler).point.setUp = true →
    (state.threads handler).maskedFromScheduler = true → (state.threads handler).acquiring = none →
      state.waitingThreads = []

private theorem State.isrSystick_threads {state : State} :
    state.isrSystick.threads = state.threads := by
  unfold isrSystick
  split <;> rfl

private theorem State.isrSystick_waiting {state : State} :
    state.isrSystick.waitingThreads = state.waitingThreads := by
  unfold isrSystick
  split <;> rfl

private theorem Dispatched.masked {entry after : State} (dispatched : Dispatched entry after)
    {other : ThreadId}
    (masked : (after.threads other).maskedFromScheduler = true) :
    (entry.threads other).maskedFromScheduler = true := by
  have resumed {middle : State} {chosen : ThreadId} {registers : FullRegisterContext} :
      ((middle.resumed chosen registers).threads other).maskedFromScheduler =
        (middle.threads other).maskedFromScheduler :=
    update_field Thread.maskedFromScheduler rfl
  have idled {middle : State} : (middle.idled.threads other).maskedFromScheduler =
    (middle.threads other).maskedFromScheduler :=
    update_field Thread.maskedFromScheduler rfl
  obtain ⟨registers, idles, rfl⟩ | ⟨chosen, rest, registers, settled, queue, rfl⟩ := dispatched
  · exact State.putAway_same.masked (idled.symm.trans (resumed.symm.trans masked))
  · refine State.putAway_same.masked (Eq.trans (Eq.symm ?_) masked)
    exact resumed

theorem Valid.handler_role {state : State} (valid : Valid state) {handler : ThreadId}
    (serves : state.systemHandler = some handler) :
    state.role handler = .handler := by
  rw [State.role_of_large (valid.order.handler handler serves).1]
  exact if_pos serves

private theorem Valid.unserved {state : State} (valid : Valid state) {handler : ThreadId}
    (serves : state.systemHandler = some handler)
    (fresh : (state.threads handler).point = .fresh) : state.waitingThreads = [] := by
  by_contra waiting
  obtain ⟨caller, rest, queue⟩ := List.exists_cons_of_ne_nil waiting
  have parked : 1 ≤ (state.view caller).tally .parked := by
    have counted : 1 ≤ state.waitingThreads.count caller :=
      List.one_le_count_iff.mpr (by rw [queue]; exact List.mem_cons_self)
    exact counted.trans ((Nat.le_add_right ..).trans (Nat.le_add_right ..))
  have user : (state.threads caller).point = .userMode := ((valid.sound caller).parked parked).1
  obtain ⟨server, also, setUp⟩ := valid.order.late caller (by rw [user]; rfl)
  obtain rfl := Option.some.inj (serves.symm.trans also)
  rw [fresh] at setUp
  cases setUp

private theorem Valid.handler_awake {state : State} (valid : Valid state) {handler : ThreadId}
    (serves : state.systemHandler = some handler)
    (settled : state.pendSV = false) (running : state.activeThread = some handler) :
    (state.threads handler).maskedFromScheduler = false := by
  have role := valid.handler_role serves
  refine Bool.eq_false_iff.mpr fun masked => ?_
  have apart : handler ≠ defaultThread := by
    intro same
    rw [same] at role
    cases role
  have ended := (valid.pending handler running masked apart).resolve_left (by rw [settled]; nofun)
  obtain ordinary | dummy := ProgramPoint.fits_ends (valid.sound handler).fits ended
  · cases ordinary.symm.trans role
  · cases dummy.symm.trans role

private theorem Valid.attentive_other {state after : State} (valid : Valid state)
    (attentive : state.Attentive) {thread : ThreadId}
    {step : ThreadStep} (permitted : state.permitted (.thread thread step))
    (executed : state.step thread step = .ok after)
    (call : step ≠ .svc) {handler : ThreadId} (serves : state.systemHandler = some handler)
    (differs : handler ≠ thread)
    (setUp : (after.threads handler).point.setUp = true)
    (masked : (after.threads handler).maskedFromScheduler = true)
    (acquiring : (after.threads handler).acquiring = none) : state.waitingThreads = [] := by
  have role := valid.handler_role serves
  obtain same | meddles := valid.step_beside permitted executed call differs
  · exact attentive handler serves (same.point ▸ setUp) (same.masked masked)
      (same.acquiring ▸ acquiring)
  · cases meddles with
    | destroys =>
      obtain rfl := State.clearDangling_yields.value executed
      have gone : ((state.destroyed thread handler).threads handler).point = .destroyed :=
        (@State.update_beside (state.modify handler fun _ => { Thread.unborn with point := .destroyed })
          (state.destroyed thread handler) thread handler _ rfl differs).point.trans
            (State.changed_point rfl rfl)
      rw [gone] at setUp
      cases setUp
    | stores _ value shouldReturn =>
      have point : (state.threads thread).point = .workerReturn handler value shouldReturn :=
        permitted.2.2.2.2
      have keeps : state.keeps handler (.frame thread) := congrArg ProgramPoint.carries point
      cases (valid.kept_ordinary keeps).symm.trans role
    | createsHandler | creates =>
      cases executed
      rw [State.changed_point rfl rfl] at setUp
      cases setUp
    | setsUpHandler _ stack context also =>
      have point : (state.threads thread).point = .startupHandler := permitted.2.2.2.2
      have starting := valid.order.starting thread (by rw [point]; rfl)
      obtain ⟨fresh, same, young⟩ := valid.order.fresh (starting ▸ point)
      obtain rfl : handler = fresh := Option.some.inj (serves.symm.trans same)
      exact valid.unserved serves young
    | setsUp _ stack context =>
      have ⟨_, running, _, _, _, fresh⟩ := permitted
      have fresh : (state.threads thread).child = .fresh handler := fresh
      have nascent := State.counted (State.active_born valid.sound running)
        (List.mem_append_right _ (by rw [fresh]; exact List.mem_singleton_self _))
      cases ((valid.sound handler).nascent nascent).2.symm.trans role

private theorem Valid.attentive_step {state after : State} (valid : Valid state)
    (attentive : state.Attentive) {event : SystemEvent}
    (permitted : state.permitted event) (executed : state.execute event = .ok after) :
    after.Attentive := by
  intro handler served setUp masked acquiring
  by_cases constructs : ∃ thread, event = .thread thread .constructHandler
  · obtain ⟨thread, rfl⟩ := constructs
    cases executed
    obtain rfl : state.next = handler := Option.some.inj served
    have fresh : ((state.constructHandler thread).threads state.next).point = .fresh :=
      State.changed_point rfl rfl
    change ((state.constructHandler thread).threads state.next).point.setUp = true at setUp
    rw [fresh] at setUp
    cases setUp
  · have serves : state.systemHandler = some handler :=
      (valid.handler_kept permitted executed fun thread same => constructs ⟨thread,
        same⟩).symm.trans served
    have role := valid.handler_role serves
    cases event with
    | tick =>
      obtain rfl := Except.ok.inj executed
      rw [State.isrSystick_threads] at setUp masked acquiring
      rw [State.isrSystick_waiting]
      exact attentive handler serves setUp masked acquiring
    | pendSV =>
      have switched := Switches.schedulerNext.value executed
      have kept : (after.threads handler).acquiring = (state.threads handler).acquiring :=
        congrArg (·.2.2.2.1) (switched.frames handler)
      rw [valid.waiting_step permitted executed]
      obtain ⟨entry, entered, _, dispatched⟩ := valid.dispatches permitted rfl executed
      cases entered with
      | pendSV active running same =>
        have stashed : (entry.threads handler).maskedFromScheduler =
          (state.threads handler).maskedFromScheduler := by
          rw [same]
          exact update_field Thread.maskedFromScheduler rfl
        exact attentive handler serves (switched.point handler ▸ setUp)
          (stashed.symm.trans (dispatched.masked masked))
          (kept.symm.trans acquiring)
    | thread thread step =>
      by_cases call : step = .svc
      · subst call
        obtain ⟨entry, entered, _, dispatched⟩ := valid.dispatches permitted rfl executed
        cases entered with
        | svc _ server running suspended =>
          obtain rfl : handler = server := Option.some.inj (serves.symm.trans suspended.serves)
          have woken : (entry.threads handler).maskedFromScheduler = false := by
            rw [suspended.same]
            exact State.woken_awake
          cases woken.symm.trans (dispatched.masked masked)
      · have empty : state.waitingThreads = [] := by
          by_cases own : handler = thread
          · subst own
            have awake := valid.handler_awake serves permitted.1 permitted.2.1
            obtain earlier | blocked | ⟨-, empty⟩ | ⟨captured, rfl⟩ :=
              valid.step_masks permitted executed call masked
            · cases awake.symm.trans earlier
            · exact absurd acquiring blocked
            · exact empty
            · have point : (state.threads handler).point = .returned captured := permitted.2.2.2.2
              have fits : (state.threads handler).point.fits (state.role handler) = true :=
                (valid.sound handler).fits
              rw [point, role] at fits
              cases fits
          · exact valid.attentive_other attentive permitted executed call serves own setUp
              masked acquiring
        rw [valid.waiting_step permitted executed]
        cases step with
        | svc => exact absurd rfl call
        | takeWaiting => exact congrArg List.tail empty
        | _ => exact empty

/-- While somebody waits, the SystemHandler thread runs, will run, or waits for a mutex. -/
theorem Valid.attends {state : State} (valid : Valid state) (attentive : state.Attentive)
    (waiting : state.waitingThreads ≠ []) :
    ∃ handler, state.systemHandler = some handler ∧
      ((state.threads handler).maskedFromScheduler = true →
        (state.threads handler).acquiring ≠ none) ∧
      (state.activeThread = some handler ∨ handler ∈ state.queuedThreads ∨
        ∃ mutex, (state.threads handler).acquiring = some mutex ∧
        handler ∈ (state.mutexes mutex).waitingThreads) := by
  obtain ⟨caller, rest, queue⟩ := List.exists_cons_of_ne_nil waiting
  have keeps : state.keeps caller .queue := by
    change caller ∈ state.waitingThreads
    rw [queue]
    exact List.mem_cons_self
  have parked : 1 ≤ (state.view caller).tally .parked :=
    (List.one_le_count_iff.mpr keeps).trans ((Nat.le_add_right ..).trans (Nat.le_add_right ..))
  have user : (state.threads caller).point = .userMode := ((valid.sound caller).parked parked).1
  obtain ⟨handler, serves, setUp⟩ := valid.order.late caller (by rw [user]; rfl)
  have role := valid.handler_role serves
  have fine := valid.sound handler
  have idle : (state.threads handler).maskedFromScheduler = true →
    (state.threads handler).acquiring ≠ none :=
    fun masked acquiring => waiting (attentive handler serves setUp masked acquiring)
  refine ⟨handler, serves, idle, ?_⟩
  cases masked : (state.threads handler).maskedFromScheduler with
  | false =>
    have placed : 1 ≤ (state.view handler).running + (state.view handler).ready :=
      fine.unmasked (Or.inr role) setUp masked
    have undue : ¬1 ≤ (state.view handler).tally .ready := fun due => by
      cases (fine.due due).symm.trans role
    have somewhere : 1 ≤ state.activeThread.toList.count handler ∨
      1 ≤ state.queuedThreads.count handler := by
      simp only [View.ready, State.view] at placed undue
      omega
    obtain running | queued := somewhere
    · exact Or.inl (Option.mem_toList.mp (List.one_le_count_iff.mp running))
    · exact Or.inr (Or.inl (List.one_le_count_iff.mp queued))
  | true =>
    obtain ⟨mutex, acquiring⟩ := Option.ne_none_iff_exists'.mp (idle masked)
    have waits : 1 ≤ (state.view handler).waits mutex :=
      fine.blocked (Or.inr role) masked mutex acquiring
    exact Or.inr (Or.inr ⟨mutex, acquiring, List.one_le_count_iff.mp waits⟩)

def arrivals (history : List (State × SystemEvent)) : List ThreadId :=
  history.flatMap fun (_, event) => match event with
    | .thread caller .svc => [caller]
    | _ => []

def dequeued (history : List (State × SystemEvent)) : List ThreadId :=
  history.flatMap fun (state, event) => match event with
    | .thread _ .takeWaiting => state.waitingThreads.head?.toList
    | _ => []

def callsOf (thread : ThreadId) (history : List (State × SystemEvent)) : Nat :=
  history.countP fun (_, event) => match event with
    | .thread caller .svc => caller = thread
    | _ => false

def requeuesOf (thread : ThreadId) (history : List (State × SystemEvent)) : Nat :=
  history.countP fun (_, event) => match event with
    | .thread _ (.requeueCaller caller) => caller = thread
    | _ => false

def CallPhase.pending : CallPhase → Nat
  | user => 0
  | _ => 1

private theorem queue_step (state : State) (event : SystemEvent) :
    dequeued [(state, event)] ++ state.queues event = state.waitingThreads ++
      arrivals [(state, event)] := by
  cases event with
  | tick | pendSV => exact (List.append_nil _).symm
  | thread thread step =>
    cases step with
    | takeWaiting =>
      cases queue : state.waitingThreads with
      | nil => simp [dequeued, arrivals, State.queues, queue]
      | cons caller rest => simp [dequeued, arrivals, State.queues, queue]
    | svc => rfl
    | _ => exact (List.append_nil _).symm

/-- A call opens with the supervisor call and closes with the requeueing. -/
theorem CallPhase.after_pending {thread : ThreadId} {state : State} {event : SystemEvent}
    {phase next : CallPhase}
    (moves : phase.after thread state event = some next) :
    callsOf thread [(state, event)] + phase.pending = requeuesOf thread [(state, event)] +
      next.pending := by
  unfold CallPhase.after at moves
  split at moves
  next concerns =>
    unfold State.advances at moves
    split at moves
    · obtain rfl := Option.some.inj moves
      obtain rfl : _ = thread := concerns
      simp [callsOf, requeuesOf, pending]
    · obtain rfl := Option.some.inj moves
      rfl
    · obtain rfl := Option.some.inj moves
      rfl
    · split at moves
      · obtain rfl := Option.some.inj moves
        rfl
      · cases moves
    · split at moves
      · obtain rfl := Option.some.inj moves
        split <;> rfl
      · cases moves
    · split at moves
      · obtain rfl := Option.some.inj moves
        obtain rfl : _ = thread := concerns
        simp [callsOf, requeuesOf, pending]
      · cases moves
    · cases moves
  next apart =>
    obtain rfl := Option.some.inj moves
    have calls : callsOf thread [(state, event)] = 0 ∧ requeuesOf thread [(state, event)] = 0 := by
      cases event with
      | tick | pendSV => exact ⟨rfl, rfl⟩
      | thread actor step =>
        cases step with
        | svc =>
          have other : actor ≠ thread := apart
          exact ⟨List.countP_eq_zero.mpr (by simpa using other), rfl⟩
        | requeueCaller caller =>
          have other : caller ≠ thread := apart
          exact ⟨rfl, List.countP_eq_zero.mpr (by simpa using other)⟩
        | _ => exact ⟨rfl, rfl⟩
    rw [calls.1, calls.2]

private theorem Valid.phase_step {state after : State} (valid : Valid state) {event : SystemEvent}
    (permitted : state.permitted event)
    (executed : state.execute event = .ok after) {thread : ThreadId} {phase : CallPhase}
    (agrees : phase.Agrees state thread) :
    ∃ next, phase.after thread state event = some next ∧ next.Agrees after thread := by
  unfold CallPhase.after
  by_cases concerns : state.concerns thread event
  · rw [if_pos concerns]
    exact agrees.moves valid permitted executed concerns
  · rw [if_neg concerns]
    exact ⟨phase, rfl, agrees.stays valid permitted executed concerns⟩

private theorem boot_agrees {stack : ThreadId → PageRange}
    {context : ThreadId → FullRegisterContext} (thread : ThreadId) :
    CallPhase.user.Agrees (State.boot stack context) thread := by
  refine .free fun keeper keeps => ?_
  cases keeper with
  | queue | closure => exact absurd keeps List.not_mem_nil
  | frame worker =>
    have holds := ProgramPoint.carries_holds keeps
    have frames := @boot_holds stack context worker
    have empty : ((State.boot stack context).threads worker).point.holds = [] :=
      (List.append_eq_nil_iff.mp frames).1
    rw [empty] at holds
    cases holds

/-- The protocol in any run. `Agrees` ties the phase of each thread, which the history alone
determines, to the state: who has the caller, and which registers are saved for it. -/
theorem system_calls {stack : ThreadId → PageRange} {context : ThreadId → FullRegisterContext}
    {state : State}
    {history : List (State × SystemEvent)}
    (run : State.machine.Run (State.boot stack context) history state) :
    (state.waitingThreads ≠ [] → ∃ handler, state.systemHandler = some handler ∧
      ((state.threads handler).maskedFromScheduler = true →
        (state.threads handler).acquiring ≠ none) ∧
      (state.activeThread = some handler ∨ handler ∈ state.queuedThreads ∨
        ∃ mutex, (state.threads handler).acquiring = some mutex ∧
        handler ∈ (state.mutexes mutex).waitingThreads)) ∧
    arrivals history = dequeued history ++ state.waitingThreads ∧
    ∀ thread, ∃ phase, callPhase thread history = some phase ∧ phase.Agrees state thread ∧
      callsOf thread history = requeuesOf thread history + phase.pending ∧
      (phase ≠ .user → state.activeThread ≠ some thread ∧ thread ∉ state.queuedThreads) := by
  have invariant : Valid state ∧ state.Attentive ∧
    arrivals history = dequeued history ++ state.waitingThreads ∧
      ∀ thread, ∃ phase, callPhase thread history = some phase ∧ phase.Agrees state thread ∧
        callsOf thread history = requeuesOf thread history + phase.pending := by
    induction run with
    | start =>
      refine ⟨boot_valid, ?_, rfl, fun thread => ⟨.user, rfl, boot_agrees thread, rfl⟩⟩
      intro handler serves
      cases serves
    | @step history state event next run permitted executed ih =>
      obtain ⟨valid, attentive, order, phases⟩ := ih
      refine ⟨(valid.execute permitted).value executed,
        valid.attentive_step attentive permitted executed, ?_, fun thread => ?_⟩
      · have split := queue_step state event
        rw [arrivals, dequeued, List.flatMap_append, List.flatMap_append]
        change arrivals history ++ arrivals [(state, event)] = dequeued history ++
          dequeued [(state, event)] ++ next.waitingThreads
        rw [valid.waiting_step permitted executed, List.append_assoc, split, order,
          List.append_assoc]
      · obtain ⟨phase, followed, agrees, count⟩ := phases thread
        obtain ⟨later, moves, agrees⟩ := valid.phase_step permitted executed agrees
        have pending := CallPhase.after_pending moves
        refine ⟨later, ?_, agrees, ?_⟩
        · rw [callPhase, List.foldl_append]
          change (callPhase thread history).bind (fun phase => phase.after thread state event) = some later
          rw [followed]
          exact moves
        · rw [callsOf, requeuesOf, List.countP_append, List.countP_append]
          change callsOf thread history + callsOf thread [(state, event)] =
            requeuesOf thread history + requeuesOf thread [(state, event)] + later.pending
          omega
  obtain ⟨valid, attentive, order, phases⟩ := invariant
  refine ⟨valid.attends attentive, order, fun thread => ?_⟩
  obtain ⟨phase, followed, agrees, count⟩ := phases thread
  refine ⟨phase, followed, agrees, count, fun calling => ?_⟩
  obtain ⟨keeper, keeps⟩ := agrees.kept.resolve_left calling
  have ⟨stopped, unqueued, _⟩ := valid.kept_away keeps
  exact ⟨stopped, unqueued⟩

theorem system_calls_first : ∃ history state, State.machine.Run .bootPlain history state ∧
    state.waitingThreads = [5] ∧
    arrivals history = dequeued history ++ [5] ∧ ∃ handler, state.systemHandler = some handler ∧
      ((state.threads handler).maskedFromScheduler = true →
        (state.threads handler).acquiring ≠ none) := by
  have played : (State.machine.after .bootPlain
      (SystemEvent.startup ++ SystemEvent.destroys 3 ++ SystemEvent.calls [(5, true)])).map
        State.waitingThreads = some [5] := by
    decide +kernel
  obtain ⟨state, called, waiting⟩ := Option.map_eq_some_iff.mp played
  obtain ⟨history, run⟩ := Machine.reachable_after called
  obtain ⟨attends, order, _⟩ := system_calls run
  obtain ⟨handler, serves, idle, _⟩ := attends (by rw [waiting]; exact List.cons_ne_nil _ _)
  exact ⟨history, state, run, waiting, waiting ▸ order, handler, serves, idle⟩

end PicoOs.Kernel
