import PicoOs.Library.Machine
import PicoOs.Kernel.SystemHandler

/-! The thread system as a machine: interrupts, system calls, and the steps of the
default thread, the fallback thread, the SystemHandler, the workers and the processes. -/

namespace PicoOs.Kernel
open Library

inductive ThreadStep where
  | compute (registers : FullRegisterContext)
  | lock (mutex : MutexId)
  | lockReturn (mutex : MutexId)
  | unlock (mutex : MutexId)
  | enable
  | trigger
  | pollDangling
  | clearDangling (victim : ThreadId)
  | finishDestroy
  | constructHandler
  | setupHandler (stack : PageRange) (context : FullRegisterContext)
  | construct
  | setup (child : ThreadId) (stack : PageRange) (context : FullRegisterContext)
  | enqueueChild (child : ThreadId)
  | finish
  | checkWaiting
  | takeWaiting
  | readContext (caller : ThreadId)
  | finishCall (caller : ThreadId) (value : UInt32)
  | storeReturn (caller : ThreadId) (value : UInt32) (shouldReturn : Bool)
  | finishExit (caller : ThreadId)
  | unmaskCaller (caller : ThreadId)
  | requeueCaller (caller : ThreadId)
  | mask (captured : Option ThreadId)
  | loadExecutable (range : PageRange)
  | handOver
  | svc
  | proceed
  deriving DecidableEq

inductive SystemEvent where
  | tick
  | pendSV
  | thread (thread : ThreadId) (step : ThreadStep)
  deriving DecidableEq

namespace Thread

/-- The step that the code at the thread's point does next. -/
def reaches (thread : Thread) : ThreadStep → Prop
  | .enable => thread.point = .dummyStart
  | .trigger => thread.point.triggers = true
  | .pollDangling => thread.point = .defaultLoop
  | .clearDangling victim => thread.point = .defaultRelease victim
  | .finishDestroy => thread.point.isDestroying = true
  | .constructHandler => thread.point = .startupBegin
  | .setupHandler _ _ => thread.point = .startupHandler
  | .construct => thread.point.creates = true ∧ thread.child = .none
  | .setup child _ _ => thread.point.creates = true ∧ thread.child = .fresh child
  | .enqueueChild child => thread.child = .prepared child
  | .finish => thread.point.finishes = true
  | .checkWaiting => thread.point = .handlerLoop
  | .takeWaiting => thread.point = .handlerTake
  | .readContext caller => thread.point = .handlerTaken caller
  | .finishCall caller _ => thread.point = .workerCall caller ∧ thread.child = .none
  | .storeReturn caller value shouldReturn => thread.point = .workerReturn caller value shouldReturn
  | .finishExit caller => thread.point = .workerStored caller false
  | .unmaskCaller caller => thread.point = .workerStored caller true
  | .requeueCaller caller => thread.point = .workerUnmasked caller
  | .mask captured => thread.point = .returned captured
  | .loadExecutable _ | .handOver => thread.point = .processStart
  | .svc => thread.point = .userMode
  | .proceed => thread.point.isHalted = true
  | _ => False

/-- Critical sections of the mutexes contain only allocator code, so all steps but
those of the mutexes themselves are taken outside of them. -/
def may (thread : Thread) : ThreadStep → Prop
  | .compute _ => True
  | .lock _ => thread.point.allocates = true ∧ thread.acquiring = none
  | .lockReturn mutex => thread.acquiring = some mutex
  | .unlock mutex => mutex ∈ thread.locks ∧ thread.acquiring = none
  | step => thread.locks = [] ∧ thread.acquiring = none ∧ thread.reaches step

instance (thread : Thread) (step : ThreadStep) : Decidable (thread.reaches step) := by
  cases step <;> unfold reaches <;> infer_instance

instance (thread : Thread) (step : ThreadStep) : Decidable (thread.may step) := by
  cases step <;> unfold may <;> infer_instance

end Thread

namespace State

/-- `thread.clear()` in the default thread: the object is deleted. Its page ranges are
given back by the destructor; the closure on its stack is not destructed. -/
def clearDangling (state : State) (thread victim : ThreadId) : Except KernelFault State :=
  let value := state.threads victim
  if value.refcount = 1 then
    .ok { (state.modify victim fun _ => { Thread.unborn with point := .destroyed }).setPoint thread
      (.defaultDestroying value.ownedPageRanges) with leaked := state.leaked ++ value.references }
  else .error .danglingRefcount

def pollDangling (state : State) (thread : ThreadId) : Except KernelFault State :=
  match state.danglingThreads with
  | [] => state.trigger
  | victim :: danglingThreads =>
      .ok { state.setPoint thread (.defaultRelease victim) with danglingThreads }

def step (state : State) (thread : ThreadId) : ThreadStep → Except KernelFault State
  | .compute registers => .ok { state with registers }
  | .lock mutex => state.lock thread mutex
  | .lockReturn mutex => .ok (state.enter thread mutex)
  | .unlock mutex => state.unlock thread mutex
  | .enable => .ok { state.setPoint thread .dummyEnabled with
      enabled := true, mutexes := fun mutex => { state.mutexes mutex with enabled := true } }
  | .trigger => (state.setPoint thread (state.threads thread).point.afterTrigger).trigger
  | .pollDangling => state.pollDangling thread
  | .clearDangling victim => state.clearDangling thread victim
  | .finishDestroy => .ok (state.setPoint thread .defaultLoop)
  | .constructHandler => .ok (state.constructHandler thread)
  | .setupHandler stack context => state.setupHandler thread stack context
  | .construct => .ok (state.construct thread)
  | .setup child stack context => state.setup thread child stack context
  | .enqueueChild child => state.enqueueChild thread child
  | .finish => .ok (state.setPoint thread (state.threads thread).point.afterFinish)
  | .checkWaiting => state.checkWaiting thread
  | .takeWaiting => state.takeWaiting thread
  | .readContext caller => state.readContext thread caller
  | .finishCall caller value => state.finishCall thread caller value
  | .storeReturn caller value shouldReturn => state.storeReturn thread caller value shouldReturn
  | .finishExit caller => state.finishExit thread caller
  | .unmaskCaller caller => .ok (state.unmaskCaller thread caller)
  | .requeueCaller caller => state.requeueCaller thread caller
  | .mask captured => .ok (state.modify thread fun value =>
      { value with maskedFromScheduler := true, point := .dying captured })
  | .loadExecutable range => .ok (state.modify thread fun value =>
      { value with ownedPageRanges := value.ownedPageRanges ++ [range] })
  | .handOver => .ok { state.modify thread fun value => { value with privileged := false, point := .userMode } with
      control := 0b11 }
  | .svc => state.syscall
  | .proceed => .error .notReached

/-- A pending PendSV is taken before anything else runs. -/
def permitted (state : State) : SystemEvent → Prop
  | .tick => state.pendSV = false
  | .pendSV => state.pendSV = true
  | .thread thread step =>
    state.pendSV = false ∧ state.activeThread = some thread ∧ (state.threads thread).may step

def execute (state : State) : SystemEvent → Except KernelFault State
  | .tick => .ok state.isrSystick
  | .pendSV => ({ state with pendSV := false } : State).schedulerNext
  | .thread thread step => state.step thread step

/-- Every `RefPtr<Thread>`: the queues, the active thread, the mutexes, the static ones
(the dummy thread's stays in the frame of `Scheduler::loop`, which never returns), those
in the frames of all threads, and those in closures that were never destructed. -/
def slots (state : State) : List ThreadId :=
  state.activeThread.toList ++ state.queuedThreads ++ state.danglingThreads ++
    state.waitingThreads ++
    [defaultThread, fallbackThread, dummyThread] ++ state.systemHandler.toList ++
    (state.mutexes .malloc).slots ++ (state.mutexes .pageAllocator).slots ++
    (List.range state.next).flatMap (fun thread => (state.threads thread).references) ++ state.leaked

def machine : Machine State SystemEvent KernelFault where
  permitted := permitted
  execute := execute

instance (state : State) (event : SystemEvent) : Decidable (state.permitted event) := by
  cases event <;> unfold permitted <;> infer_instance

instance (state : State) (event : SystemEvent) : Decidable (machine.permitted state event) :=
  inferInstanceAs (Decidable (state.permitted event))

/-- The state in which `Scheduler::loop` hands over to the dummy thread. -/
def boot (stack : ThreadId → PageRange) (context : ThreadId → FullRegisterContext) : State where
  threads thread :=
    let value := { Thread.construct with ownedPageRanges := [stack thread] }
    let suspended := { value with privileged := true, stashedContext := some (context thread) }
    if thread = defaultThread then { suspended with isDefaultThread := true, point := .defaultLoop }
    else if thread = fallbackThread then
      { suspended with isDefaultThread := true, point := .fallbackLoop }
    else if thread = dummyThread then
      { value with refcount := 2, maskedFromScheduler := true, point := .dummyStart }
    else if thread = startupThread then { suspended with point := .startupBegin }
    else .unborn
  next := 4
  activeThread := some dummyThread
  queuedThreads := [startupThread]
  danglingThreads := []
  enabled := false
  systemHandler := none
  waitingThreads := []
  mutexes _ := ⟨false, none, []⟩
  pendSV := false
  registers := context dummyThread
  control := 0b10
  leaked := []

end State
end PicoOs.Kernel
