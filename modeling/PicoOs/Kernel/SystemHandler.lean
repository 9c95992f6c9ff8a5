import PicoOs.Kernel.KernelMutex

/-! System calls: the supervisor call parks the caller and wakes the SystemHandler
thread, which starts a worker thread for each caller. -/

namespace PicoOs.Kernel.State

def notifyWorkerThread (state : State) (thread : ThreadId) : Except KernelFault State := do
  let state := state.modify thread fun value => { value with maskedFromScheduler := true }
  let waitingThreads ← enqueue state.waitingThreads thread
  match state.systemHandler with
  | none => .error .noSystemHandler
  | some handler => ({ state with waitingThreads } : State).wakeup handler

/-- `syscall`, called by `isr_svcall`. -/
def syscall (state : State) : Except KernelFault State :=
  match state.activeThread with
  | none => .error .noActiveThread
  | some active => do
    let state ← state.ref active
    let state ← state.stashContext active
    let state ← state.clearActive active
    let state ← state.notifyWorkerThread active
    let (next, state) ← state.schedule
    state.unstashContext next

def setPoint (state : State) (thread : ThreadId) (point : ProgramPoint) : State :=
  state.modify thread fun value => { value with point }

/-- A new thread object whose reference the caller holds. -/
def spawn (state : State) (value : Thread) : State :=
  { state with threads := Function.update state.threads state.next value, next := state.next + 1 }

/-- The constructor of the SystemHandler up to `setup_context`. -/
def constructHandler (state : State) (thread : ThreadId) : State :=
  let handler := state.next
  let state := state.setPoint thread .startupHandler
  { state.spawn { Thread.construct with privileged := true, maskedFromScheduler := true } with
    systemHandler := some handler }

def setupHandler (state : State) (thread : ThreadId) (stack : PageRange)
    (context : FullRegisterContext) :
    Except KernelFault State :=
  match state.systemHandler with
  | none => .error .noSystemHandler
  | some handler => do
    let value ← (state.threads handler).setupContext stack context .handlerLoop
    .ok ((state.modify handler fun _ => value).setPoint thread .startupReady)

/-- `Thread::construct` for a worker or for the thread of a process. -/
def construct (state : State) (thread : ThreadId) : State :=
  let child := state.next
  (state.modify thread fun value => { value with child := .fresh child }).spawn
    { Thread.construct with privileged := true }

def setup (state : State) (thread child : ThreadId) (stack : PageRange)
    (context : FullRegisterContext) :
    Except KernelFault State := do
  let point := (state.threads thread).point
  let value ← (state.threads child).setupContext stack context point.entry
  .ok ((state.modify child fun _ => value).modify thread fun value =>
    { value with point := point.afterSetup, child := .prepared child })

def enqueueChild (state : State) (thread child : ThreadId) : Except KernelFault State :=
  (state.modify thread fun value => { value with point := value.point.afterEnqueue, child := .none }).addThread child

/-- The masked part of the handler's loop: park, or go on to take a caller. -/
def checkWaiting (state : State) (thread : ThreadId) : Except KernelFault State :=
  match state.waitingThreads with
  | [] => (state.modify thread fun value => { value with maskedFromScheduler := true }).trigger
  | _ => .ok (state.setPoint thread .handlerTake)

def takeWaiting (state : State) (thread : ThreadId) : Except KernelFault State :=
  match state.waitingThreads with
  | [] => .error .queueEmpty
  | caller :: waitingThreads =>
      .ok { state.setPoint thread (.handlerTaken caller) with waitingThreads }

def readContext (state : State) (thread caller : ThreadId) : Except KernelFault State :=
  if (state.threads caller).stashedContext.isSome then
    .ok (state.setPoint thread (.handlerContext caller))
  else .error .stashInvalid

/-- The worker's system call has returned `value`, and it looks at the number of the call. -/
def finishCall (state : State) (thread caller : ThreadId) (value : UInt32) :
    Except KernelFault State :=
  match (state.threads caller).stashedContext with
  | none => .error .staleContext
  | some context => .ok (state.setPoint thread (.workerReturn caller value (context.r0 ≠ scExit)))

def storeReturn (state : State) (thread caller : ThreadId) (value : UInt32) (shouldReturn : Bool) :
    Except KernelFault State :=
  match (state.threads caller).stashedContext with
  | none => .error .staleContext
  | some context =>
    .ok ((state.modify caller fun thread => { thread with stashedContext := some { context with r0 := value } }).setPoint
      thread (.workerStored caller shouldReturn))

def finishExit (state : State) (thread caller : ThreadId) : Except KernelFault State :=
  if (state.threads caller).maskedFromScheduler then
    .ok (state.setPoint thread (.returned (some caller)))
  else .error .callerUnmasked

def unmaskCaller (state : State) (thread caller : ThreadId) : State :=
  (state.modify caller fun value => { value with maskedFromScheduler := false }).setPoint thread
    (.workerUnmasked caller)

def requeueCaller (state : State) (thread caller : ThreadId) : Except KernelFault State :=
  (state.setPoint thread (.returned none)).addThread caller

end PicoOs.Kernel.State
