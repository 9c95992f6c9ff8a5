import PicoOs.Kernel.Threads.Scheduler

/-! Blocking mutexes. `lock` and `unlock` run with interrupts masked; a thread that
has to wait masks itself, and is switched out when the interrupts come back on. -/

namespace PicoOs.Kernel.State

/-- The thread has returned from `lock()`. -/
def enter (state : State) (thread : ThreadId) (mutex : MutexId) : State :=
  state.modify thread fun value => { value with acquiring := none, locks := mutex :: value.locks }

def lock (state : State) (thread : ThreadId) (mutex : MutexId) : Except KernelFault State :=
  let value := state.mutexes mutex
  if value.enabled then
    match value.holdingThread with
    | none => do
      let state ← state.ref thread
      .ok ((state.setMutex mutex { value with holdingThread := some thread }).enter thread mutex)
    | some _ => do
      let state := state.modify thread fun value =>
        { value with maskedFromScheduler := true, acquiring := some mutex }
      let state ← state.ref thread
      let waitingThreads ← enqueue value.waitingThreads thread
      (state.setMutex mutex { value with waitingThreads }).trigger
  else .ok (state.enter thread mutex)

/-- `m_holding_thread.clear()` -/
def clearHolding (state : State) (mutex : MutexId) : Except KernelFault State :=
  match (state.mutexes mutex).holdingThread with
  | none => .ok state
  | some holder => do
    let state ← state.unref holder
    .ok (state.setMutex mutex { state.mutexes mutex with holdingThread := none })

/-- The reference in the queue of the mutex becomes the one in `m_holding_thread`. -/
def handOver (state : State) (mutex : MutexId) : Except KernelFault State :=
  match (state.mutexes mutex).waitingThreads with
  | [] => .ok state
  | next :: waitingThreads =>
    (state.setMutex mutex { state.mutexes mutex with holdingThread := some next, waitingThreads }).wakeup next

def unlock (state : State) (thread : ThreadId) (mutex : MutexId) : Except KernelFault State :=
  let state := state.modify thread fun value => { value with locks := value.locks.erase mutex }
  if (state.mutexes mutex).enabled then do
    let state ← state.clearHolding mutex
    state.handOver mutex
  else .ok state

end PicoOs.Kernel.State

namespace PicoOs.Kernel.KernelMutex

/-- `lock()` makes the thread wait. -/
def taken (mutex : KernelMutex) : Bool := mutex.enabled && mutex.holdingThread.isSome

/-- The fields of the mutex after `lock()`, for code that looks at nothing else of the system. -/
def lock (mutex : KernelMutex) (thread : ThreadId) : Except KernelFault KernelMutex :=
  if mutex.enabled then
    match mutex.holdingThread with
    | none => .ok { mutex with holdingThread := some thread }
    | some _ => do
      let waitingThreads ← enqueue mutex.waitingThreads thread
      .ok { mutex with waitingThreads }
  else .ok mutex

def unlock (mutex : KernelMutex) : KernelMutex :=
  if mutex.enabled then
    match mutex.waitingThreads with
    | [] => { mutex with holdingThread := none }
    | next :: waitingThreads => { mutex with holdingThread := some next, waitingThreads }
  else mutex

end PicoOs.Kernel.KernelMutex
