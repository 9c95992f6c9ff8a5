import PicoOs.Kernel.Threads.Thread

/-! The state of the thread system and the scheduler. `RefPtr`s that are moved keep
the reference count; temporaries that are copied and dropped within one masked
section are left out. -/

namespace PicoOs.Kernel

structure KernelMutex where
  enabled : Bool
  holdingThread : Option ThreadId
  waitingThreads : List ThreadId
  deriving DecidableEq

def KernelMutex.slots (mutex : KernelMutex) : List ThreadId :=
  mutex.holdingThread.toList ++ mutex.waitingThreads

/-- `systemHandler` and `waitingThreads` are `m_thread` and `m_waiting_threads` of the
SystemHandler, `registers` and `control` belong to the processor. `leaked` lists the
references in the closures of destroyed threads: their memory is gone, but their
destructors never ran. -/
structure State where
  threads : ThreadId → Thread
  next : ThreadId
  activeThread : Option ThreadId
  queuedThreads : List ThreadId
  danglingThreads : List ThreadId
  enabled : Bool
  systemHandler : Option ThreadId
  waitingThreads : List ThreadId
  mutexes : MutexId → KernelMutex
  pendSV : Bool
  registers : FullRegisterContext
  control : UInt32
  leaked : List ThreadId

def defaultThread : ThreadId := 0

def fallbackThread : ThreadId := 1

def dummyThread : ThreadId := 2

def startupThread : ThreadId := 3

def enqueue (queue : List ThreadId) (thread : ThreadId) : Except KernelFault (List ThreadId) :=
  if queue.length < 16 then .ok (queue ++ [thread]) else .error .queueFull

namespace State

def modify (state : State) (thread : ThreadId) (change : Thread → Thread) : State :=
  { state with threads := Function.update state.threads thread (change (state.threads thread)) }

def setMutex (state : State) (mutex : MutexId) (value : KernelMutex) : State :=
  { state with mutexes := Function.update state.mutexes mutex value }

def ref (state : State) (thread : ThreadId) : Except KernelFault State :=
  if 1 ≤ (state.threads thread).refcount then
    .ok (state.modify thread fun value => { value with refcount := value.refcount + 1 })
  else .error .deadReference

/-- `RefCounted::unref` where the thread is not meant to be deleted. -/
def unref (state : State) (thread : ThreadId) : Except KernelFault State :=
  match (state.threads thread).refcount with
  | 0 => .error .deadReference
  | 1 => .error .lastReference
  | _ => .ok (state.modify thread fun value => { value with refcount := value.refcount - 1 })

def addThread (state : State) (thread : ThreadId) : Except KernelFault State := do
  let queuedThreads ← enqueue state.queuedThreads thread
  .ok { state with queuedThreads }

def trigger (state : State) : Except KernelFault State :=
  if state.enabled then .ok { state with pendSV := true } else .error .schedulerDisabled

def wakeup (state : State) (thread : ThreadId) : Except KernelFault State :=
  if state.activeThread = some thread then .error .wakeupActive
  else if (state.threads thread).maskedFromScheduler then do
    let state := state.modify thread fun value => { value with maskedFromScheduler := false }
    let state ← state.ref thread
    state.addThread thread
  else .ok state

/-- `m_active_thread.clear()` -/
def clearActive (state : State) (active : ThreadId) : Except KernelFault State := do
  let state ← state.unref active
  .ok { state with activeThread := none }

/-- The first half of `schedule`: save the previous active thread somehow. -/
def saveActive (state : State) : Except KernelFault State :=
  match state.activeThread with
  | none => .ok state
  | some active =>
    if (state.threads active).maskedFromScheduler then
      if (state.threads active).refcount ≥ 2 then state.clearActive active
      else do
        let danglingThreads ← enqueue state.danglingThreads active
        .ok { state with danglingThreads, activeThread := none }
    else if (state.threads active).isDefaultThread then
      if (state.threads active).refcount ≥ 2 then state.clearActive active
      else .error .defaultRefcount
    else do
      let queuedThreads ← enqueue state.queuedThreads active
      .ok { state with queuedThreads, activeThread := none }

/-- `choose_default_thread`, whose result is assigned to `m_active_thread`. -/
def chooseDefaultThread (state : State) : Except KernelFault State :=
  if (state.threads defaultThread).maskedFromScheduler then
    if (state.threads fallbackThread).maskedFromScheduler then .error .fallbackMasked
    else do
      let state ← state.ref fallbackThread
      .ok { state with activeThread := some fallbackThread }
  else do
    let state ← state.ref defaultThread
    .ok { state with activeThread := some defaultThread }

/-- The second half of `schedule`: choose a new thread. -/
def chooseThread (state : State) : Except KernelFault State :=
  if state.danglingThreads.length ≥ 1 then state.chooseDefaultThread
  else
    match state.queuedThreads with
    | [] => state.chooseDefaultThread
    | thread :: queuedThreads => .ok { state with queuedThreads, activeThread := some thread }

/-- The MPU regions of the next thread, which `schedule` also installs, are left out. -/
def schedule (state : State) : Except KernelFault (ThreadId × State) := do
  let state ← state.saveActive
  let state ← state.chooseThread
  match state.activeThread with
  | none => .error .noActiveThread
  | some thread =>
    .ok (thread, { state with control := if (state.threads thread).privileged then 0b10 else 0b11 })

def stashContext (state : State) (thread : ThreadId) : Except KernelFault State :=
  if (state.threads thread).stashedContext.isSome then .error .stashValid
  else .ok (state.modify thread fun value => { value with stashedContext := some state.registers })

/-- `unstash_context`, whose result becomes the registers of the processor. -/
def unstashContext (state : State) (thread : ThreadId) : Except KernelFault State :=
  match (state.threads thread).stashedContext with
  | none => .error .stashInvalid
  | some registers =>
    .ok { state.modify thread fun value => { value with stashedContext := none } with registers }

/-- `scheduler_next`, called by `isr_pendsv`. -/
def schedulerNext (state : State) : Except KernelFault State :=
  match state.activeThread with
  | none => .error .noActiveThread
  | some active => do
    let state ← state.stashContext active
    let (next, state) ← state.schedule
    state.unstashContext next

def isrSystick (state : State) : State := if state.enabled then { state with pendSV := true } else state

end State
end PicoOs.Kernel
