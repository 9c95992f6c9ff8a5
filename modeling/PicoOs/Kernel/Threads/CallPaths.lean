import PicoOs.Kernel.System
import PicoOs.Kernel.Threads.FileCalls

/-! A system call as a whole. The supervisor call parks the caller and wakes the SystemHandler,
which queues a worker; the worker serves the call and queues the caller again. Other threads
run between these steps, so that each of them finds the thread system in a state of its own. -/

namespace PicoOs.Kernel
open Library

inductive CallFault where
  | threads (fault : KernelFault)
  | files (crash : Crash)

/-- A step of the thread system, and the state that it finds. -/
structure CallStep where
  state : State
  event : SystemEvent

namespace CallStep

def run (step : CallStep) : Except CallFault Unit := do
  let _ ← (step.state.execute step.event).mapError CallFault.threads
  .ok ()

end CallStep

/-- The states in which the caller executes `svc`, in which `handle_next_waiting_thread` adds the
worker, and in which the worker adds the caller. `accepting` and `serving` are what the
SystemHandler and the worker meet in between: the mutexes of the allocators, and preemption. -/
structure CallPath where
  caller : ThreadId
  handler : ThreadId
  worker : ThreadId
  entered : State
  accepting : List CallStep
  accepted : State
  serving : List CallStep
  served : State

namespace CallPath

def enters (path : CallPath) : CallStep := ⟨path.entered, .thread path.caller .svc⟩

def starts (path : CallPath) : CallStep :=
  ⟨path.accepted, .thread path.handler (.enqueueChild path.worker)⟩

def returns (path : CallPath) : CallStep :=
  ⟨path.served, .thread path.worker (.requeueCaller path.caller)⟩

end CallPath

end PicoOs.Kernel
