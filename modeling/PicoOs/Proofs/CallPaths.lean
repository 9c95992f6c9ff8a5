import PicoOs.Kernel.Threads.CallPaths
import PicoOs.Proofs.FileCalls
import PicoOs.Proofs.Overflow

/-! Which system calls return to their caller. The queues that a call passes have to have room,
and the handlers rely on what user space passes. -/

namespace PicoOs.Kernel
open Library PicoOs.Std

namespace State
variable {state : State} {thread : ThreadId}

/-- The step finds no room in the queue, or it wakes the thread that runs. -/
def stops (state : State) : SystemEvent → Prop
  | .thread _ (.lock mutex) =>
      (state.mutexes mutex).enabled = true ∧ (state.mutexes mutex).holdingThread.isSome = true ∧
      (16 ≤ (state.mutexes mutex).waitingThreads.length ∨ state.enabled = false)
  | .thread thread (.unlock mutex) =>
      ∃ next, (state.mutexes mutex).waitingThreads.head? = some next ∧
      (next = thread ∨ (state.threads next).maskedFromScheduler = true ∧
        16 ≤ state.queuedThreads.length)
  | event => state.overflows event

end State

namespace CallPath

def steps (path : CallPath) : List CallStep :=
  [path.enters] ++ path.accepting ++ [path.starts] ++ path.serving ++ [path.returns]

end CallPath

namespace KernelFiles
variable {kernel start : KernelFiles} {process : Nat} {surroundings : Surroundings}
  {path : CallPath}

end KernelFiles
end PicoOs.Kernel
