import PicoOs.Kernel.PageAllocator

/-! Threads of the kernel. A thread's place in its code is a `ProgramPoint`; between
two points it can be preempted, and everything that runs with interrupts masked is one
step. The point carries the `RefPtr<Thread>` that the frames on its stack hold. -/

namespace PicoOs.Kernel

abbrev ThreadId := Nat

structure FullRegisterContext where
  r11 : UInt32
  r10 : UInt32
  r9 : UInt32
  r8 : UInt32
  r7 : UInt32
  r6 : UInt32
  r5 : UInt32
  r4 : UInt32
  r0 : UInt32
  r1 : UInt32
  r2 : UInt32
  r3 : UInt32
  ip : UInt32
  lr : UInt32
  pc : UInt32
  xpsr : UInt32
  deriving DecidableEq

def scExit : UInt32 := 10

inductive MutexId where
  | malloc
  | pageAllocator
  deriving DecidableEq

/-- The failed assertions that matter here. `queueFull` and `queueEmpty` are the
assertions of the queues with 16 slots; `lastReference` and `staleContext` stand for
deleting a thread where that is not meant to happen and for reading a saved context
that is no longer there. -/
inductive KernelFault where
  | queueFull
  | queueEmpty
  | noActiveThread
  | noSystemHandler
  | stashValid
  | stashInvalid
  | staleContext
  | deadReference
  | lastReference
  | defaultRefcount
  | danglingRefcount
  | fallbackMasked
  | schedulerDisabled
  | wakeupActive
  | callerUnmasked
  | notReached
  deriving DecidableEq

inductive ProgramPoint where
  | unborn
  | fresh
  | dummyStart
  | dummyEnabled
  | defaultLoop
  | defaultRelease (thread : ThreadId)
  | defaultDestroying (ranges : List PageRange)
  | fallbackLoop
  | startupBegin
  | startupHandler
  | startupReady
  | startupDone
  | handlerLoop
  | handlerTake
  | handlerTaken (thread : ThreadId)
  | handlerContext (thread : ThreadId)
  | handlerSpawned
  | handlerDone
  | workerCall (thread : ThreadId)
  | workerReturn (thread : ThreadId) (value : UInt32) (shouldReturn : Bool)
  | workerStored (thread : ThreadId) (shouldReturn : Bool)
  | workerUnmasked (thread : ThreadId)
  | returned (captured : Option ThreadId)
  | dying (captured : Option ThreadId)
  | halted (captured : Option ThreadId)
  | destroyed
  | processStart
  | userMode
  deriving DecidableEq

namespace ProgramPoint

/-- Code that may allocate or free memory, and so may lock a mutex. -/
def allocates : ProgramPoint → Bool
  | defaultDestroying _ | startupBegin | startupHandler | startupReady | startupDone
  | handlerContext _ | handlerSpawned | handlerDone | workerCall _ | processStart => true
  | _ => false

def creates : ProgramPoint → Bool
  | startupReady | handlerContext _ | workerCall _ => true
  | _ => false

/-- Code that is about to call `Scheduler::trigger` unconditionally. -/
def triggers : ProgramPoint → Bool
  | dummyEnabled | fallbackLoop | dying _ => true
  | _ => false

def afterTrigger : ProgramPoint → ProgramPoint
  | dummyEnabled => halted none
  | dying captured => halted captured
  | point => point

/-- Where a thread starts that is set up by code at this point. -/
def entry : ProgramPoint → ProgramPoint
  | handlerContext thread => workerCall thread
  | _ => processStart

/-- The handler moves its reference to the caller into the lambda of the worker. -/
def afterSetup : ProgramPoint → ProgramPoint
  | handlerContext _ => handlerSpawned
  | point => point

def afterEnqueue : ProgramPoint → ProgramPoint
  | startupReady => startupDone
  | handlerSpawned => handlerDone
  | point => point

def finishes : ProgramPoint → Bool
  | startupDone | handlerDone => true
  | _ => false

def afterFinish : ProgramPoint → ProgramPoint
  | startupDone => returned none
  | handlerDone => handlerLoop
  | point => point

def isDestroying : ProgramPoint → Bool
  | defaultDestroying _ => true
  | _ => false

def isHalted : ProgramPoint → Bool
  | halted _ => true
  | _ => false

/-- The `RefPtr<Thread>`s in the frames of the code at this point. -/
def references : ProgramPoint → List ThreadId
  | defaultRelease thread | handlerTaken thread | handlerContext thread | workerCall thread
  | workerReturn thread _ _ | workerStored thread _ | workerUnmasked thread => [thread]
  | returned captured | dying captured | halted captured => captured.toList
  | _ => []

end ProgramPoint

/-- The local `RefPtr` to a thread that is being created. -/
inductive Child where
  | none
  | fresh (thread : ThreadId)
  | prepared (thread : ThreadId)
  deriving DecidableEq

def Child.references : Child → List ThreadId
  | none => []
  | fresh thread | prepared thread => [thread]

/-- `locks` lists the mutexes between whose `lock()` and `unlock()` the thread is;
`acquiring` is the mutex in whose `lock()` it was blocked. -/
structure Thread where
  refcount : Nat
  privileged : Bool
  maskedFromScheduler : Bool
  isDefaultThread : Bool
  stashedContext : Option FullRegisterContext
  ownedPageRanges : List PageRange
  point : ProgramPoint
  child : Child
  locks : List MutexId
  acquiring : Option MutexId
  deriving DecidableEq

namespace Thread

def unborn : Thread where
  refcount := 0
  privileged := false
  maskedFromScheduler := false
  isDefaultThread := false
  stashedContext := none
  ownedPageRanges := []
  point := .unborn
  child := .none
  locks := []
  acquiring := none

def references (thread : Thread) : List ThreadId :=
  thread.point.references ++ thread.child.references

/-- `Thread::construct`, with the reference count of a new object. -/
def construct : Thread := { unborn with refcount := 1, point := .fresh }

/-- `setup_context` for a closure that starts at `entry`. -/
def setupContext (thread : Thread) (stack : PageRange) (context : FullRegisterContext)
    (entry : ProgramPoint) :
    Except KernelFault Thread :=
  if thread.stashedContext.isSome then .error .stashValid
  else .ok { thread with
    ownedPageRanges := thread.ownedPageRanges ++ [stack], stashedContext := some context,
      point := entry }

end Thread

/-- The context that `setup_context_impl` pushes. -/
def entryContext (callback argument : UInt32) : FullRegisterContext :=
  ⟨0, 0, 0, 0, 0, 0, 0, 0, argument, 0, 0, 0, 0, 0, callback, 0x1000000⟩

end PicoOs.Kernel
