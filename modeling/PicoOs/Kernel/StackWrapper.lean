import PicoOs.Std.MemoryAllocator
import PicoOs.Library.CStrings

/-! The stack of a new process, and how `sys$posix_spawn` and `Process::create` put the
arguments of the program on it. -/

namespace PicoOs.Kernel
open Library PicoOs.Std

/-- The assertion in `reserve`. -/
inductive StackFault where
  | exhausted
  deriving DecidableEq

/-- `memory` is the memory of the machine, into which the stack grows down. -/
structure StackWrapper where
  bytes : Bytes
  top : Nat
  memory : Memory

namespace StackWrapper

def construct (memory : Memory) (bytes : Bytes) : StackWrapper :=
  ⟨bytes, bytes.data + bytes.size, memory⟩

def reserve (stack : StackWrapper) (count : Nat) : Except StackFault StackWrapper :=
  if stack.bytes.data + count ≤ stack.top then .ok { stack with top := stack.top - count }
  else .error .exhausted

def align (stack : StackWrapper) (boundary : Nat) : Except StackFault StackWrapper :=
  if stack.top % boundary ≠ 0 then stack.reserve (stack.top % boundary) else .ok stack

/-- `push_value` for a pointer, which is then at the top. -/
def pushValue (stack : StackWrapper) (value : Nat) : Except StackFault StackWrapper := do
  let stack ← stack.reserve 4
  .ok { stack with memory := stack.memory.store stack.top value }

/-- The copy of the string is then at the top. -/
def pushCString (stack : StackWrapper) (string : CString) : Except StackFault StackWrapper := do
  let stack ← stack.reserve (string.length + 1)
  let stack ← stack.align 4
  .ok { stack with memory := stack.memory.strcpy stack.top string }

/-- The first loop of `push_cstring_array`, with the pointers it collects. -/
def pushCStrings (stack : StackWrapper) : List CString → Except StackFault (List Nat × StackWrapper)
  | [] => .ok ([], stack)
  | string :: array => do
    let stack ← stack.pushCString string
    let (pointers, after) ← stack.pushCStrings array
    .ok (stack.top :: pointers, after)

/-- The second loop, which pushes the last pointer first. -/
def pushPointers (stack : StackWrapper) (pointers : List Nat) : Except StackFault StackWrapper :=
  pointers.reverse.foldlM pushValue stack

/-- The array is then at the top. -/
def pushCStringArray (stack : StackWrapper) (array : List CString) :
    Except StackFault StackWrapper := do
  let (pointers, stack) ← stack.pushCStrings array
  let stack ← stack.pushValue 0
  stack.pushPointers pointers

end StackWrapper

/-- What the program finds in `r0`, `r1` and `r2`, and in memory. -/
structure ProgramEntry where
  argc : Nat
  argv : Nat
  envp : Nat
  memory : Memory

/-- The part of `Process::create` that builds the stack of the program and enters it. -/
def enterProgram (memory : Memory) (bytes : Bytes) (arguments environment : List CString) :
    Except StackFault ProgramEntry := do
  let stack ← (StackWrapper.construct memory bytes).pushCStringArray arguments
  let argv := stack.top
  let stack ← stack.pushCStringArray environment
  .ok { argc := wrap arguments.length, argv, envp := stack.top, memory := stack.memory }

/-- The two loops of `sys$posix_spawn`: the vectors `arguments` and `environment`. The second
loop appends to `arguments` as well. -/
def gatherArguments (argv envp : List CString) : List CString × List CString :=
  let arguments := argv.foldl (fun arguments value => arguments ++ [value]) []
  let arguments := envp.foldl (fun arguments value => arguments ++ [value]) arguments
  (arguments, [])

/-- How the program is entered that `sys$posix_spawn` starts. -/
def spawnProgram (memory : Memory) (bytes : Bytes) (argv envp : List CString) :
    Except StackFault ProgramEntry :=
  let (arguments, environment) := gatherArguments argv envp
  enterProgram memory bytes arguments environment

end PicoOs.Kernel
