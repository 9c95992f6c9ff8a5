import PicoOs.Kernel.Threads.Thread
import PicoOs.Library.Machine
import PicoOs.Library.Thumb

/-! The code of `cpu.S`, and threads that it switches between on one processor. What the handlers
call is written in C++: it decides which thread is next. -/

namespace PicoOs.Kernel
open Library Thumb

def pushRegister (register : Register) : List Instruction :=
  [.mov .r1 register, .subs .r0 4, .str .r1 .r0 0]

def pushCalleeSavedRegisters : List Instruction :=
  [.r4, .r5, .r6, .r7, .r8, .r9, .r10, .r11].flatMap pushRegister

def popRegister (register : Register) : List Instruction :=
  [.ldr .r1 .r0 0, .adds .r0 4, .mov register .r1]

def popCalleeSavedRegisters : List Instruction :=
  [.r11, .r10, .r9, .r8, .r7, .r6, .r5, .r4].flatMap popRegister

/-- `isr_pendsv` and `isr_svcall` up to the call, which finds the context in `r0`. The links are the
addresses behind the branches. -/
def isrBegin (pushLink callLink : UInt32) : List Instruction :=
  [.mrsPsp .r0, .isb, .bl pushLink] ++ pushCalleeSavedRegisters ++ [.bl callLink]

/-- The rest of both, up to the branch to `r0`. -/
def isrEnd (popLink : UInt32) : List Instruction :=
  [.bl popLink] ++ popCalleeSavedRegisters ++ [.msrPsp .r0, .isb, .ldrLiteral .r0 0xfffffffd]

/-- `restore_context_from_thread_mode`, where `sp` is the stack pointer of the thread. -/
def restoreContextFromThreadMode (popLink : UInt32) : List Instruction :=
  [.bl popLink] ++ popCalleeSavedRegisters ++
  [.mov .sp .r0, .ldr .r0 .sp 0x10, .mov .ip .r0, .ldr .r0 .sp 0x14, .mov .lr .r0,
    .ldr .r0 .sp 0x1c, .msrApsr .r0, .isb,
    .pop [.r0, .r1, .r2, .r3], .str .r0 .sp 0, .str .r1 .sp 4, .pop [.r0, .r1], .popPc]

namespace FullRegisterContext

/-- The words of the context in the order of the structure. -/
def words (context : FullRegisterContext) : List UInt32 :=
  [context.r11, context.r10, context.r9, context.r8, context.r7, context.r6, context.r5, context.r4,
    context.r0, context.r1,
    context.r2, context.r3, context.ip, context.lr, context.pc, context.xpsr]

/-- The context at an address. -/
def load (memory : Memory) (address : Nat) : FullRegisterContext :=
  let word (index : Nat) : UInt32 := .ofNat (memory.load (address + 4 * index))
  ⟨word 0, word 1, word 2, word 3, word 4, word 5, word 6, word 7, word 8, word 9, word 10, word 11,
    word 12, word 13, word 14, word 15⟩

def current (processor : Processor) : FullRegisterContext where
  r11 := processor.registers .r11
  r10 := processor.registers .r10
  r9 := processor.registers .r9
  r8 := processor.registers .r8
  r7 := processor.registers .r7
  r6 := processor.registers .r6
  r5 := processor.registers .r5
  r4 := processor.registers .r4
  r0 := processor.registers .r0
  r1 := processor.registers .r1
  r2 := processor.registers .r2
  r3 := processor.registers .r3
  ip := processor.registers .ip
  lr := processor.registers .lr
  pc := processor.pc
  xpsr := processor.xpsr

/-- `offsetof(FullRegisterContext, r0)` and `sizeof(FullRegisterContext)` -/
def r0Offset : Nat := 32
def size : Nat := 64

def stackPointer (memory : Memory) (address : Nat) : Nat :=
  address + size + 4 * padded (load memory address).xpsr

end FullRegisterContext

/-- What a function that is called may leave in the registers that it need not keep. -/
structure Scratch where
  r1 : UInt32
  r2 : UInt32
  r3 : UInt32
  ip : UInt32
  lr : UInt32
  xpsr : UInt32

/-- `scheduler_next` or `syscall` returns the address of a context. It works on another stack. -/
def Scratch.call (scratch : Scratch) (context : Nat) (processor : Processor) : Processor where
  registers := fun
    | .r0 => .ofNat context
    | .r1 => scratch.r1
    | .r2 => scratch.r2
    | .r3 => scratch.r3
    | .ip => scratch.ip
    | .lr => scratch.lr
    | other => processor.registers other
  pc := processor.pc
  xpsr := scratch.xpsr
  memory := processor.memory

/-- `stashed` has the pointers in `m_stashed_context`. -/
structure SwitchState where
  processor : Processor
  active : ThreadId
  stashed : ThreadId → Option Nat

structure Links where
  push : UInt32
  call : UInt32
  pop : UInt32

inductive SwitchEvent where
  | compute (processor : Processor)
  | interrupt (number : Nat) (next : ThreadId) (links : Links) (scratch : Scratch)
  | storeReturn (caller : ThreadId) (value : UInt32)
  | setup (thread : ThreadId) (address : Nat) (context : FullRegisterContext)
  | destroy (thread : ThreadId)

namespace SwitchState

/-- Nothing between the two addresses belongs to the context of a suspended thread. -/
def Free (core : SwitchState) (start stop : Nat) : Prop :=
  ∀ thread address, core.stashed thread = some address →
    stop ≤ address ∨ FullRegisterContext.stackPointer core.processor.memory address ≤ start

/-- Where the context of a thread is put whose registers these are. -/
def contextAddress (processor : Processor) : Nat := processor.frameAddress - 32

/-- A processor that can be interrupted: there is room for the context on its stack. -/
structure Interruptible (core : SwitchState) (processor : Processor) : Prop where
  aligned : processor.address .sp % 4 = 0
  room : 68 < processor.address .sp
  clear : padded processor.xpsr = 0
  free : core.Free (contextAddress processor) (processor.address .sp)

/-- Threads leave the contexts of others alone. -/
def permitted (core : SwitchState) : SwitchEvent → Prop
  | .compute processor => core.Interruptible processor ∧
    ∀ thread address, core.stashed thread = some address →
      core.processor.memory.Agree processor.memory address
        (FullRegisterContext.stackPointer core.processor.memory address)
  | .interrupt number next _ _ => number < 2 ^ 9 ∧ (next = core.active ∨ (core.stashed next).isSome)
  | .storeReturn caller _ => (core.stashed caller).isSome
  | .setup thread address context =>
      core.stashed thread = none ∧ thread ≠ core.active ∧ 0 < address ∧ address % 8 = 0 ∧
      address + FullRegisterContext.size < 2 ^ 32 ∧ padded context.xpsr = 0 ∧
        core.Free address (address + FullRegisterContext.size) ∧
      (address + FullRegisterContext.size ≤ contextAddress core.processor ∨
        core.processor.address .sp ≤ address)
  | .destroy _ => True

/-- An exception is taken, the handler decides, and the processor returns to a thread. -/
def interrupt (core : SwitchState) (number : Nat) (next : ThreadId) (links : Links)
    (scratch : Scratch) : Except Thumb.Fault SwitchState := do
  let processor ← run (isrBegin links.push links.call) (enterException number core.processor)
  let stashed := Function.update core.stashed core.active (some (processor.address .r0))
  let context := (stashed next).getD 0
  let processor ← run (isrEnd links.pop) (scratch.call context processor)
  .ok ⟨returnFromException processor, next, Function.update stashed next none⟩

def store (core : SwitchState) (memory : Memory) : SwitchState :=
  { core with processor.memory := memory }

def execute (core : SwitchState) : SwitchEvent → Except Thumb.Fault SwitchState
  | .compute processor => .ok { core with processor }
  | .interrupt number next links scratch => core.interrupt number next links scratch
  | .storeReturn caller value =>
    .ok (core.store (core.processor.memory.store ((core.stashed caller).getD 0 + FullRegisterContext.r0Offset) value.toNat))
  | .setup thread address context =>
    .ok { core.store (storeWords core.processor.memory address context.words) with
      stashed := Function.update core.stashed thread (some address) }
  | .destroy thread => .ok { core with stashed := Function.update core.stashed thread none }

def machine : Machine SwitchState SwitchEvent Thumb.Fault := ⟨permitted, execute⟩

end SwitchState

/-! What the switches are for: threads that have registers of their own. -/

structure Registers where
  context : FullRegisterContext
  sp : Nat
  deriving DecidableEq

structure Threads where
  active : ThreadId
  registers : ThreadId → Option Registers

namespace Threads

def set (threads : Threads) (thread : ThreadId) (registers : Option Registers) : Threads :=
  { threads with registers := Function.update threads.registers thread registers }

def step (threads : Threads) : SwitchEvent → Threads
  | .compute processor =>
      threads.set threads.active (some ⟨.current processor, processor.address .sp⟩)
  | .interrupt _ next _ _ => { threads with active := next }
  | .storeReturn caller value => threads.set caller
      ((threads.registers caller).map fun registers => { registers with context.r0 := value })
  | .setup thread address context =>
      threads.set thread (some ⟨context, address + FullRegisterContext.size⟩)
  | .destroy thread => if thread = threads.active then threads else threads.set thread none

end Threads

/-- The registers of all threads, as the processor and the memory have them. -/
def SwitchState.view (core : SwitchState) : Threads where
  active := core.active
  registers thread :=
    if thread = core.active then some ⟨.current core.processor, core.processor.address .sp⟩
    else (core.stashed thread).map fun address =>
      let context := FullRegisterContext.load core.processor.memory address
      ⟨{ context with xpsr := withPadding context.xpsr 0 },
        FullRegisterContext.stackPointer core.processor.memory address⟩

end PicoOs.Kernel
