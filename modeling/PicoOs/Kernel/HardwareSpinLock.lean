import PicoOs.Library.Outcome

/-! The spin locks of the processor. The other core and the hardware decide what a read of
the register gives, so that the reads of a call are given as a sequence. -/

namespace PicoOs.Kernel
open Library

/-- The assertion in the destructor of `MaskedInterruptGuard`. -/
inductive GuardFault where
  | verify
  deriving DecidableEq

/-- `PRIMASK` of the core that makes the call. -/
structure Core where
  interruptsEnabled : Bool
  deriving DecidableEq

def disableInterrupts (core : Core) : Bool × Core :=
  if core.interruptsEnabled then (true, { core with interruptsEnabled := false }) else (false, core)

def enableInterrupts (core : Core) : Core := { core with interruptsEnabled := true }

structure MaskedInterruptGuard where
  shouldReenableInterrupts : Bool
  deriving DecidableEq

namespace MaskedInterruptGuard

def construct (core : Core) : MaskedInterruptGuard × Core :=
  let (shouldReenableInterrupts, core) := disableInterrupts core
  (⟨shouldReenableInterrupts⟩, core)

def destruct (guard : MaskedInterruptGuard) (core : Core) : Except GuardFault Core :=
  if guard.shouldReenableInterrupts then
    if ¬core.interruptsEnabled then .ok (enableInterrupts core) else .error .verify
  else .ok core

end MaskedInterruptGuard

namespace HardwareSpinLock

/-- Where a call of `lock` is: in front of the guard, of the load and of the test, behind the
loop, which is in front of the destructor of the guard, and at its end. -/
inductive LockPoint where
  | entry
  | load (guard : MaskedInterruptGuard)
  | test (guard : MaskedInterruptGuard) (value : UInt32)
  | leave (guard : MaskedInterruptGuard)
  | returned
  deriving DecidableEq

/-- A call of `lock`, with the number of the reads that it has made. -/
structure LockCall where
  core : Core
  point : LockPoint
  reads : Nat
  deriving DecidableEq

def lock (core : Core) : LockCall := ⟨core, .entry, 0⟩

/-- `register` gives the value of each read. The loop has no other exit than the end of its
condition, `true`: `continue` and the end of the body both lead to the load. -/
def step (register : Nat → UInt32) (call : LockCall) : Except GuardFault LockCall :=
  match call.point with
  | .entry =>
    let (guard, core) := MaskedInterruptGuard.construct call.core
    .ok { call with core, point := .load guard }
  | .load guard =>
      .ok { call with point := .test guard (register call.reads), reads := call.reads + 1 }
  | .test guard value =>
    if value ≠ 0 then .ok { call with point := .load guard }
    else .ok { call with point := .load guard }
  | .leave guard => do
    let core ← guard.destruct call.core
    .ok { call with core, point := .returned }
  | .returned => .ok call

/-- So many steps of a call. -/
def steps (register : Nat → UInt32) : Nat → LockCall → Except GuardFault LockCall
  | 0, call => .ok call
  | count + 1, call => do
    let call ← step register call
    steps register count call

/-- `unlock`, with the value that it writes to the register. -/
def unlock (core : Core) : Except GuardFault (UInt32 × Core) := do
  let (guard, core) := MaskedInterruptGuard.construct core
  let value : UInt32 := 1
  let core ← guard.destruct core
  .ok (value, core)

end HardwareSpinLock
end PicoOs.Kernel
