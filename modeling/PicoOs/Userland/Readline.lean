import PicoOs.Userland.Malloc
import PicoOs.Userland.Stdio
import PicoOs.Userland.Store

/-! `readline` of the user library. Every `sys$read` of the standard input puts the next byte
that is typed into the buffer. -/

namespace PicoOs.Userland.Readline
open Library

/-- `waiting` stands for a read that has to wait for more input than there is. -/
inductive ReadlineFault where
  | malloc (fault : MallocFault)
  | printf (fault : Stdio.PrintfFault)
  | assert
  | abort
  | waiting
  deriving DecidableEq

def bufferSize : Nat := 256

/-- `0x7f` and `'\n'` -/
def delete : UInt8 := 0x7f
def lineFeed : UInt8 := 0x0a

/-- `"%s"` and `"\e[1D \e[1D"` -/
def promptFormat : List UInt8 := [0x25, 0x73]
def eraseFormat : List UInt8 := [0x1b, 0x5b, 0x31, 0x44, 0x20, 0x1b, 0x5b, 0x31, 0x44]

/-- A call, with the input that it has not read yet, and what it has shown. -/
structure Call where
  store : Store
  input : List UInt8
  index : Nat
  output : List UInt8

/-- The pointer that is returned, and what else the call leaves behind. -/
structure Line where
  pointer : Nat
  heap : Nat
  call : Call

def print (call : Call) (format : List UInt8) (args : List Stdio.Argument) :
    Except ReadlineFault Call := do
  let printed ← (Stdio.printf format args).mapError .printf
  .ok { call with output := call.output ++ printed.written }

/-- What an iteration of the loop leads to. -/
inductive Iteration where
  | goesOn (call : Call)
  | returns (call : Call)

/-- The body of the loop, for the byte that `sys$read` delivers. -/
def body (buffer : Nat) (call : Call) (byte : UInt8) : Except ReadlineFault Iteration :=
  let call := { call with store := call.store.put (buffer + call.index) byte }
  let (ch, store) := call.store.load (buffer + call.index)
  let call := { call with store }
  if ch = delete then
    if call.index = 0 then .ok (.goesOn call)
    else do
      let call ← print call eraseFormat []
      .ok (.goesOn { call with store := call.store.put (buffer + (call.index - 1)) 0, index := call.index - 1 })
  else
    let call := { call with index := call.index + 1, output := call.output ++ [ch] }
    if ch = lineFeed then
      if ¬call.index < bufferSize then .error .assert
      else if ¬call.index > 0 then .error .assert
      else .ok (.returns { call with store := call.store.put (buffer + (call.index - 1)) 0 })
    else .ok (.goesOn call)

/-- The loop, which reads one byte each time, and is left for `abort` when the buffer is full. -/
def loop (buffer : Nat) : List UInt8 → Call → Except ReadlineFault Call
  | [], call => if call.index < bufferSize then .error .waiting else .error .abort
  | byte :: input, call =>
    if call.index < bufferSize then do
      match ← body buffer { call with input } byte with
      | .goesOn call => loop buffer input call
      | .returns call => .ok call
    else .error .abort

def readline (symbols : HeapSymbols) (heap : Nat) (store : Store) (prompt : CString)
    (input : List UInt8) :
    Except ReadlineFault Line := do
  let call ← print ⟨store, input, 0, []⟩ promptFormat [.string prompt]
  let (buffer, heap) ← (malloc symbols heap bufferSize).mapError .malloc
  let call ← loop buffer input call
  .ok ⟨buffer, heap, call⟩

end PicoOs.Userland.Readline
