import PicoOs.Std.Format
import PicoOs.Library.CStrings

/-! `printf` of the user library. The format is the list of its bytes without the terminator, and
an argument is a word or a string that a pointer leads to. -/

namespace PicoOs.Userland.Stdio
open Library

inductive PrintfFault where
  | abort
  | assert
  | argument
  | exhausted
  deriving DecidableEq

inductive Argument where
  | word (value : BitVec 32)
  | string (str : CString)
  deriving DecidableEq

/-- `'%'`, `'s'`, `'h'`, `'p'`, `'z'`, `'u'` and `'i'` -/
def percentSign : UInt8 := 0x25
def letterS : UInt8 := 0x73
def letterH : UInt8 := 0x68
def letterP : UInt8 := 0x70
def letterZ : UInt8 := 0x7a
def letterU : UInt8 := 0x75
def letterI : UInt8 := 0x69

/-- The loop that fills the buffer from its end. -/
def formatDigits : Nat → Nat → List UInt8 → List UInt8
  | 0, _, buffer => buffer
  | ndigits + 1, value, buffer =>
      formatDigits ndigits (value / 16) (Std.hexDigits.getD (value % 16) 0 :: buffer)

def formatInteger (isNegative : Bool) (value bits : Nat) : List UInt8 :=
  (if isNegative then [0x2d] else []) ++ [0x30, 0x78] ++ formatDigits (bits / 4) value []

/-- What `printf` has passed to `putchar` is `written`. -/
structure Printing where
  format : List UInt8
  args : List Argument
  written : List UInt8
  nwritten : Int
  deriving DecidableEq

namespace Printing
variable (state : Printing)

/-- `va_arg` of an integer type. Every integer is passed in a word. -/
def word : Except PrintfFault (BitVec 32 × List Argument) :=
  match state.args with
  | .word value :: args => .ok (value, args)
  | _ => .error .argument

/-- `va_arg(ap, const char*)` -/
def string : Except PrintfFault (CString × List Argument) :=
  match state.args with
  | .string str :: args => .ok (str, args)
  | _ => .error .argument

end Printing

def head (format : List UInt8) : UInt8 := format.headD 0

def tryFlag (flag : UInt8) (format : List UInt8) : Bool × List UInt8 :=
  if head format = flag then (true, format.tail) else (false, format)

def flagSmall : List UInt8 → Nat × List UInt8
  | [] => (0, [])
  | ch :: format =>
    if ch = letterH then
      let (small, format) := flagSmall format
      (small + 1, format)
    else (0, ch :: format)

def toInt (value : Int) : Int := value.bmod (2 ^ 32)

/-- `int` and `ssize_t` have the same width. -/
def formatSigned (value : BitVec 32) : List UInt8 :=
  if value.toInt < 0 then formatInteger true (-value).toNat 32
  else formatInteger false value.toNat 32

/-- What follows a percent sign. -/
def printDirective (state : Printing) : Except PrintfFault Printing :=
  if head state.format = percentSign then
    .ok { state with format := state.format.tail, written := state.written ++ [percentSign] }
  else if head state.format = letterS then do
    let (str, args) ← state.string
    .ok {
      format := state.format.tail
      args
      written := state.written ++ str.bytes
      nwritten := toInt (state.nwritten + str.length)
    }
  else
    let (small, format) := flagSmall state.format
    let (pointer, format) := tryFlag letterP format
    let (size, format) := tryFlag letterZ format
    if head format = letterU ∨ pointer then
      let format := if pointer then format else format.tail
      if size ∨ pointer then do
        let (value, args) ← state.word
        .ok { state with format, args, written := state.written ++ formatInteger false value.toNat 32 }
      else if small = 1 then do
        let (value, args) ← state.word
        .ok { state with format, args, written := state.written ++ formatInteger false (value.setWidth 16).toNat 16 }
      else if small = 0 then do
        let (value, args) ← state.word
        .ok { state with format, args, written := state.written ++ formatInteger false value.toNat 32 }
      else .error .assert
    else if head format = letterI then do
      let (value, args) ← state.word
      .ok { state with format := format.tail, args, written := state.written ++ formatSigned value }
    else .error .abort

def printStep (state : Printing) : Except PrintfFault Printing :=
  if head state.format = percentSign then printDirective { state with format := state.format.tail }
  else .ok {
    state with
    format := state.format.tail
    written := state.written ++ [head state.format]
    nwritten := toInt (state.nwritten + 1)
  }

def printfFrom : Nat → Printing → Except PrintfFault Printing
  | 0, _ => .error .exhausted
  | rounds + 1, state =>
    if head state.format = 0 then .ok state
    else do
      let state ← printStep state
      printfFrom rounds state

/-- Each round of the loop consumes a byte. -/
def printf (format : List UInt8) (args : List Argument) : Except PrintfFault Printing :=
  printfFrom (format.length + 1) ⟨format, args, [], 0⟩

end PicoOs.Userland.Stdio
