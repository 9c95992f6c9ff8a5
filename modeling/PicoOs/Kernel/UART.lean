import PicoOs.Library.Machine
import PicoOs.Library.Memory

/-! The input half of `Kernel/Interrupt/UART`. The DMA puts the bytes that arrive into a
ring, also while `UART::read` runs: bytes can arrive between any two of its steps. -/

namespace PicoOs.Kernel
open Library

def bufferSize : Nat := 1024

inductive UARTFault where
  | verify
  | fixmeAssert
  deriving DecidableEq

/-- What `UART::read` does next: the assertion of `input_buffer_size`, the subtraction, with
the condition of the loop, or the body of the loop. -/
inductive ReadPoint where
  | assertion
  | subtraction
  | body
  deriving DecidableEq

/-- A call of `UART::read`, with the bytes that it has stored. Their number is `index`. -/
structure Reading where
  point : ReadPoint
  size : Nat
  bytes : List UInt8

/-- `arrived` are all bytes that have arrived, and `returned` are those that calls have returned. -/
structure UART where
  inputBuffer : Nat
  memory : Memory
  consumeOffsetRaw : Nat
  reading : Option Reading
  arrived : List UInt8
  returned : List UInt8

inductive UARTEvent where
  | arrive (byte : UInt8)
  | read (size : Nat)
  | step

namespace UART

def initial (inputBuffer : Nat) (memory : Memory) : UART where
  inputBuffer := inputBuffer
  memory := memory
  consumeOffsetRaw := 0
  reading := none
  arrived := []
  returned := []

/-- Where the DMA puts the next byte. -/
def writeAddr (uart : UART) : Nat := uart.inputBuffer + uart.arrived.length % bufferSize

def inputBufferConsumeOffset (uart : UART) : Nat := uart.consumeOffsetRaw % bufferSize

def inputBufferAvaliableOffset (uart : UART) : Except UARTFault Nat :=
  if uart.writeAddr ≥ uart.inputBuffer then .ok (uart.writeAddr - uart.inputBuffer)
  else .error .verify

/-- The bytes that calls have taken out of the buffer. -/
def taken (uart : UART) : List UInt8 := uart.returned ++ (uart.reading.elim [] Reading.bytes)

def advance (uart : UART) (reading : Reading) : Except UARTFault UART :=
  match reading.point with
  | .assertion => do
    let avaliable ← uart.inputBufferAvaliableOffset
    if avaliable ≥ uart.inputBufferConsumeOffset then
      .ok { uart with reading := some { reading with point := .subtraction } }
    else .error .fixmeAssert
  | .subtraction => do
    let avaliable ← uart.inputBufferAvaliableOffset
    if reading.bytes.length < min (minus avaliable uart.inputBufferConsumeOffset) reading.size then
      .ok { uart with reading := some { reading with point := .body } }
    else .ok { uart with reading := none, returned := uart.returned ++ reading.bytes }
  | .body =>
    let byte := uart.memory (uart.inputBuffer + uart.inputBufferConsumeOffset)
    .ok { uart with
      consumeOffsetRaw := wrap (uart.consumeOffsetRaw + 1)
      reading := some { reading with point := .assertion, bytes := reading.bytes ++ [byte] } }

def execute (uart : UART) : UARTEvent → Except UARTFault UART
  | .arrive byte => .ok { uart with memory := uart.memory.write uart.writeAddr byte, arrived := uart.arrived ++ [byte] }
  | .read size => .ok { uart with reading := some ⟨.assertion, size, []⟩ }
  | .step =>
    match uart.reading with
    | some reading => uart.advance reading
    | none => .ok uart

/-- There is one call at a time, and a byte only arrives when fewer than 1023 are unread. -/
def permitted (uart : UART) : UARTEvent → Prop
  | .arrive _ => uart.arrived.length < uart.taken.length + 1023
  | .read _ => uart.reading = none
  | .step => uart.reading.isSome

instance (uart : UART) (event : UARTEvent) : Decidable (uart.permitted event) :=
  match event with
  | .arrive _ => inferInstanceAs (Decidable (uart.arrived.length < uart.taken.length + 1023))
  | .read _ => decidable_of_iff (uart.reading.isNone) Option.isNone_iff_eq_none
  | .step => inferInstanceAs (Decidable (uart.reading.isSome = true))

def machine : Machine UART UARTEvent UARTFault := ⟨permitted, execute⟩

instance (uart : UART) (event : UARTEvent) : Decidable (machine.permitted uart event) :=
  inferInstanceAs (Decidable (uart.permitted event))

end UART
end PicoOs.Kernel
