import PicoOs.Kernel.FileSystem.VirtualFileSystem

/-! What `read` and `write` of the file handles do, those of `Kernel/ConsoleDevice` included. -/

namespace PicoOs.Kernel
open Library PicoOs.Std

/-- What a call meets outside of the files: the bytes that arrive at the UART before each
step of `UART::read`, whether the UART is writable each time it is asked, and how many
threads are queued in the scheduler. The loops of the console are followed for `rounds`. -/
structure Surroundings where
  arrivals : Nat → List UInt8
  writable : Nat → Bool
  queuedThreads : Nat
  rounds : Nat

/-- What a handle puts into the buffer of the caller. -/
inductive Delivery where
  | bytes (bytes : List UInt8)
  | directoryInfo (name : ImmutableString) (ino : UInt32)
  deriving DecidableEq

def slice (bytes : List UInt8) (offset : Nat) : Except Crash (List UInt8) := do
  require .verify (offset ≤ bytes.length)
  .ok (bytes.drop offset)

/-- `sizeof(UserlandDirectoryInfo)`, of which `d_name` takes 252 bytes. -/
def directoryInfoSize : Nat := 256
def directoryNameSize : Nat := 252

/-- `StringView::strcpy_to`, into a buffer of the size. -/
def strcpyTo (name : ImmutableString) (size : Nat) : Except Crash ImmutableString := do
  require .verify (size ≥ name.length + 1)
  .ok name

def UARTFault.crash : UARTFault → Crash
  | .verify => .verify
  | .fixmeAssert => .fixme

namespace UART

def receive (uart : UART) (bytes : List UInt8) : Except Crash UART :=
  (bytes.foldlM (fun (uart : UART) byte => uart.execute (.arrive byte)) uart).mapError
    UARTFault.crash

/-- How many bytes a call of `UART::write` accepts. -/
def write (writable : Nat → Bool) : Nat → List UInt8 → Nat
  | _, [] => 0
  | poll, _ :: bytes => if writable poll then write writable (poll + 1) bytes + 1 else 0

end UART

namespace Console

/-- `ConsoleFileHandle::read`, which calls `UART::read` until it returns bytes. -/
def read (arrivals : Nat → List UInt8) (size : Nat) :
    Nat → Nat → UART → Except Crash (List UInt8 × UART)
  | 0, _, _ => .error .exhausted
  | rounds + 1, step, uart => do
    let uart ← uart.receive (arrivals step)
    match uart.reading with
    | none =>
        read arrivals size rounds (step + 1) { uart with reading := some ⟨.assertion, size, []⟩ }
    | some reading =>
      let after ← (uart.advance reading).mapError UARTFault.crash
      if after.reading = none ∧ reading.bytes.length > 0 then .ok (reading.bytes, after)
      else read arrivals size rounds (step + 1) after

/-- `ConsoleFileHandle::write`, which calls `UART::write` until all bytes are accepted. A
call that is not answered for all of its bytes was answered once more than it accepted. -/
def write (writable : Nat → Bool) : Nat → Nat → List UInt8 → Except Crash Unit
  | _, _, [] => .ok ()
  | 0, _, _ :: _ => .error .exhausted
  | rounds + 1, poll, bytes =>
    let written := UART.write writable poll bytes
    write writable rounds (poll + written + 1) (bytes.drop written)

end Console

namespace FileSystem

/-- The read of a `MemoryFileHandle` or a `FlashFileHandle`, with the new offset. -/
def readData (data : List UInt8) (offset count : Nat) : Except Crash (List UInt8 × Nat) := do
  let rest ← slice data offset
  let bytes := rest.take count
  .ok (bytes, offset + bytes.length)

/-- The read of a `MemoryDirectoryHandle` or a `FlashDirectoryHandle`, with the new iterator. -/
def readEntry (fs : FileSystem) (entries : HashMap ImmutableString FileRef)
    (iterator : Option ImmutableString) (count : Nat) :
    Except Crash (Option (ImmutableString × UInt32) × Option ImmutableString) := do
  require .assertion (count = directoryInfoSize)
  match iterator with
  | none => .ok (none, none)
  | some position =>
    let (name, file) ← must (entries.at? position)
    let copied ← strcpyTo name directoryNameSize
    require .verify (count ≥ directoryInfoSize)
    .ok (some (copied, (fs.files file).ino), entries.advance position)

/-- `VirtualFileHandle::read`, with the number it returns. -/
def readHandle (fs : FileSystem) (uart : UART) (surroundings : Surroundings)
    (handle : VirtualFileHandle) (count : Nat) :
    Except Crash (Nat × Delivery × VirtualFileHandle × UART) :=
  match handle with
  | .memoryFile file offset =>
    match (fs.files file).kind with
    | .memoryFile data => do
      let (bytes, offset) ← readData data offset count
      .ok (bytes.length, .bytes bytes, .memoryFile file offset, uart)
    | _ => .error .badCast
  | .flashFile file offset =>
    match (fs.files file).kind with
    | .flashFile data => do
      let (bytes, offset) ← readData data offset count
      .ok (bytes.length, .bytes bytes, .flashFile file offset, uart)
    | _ => .error .badCast
  | .directory directory iterator =>
    match (fs.files directory).kind with
    | .directory entries => do
      match ← fs.readEntry entries iterator count with
      | (some (name, ino), iterator) =>
          .ok (count, .directoryInfo name ino, .directory directory iterator, uart)
      | (none, iterator) => .ok (0, .bytes [], .directory directory iterator, uart)
    | _ => .error .badCast
  | .console => do
    let (bytes, uart) ← Console.read surroundings.arrivals count surroundings.rounds 0 uart
    .ok (bytes.length, .bytes bytes, .console, uart)

/-- `VirtualFileHandle::write`, with the number it returns. -/
def writeHandle (fs : FileSystem) (surroundings : Surroundings) (handle : VirtualFileHandle)
    (bytes : List UInt8) :
    Except Crash (Nat × VirtualFileHandle × FileSystem) :=
  match handle with
  | .memoryFile file offset =>
    .ok (bytes.length, .memoryFile file (offset + bytes.length),
      fs.modify file ((fs.files file).append bytes))
  | .flashFile _ _ | .directory _ _ => .error .notReached
  | .console => do
    Console.write surroundings.writable surroundings.rounds 0 bytes
    .ok (bytes.length, .console, fs)

/-- `VirtualFileHandle::file` -/
def handleFile (fs : FileSystem) : VirtualFileHandle → FileRef
  | .memoryFile file _ | .flashFile file _ => file
  | .directory directory _ => directory
  | .console => fs.console

end FileSystem
end PicoOs.Kernel
