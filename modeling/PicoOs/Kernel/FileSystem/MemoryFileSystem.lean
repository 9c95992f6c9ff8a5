import PicoOs.Kernel.FileSystem.FlashFileSystem

/-! The constructors of `MemoryFileSystem` and `DeviceFileSystem`, and the files that exist
when the first process is created. -/

namespace PicoOs.Kernel
open Library PicoOs.Std

def dev : ImmutableString := literal "dev"
def bin : ImmutableString := literal "bin"
def tty : ImmutableString := literal "tty"

/-- The number of the device of the console. -/
def ttyDevice : UInt32 := 0x00010001

/-- What `dynamic_cast<VirtualDirectory&>` needs. -/
def requireDirectory (fs : FileSystem) (file : FileRef) : Except Crash Unit :=
  require .badCast ((fs.files file).entries.isSome)

/-- `ConsoleFile::initialize`, before there is any other file. -/
def consoleFileSystem : FileSystem :=
  let fs : FileSystem := ⟨fun _ => .construct .consoleFile, 0, 2, 0, .empty, 0⟩
  fs.allocate (.construct .consoleFile)

def memoryFileSystem (flashRoot : FileRef) (fs : FileSystem) : Except Crash FileSystem := do
  let root := fs.next
  let fs : FileSystem := { fs.newMemoryDirectory with root }
  require .assertion ((fs.files root).ino = 2)
  let fs := (fs.setEntry root dot root).setEntry root dotdot root
  let devDirectory := fs.next
  let fs := (fs.newMemoryDirectory.setEntry devDirectory dotdot root).setEntry root dev devDirectory
  requireDirectory fs flashRoot
  .ok ((fs.setEntry flashRoot dotdot root).setEntry root bin flashRoot)

def deviceFileSystem (fs : FileSystem) : Except Crash FileSystem := do
  let devDirectory ← fs.lookup ⟨true, [dev]⟩
  requireDirectory fs devDirectory
  let fs : FileSystem := { fs with devices := fs.devices.set ttyDevice.toNat fs.console }
  let ttyFile := fs.next
  let fs := fs.newMemoryFile
  let fs := fs.modify ttyFile { fs.files ttyFile with mode := ModeFlags.device, deviceId := ttyDevice }
  .ok (fs.setEntry devDirectory tty ttyFile)

/-- `/example.txt`, which `boot_with_scheduler` writes. -/
def addExample (fs : FileSystem) : Except Crash FileSystem := do
  let exampleFile := fs.next
  let fs := fs.newMemoryFile
  let fs := fs.modify exampleFile ((fs.files exampleFile).append (literal "Hello, world!\n"))
  let rootFile ← fs.lookup .root
  requireDirectory fs rootFile
  .ok (fs.setEntry rootFile (literal "example.txt") exampleFile)

def bootFiles (memory : Memory) (flashRoot depth : Nat) : Except Crash FileSystem := do
  let fs ← flashFileSystem memory flashRoot depth consoleFileSystem
  let fs ← memoryFileSystem consoleFileSystem.next fs
  let fs ← deviceFileSystem fs
  addExample fs

end PicoOs.Kernel
