import PicoOs.Kernel.FileSystem.VirtualFileSystem

/-! The file system in the flash. `FlashDirectory` makes an object for every file that the
records in the memory describe. -/

namespace PicoOs.Kernel
open Library PicoOs.Std

/-- What the constructors read of a `FileInfo`. -/
structure FileInfo where
  ino : Nat
  mode : Nat
  size : Nat
  data : Nat
  deriving DecidableEq

namespace FileInfo

def load (memory : Memory) (address : Nat) : FileInfo where
  ino := memory.load (wrap (address + 4))
  mode := memory.load (wrap (address + 8))
  size := memory.load (wrap (address + 16))
  data := memory.load (wrap (address + 36))

def format (info : FileInfo) : ModeFlags := UInt32.ofNat info.mode &&& ModeFlags.format

/-- The record as a `FlashFile` or a `FlashDirectory`, whose size differs. -/
def file (info : FileInfo) (size : Nat) (kind : FileKind) : VirtualFile :=
  { VirtualFile.construct kind with filesystem := .flash, ino := .ofNat info.ino, mode := .ofNat info.mode, size }

def bytes (memory : Memory) (info : FileInfo) : List UInt8 :=
  (List.range info.size).map fun index => memory (wrap (info.data + index))

def flashFile (memory : Memory) (info : FileInfo) : VirtualFile :=
  info.file info.size (.flashFile (info.bytes memory))

end FileInfo

/-- The bytes in front of the terminator, for which no more than the whole memory is searched. -/
def cstring (memory : Memory) : Nat → Nat → Except Crash ImmutableString
  | 0, _ => .error .exhausted
  | limit + 1, address =>
    if memory address = 0 then .ok []
    else List.cons (memory address) <$> cstring memory limit (wrap (address + 1))

namespace FlashDirectory

/-- `sizeof(FlashDirectoryInfo)`, and where `m_info` is. -/
def infoSize : Nat := 256
def infoOffset : Nat := 252

section
variable (memory : Memory) (construct : FileSystem → Nat → Except Crash FileSystem)

/-- What the loop makes of the record that an entry points to. -/
def addFile (fs : FileSystem) (directory : FileRef) (address : Nat) : Except Crash FileSystem :=
  let info := FileInfo.load memory address
  if info.format = ModeFlags.directory then do
    let after ← construct fs address
    .ok (after.setEntry fs.next dotdot directory)
  else do
    require .verify (info.format = ModeFlags.regular)
    .ok (fs.allocate (info.flashFile memory))

/-- The loop over the entries, which never comes to `stop` if it does not in so many rounds. -/
def addEntries : Nat → FileSystem → FileRef → Nat → Nat → Except Crash FileSystem
  | 0, _, _, _, _ => .error .exhausted
  | rounds + 1, fs, directory, entry, stop =>
    if entry = stop then .ok fs
    else do
      let after ← addFile memory construct fs directory (memory.load (wrap (entry + infoOffset)))
      let name ← cstring memory (2 ^ 32) entry
      addEntries rounds (after.setEntry directory name fs.next) directory
        (wrap (entry + infoSize)) stop

end

/-- The constructor, whose object is at `fs.next`. It calls itself for the directories that
are found inside, as deep as the stack is. -/
def construct (memory : Memory) : Nat → FileSystem → Nat → Except Crash FileSystem
  | 0, _, _ => .error .exhausted
  | depth + 1, fs, address =>
    let info := FileInfo.load memory address
    let directory := fs.next
    let fs := fs.allocate (info.file 0xdead (.directory .empty))
    let fs := (fs.setEntry directory dot directory).setEntry directory dotdot directory
    addEntries memory (construct memory depth) (info.size / infoSize + 1) fs directory info.data
      (wrap (info.data + info.size))

/-- The addresses of the records that the constructor reads, whose fields the processor only loads
from multiples of a word. -/
def records (memory : Memory) : Nat → Nat → List Nat
  | 0, _ => []
  | depth + 1, address =>
    let info := FileInfo.load memory address
    let entries := (List.range (info.size / infoSize)).map fun index =>
      wrap (info.data + index * infoSize)
    address :: entries.flatMap fun entry =>
      let target := memory.load (wrap (entry + infoOffset))
      if (FileInfo.load memory target).format = ModeFlags.directory then
        entry :: records memory depth target else [entry, target]

end FlashDirectory

/-- The constructor of `FlashFileSystem`. Its root is at `fs.next`. -/
def flashFileSystem (memory : Memory) (flashRoot depth : Nat) (fs : FileSystem) :
    Except Crash FileSystem := do
  let after ← FlashDirectory.construct memory depth fs flashRoot
  require .verify ((after.files fs.next).ino = 2)
  .ok after

end PicoOs.Kernel
