import PicoOs.Kernel.UART
import PicoOs.Std.HashMap

/-! The files of `Kernel/FileSystem` and the look-up of paths. An object of the kernel's heap
that is a file has a `FileRef`, which stands for its address. Sizes and offsets are natural
numbers, since no file is larger than the memory. -/

namespace PicoOs.Kernel
open Library PicoOs.Std

/-- What stops the kernel. `exhausted` stands for a loop that has not come to its end. -/
inductive Crash where
  | path (fault : PathFault)
  | must
  | assertion
  | verify
  | notReached
  | fixme
  | badCast
  | nullCast
  | exhausted
  deriving DecidableEq

def must {α : Type} : Option α → Except Crash α
  | some value => .ok value
  | none => .error .must

/-- A macro of the source that stops the kernel with the fault unless its condition holds. -/
def require (fault : Crash) (condition : Prop) [Decidable condition] : Except Crash Unit :=
  if condition then .ok () else .error fault

def ofPath {α : Type} : Except PathFault α → Except Crash α := Except.mapError .path

abbrev FileRef := Nat

inductive FileSystemId where
  | invalid
  | flash
  | ram
  deriving DecidableEq

abbrev ModeFlags := UInt32

namespace ModeFlags

def format : ModeFlags := 0b1111
def directory : ModeFlags := 0b0001
def device : ModeFlags := 0b0010
def regular : ModeFlags := 0b0011
def invalid : ModeFlags := 0

end ModeFlags

/-- What the classes that derive from `VirtualFile` add to it. `MemoryDirectory` and
`FlashDirectory` are told apart by their `m_filesystem`. -/
inductive FileKind where
  | memoryFile (data : List UInt8)
  | flashFile (data : List UInt8)
  | directory (entries : HashMap ImmutableString FileRef)
  | consoleFile

structure VirtualFile where
  filesystem : FileSystemId
  ino : UInt32
  mode : ModeFlags
  owningUser : UInt32
  owningGroup : UInt32
  size : Nat
  deviceId : UInt32
  kind : FileKind

namespace VirtualFile

def format (file : VirtualFile) : ModeFlags := file.mode &&& ModeFlags.format

/-- `dynamic_cast<VirtualDirectory*>` and `m_entries`. -/
def entries (file : VirtualFile) : Option (HashMap ImmutableString FileRef) :=
  match file.kind with
  | .directory entries => some entries
  | _ => none

def setEntry (file : VirtualFile) (name : ImmutableString) (target : FileRef) : VirtualFile :=
  match file.kind with
  | .directory entries => { file with kind := .directory (entries.set name target) }
  | _ => file

/-- The constructor of `VirtualFile`, whose `m_size` is in memory that is zero at first. -/
def construct (kind : FileKind) : VirtualFile where
  filesystem := .invalid
  ino := 0
  mode := ModeFlags.invalid
  owningUser := 0
  owningGroup := 0
  size := 0
  deviceId := 0xdead
  kind := kind

def truncate (file : VirtualFile) : Except Crash VirtualFile :=
  match file.kind with
  | .memoryFile _ => .ok { file with kind := .memoryFile [], size := 0 }
  | _ => .error .notReached

/-- `MemoryFile::append`, which other files do not have. -/
def append (file : VirtualFile) (bytes : List UInt8) : VirtualFile :=
  match file.kind with
  | .memoryFile data =>
      { file with kind := .memoryFile (data ++ bytes), size := file.size + bytes.length }
  | _ => file

end VirtualFile

/-- `nextIno` and `root` are those of `MemoryFileSystem`, `devices` that of `DeviceFileSystem`,
and `console` is `ConsoleFile::the()`. -/
structure FileSystem where
  files : FileRef → VirtualFile
  next : FileRef
  nextIno : UInt32
  root : FileRef
  devices : HashMap Nat FileRef
  console : FileRef

inductive VirtualFileHandle where
  | memoryFile (file : FileRef) (offset : Nat)
  | flashFile (file : FileRef) (offset : Nat)
  | directory (directory : FileRef) (iterator : Option ImmutableString)
  | console
  deriving DecidableEq

inductive Errno where
  | ENOTDIR
  | EINTR
  | ERANGE
  | ENOENT
  | EACCES
  | EISDIR
  | EMAX
  deriving DecidableEq

def Errno.code : Errno → Int
  | .ENOTDIR => 1
  | .EINTR => 2
  | .ERANGE => 3
  | .ENOENT => 4
  | .EACCES => 5
  | .EISDIR => 6
  | .EMAX => 7

/-- A string literal, which has no character that is larger than a byte. -/
def literal (string : String) : ImmutableString :=
  string.toList.map fun char => UInt8.ofNat char.toNat

def dot : ImmutableString := literal "."
def dotdot : ImmutableString := literal ".."

namespace FileSystem

/-- `new` -/
def allocate (fs : FileSystem) (file : VirtualFile) : FileSystem :=
  { fs with files := Function.update fs.files fs.next file, next := fs.next + 1 }

def modify (fs : FileSystem) (file : FileRef) (value : VirtualFile) : FileSystem :=
  { fs with files := Function.update fs.files file value }

def setEntry (fs : FileSystem) (directory : FileRef) (name : ImmutableString) (target : FileRef) :
    FileSystem :=
  fs.modify directory ((fs.files directory).setEntry name target)

/-- The constructors of `MemoryFile` and `MemoryDirectory` have this in common. -/
def memoryFile (fs : FileSystem) (mode : ModeFlags) (size : Nat) (kind : FileKind) : VirtualFile :=
  { VirtualFile.construct kind with filesystem := .ram, ino := fs.nextIno, mode, size }

def newMemoryFile (fs : FileSystem) : FileSystem :=
  { fs.allocate (fs.memoryFile ModeFlags.regular 0 (.memoryFile [])) with nextIno := fs.nextIno + 1 }

def newMemoryDirectory (fs : FileSystem) : FileSystem :=
  let directory := fs.next
  let fs := { fs.allocate (fs.memoryFile ModeFlags.directory 0xdead (.directory .empty)) with nextIno := fs.nextIno + 1 }
  (fs.setEntry directory dot directory).setEntry directory dotdot directory

/-- The iterations of the loop in `lookup`. -/
def lookupFrom (fs : FileSystem) (file : FileRef) : List ImmutableString → Except Crash FileRef
  | [] => .ok file
  | component :: components => do
    match (fs.files file).entries with
    | none => .error .assertion
    | some entries =>
      let file ← must (entries.getOpt component)
      fs.lookupFrom file components

def lookup (fs : FileSystem) (path : Path) : Except Crash FileRef := do
  require .verify path.isAbsolute
  fs.lookupFrom fs.root path.components

/-- The iterations of the loop in `try_lookup`. -/
def tryLookupFrom (fs : FileSystem) (file : FileRef) : List ImmutableString → Except Errno FileRef
  | [] => .ok file
  | component :: components =>
    match (fs.files file).entries with
    | none => .error .ENOTDIR
    | some entries =>
      match entries.getOpt component with
      | none => .error .ENOENT
      | some file => fs.tryLookupFrom file components

def tryLookup (fs : FileSystem) (path : Path) : Except Crash (Except Errno FileRef) := do
  require .verify path.isAbsolute
  .ok (fs.tryLookupFrom fs.root path.components)

def createHandleImpl (fs : FileSystem) (file : FileRef) : VirtualFileHandle :=
  match (fs.files file).kind with
  | .memoryFile _ => .memoryFile file 0
  | .flashFile _ => .flashFile file 0
  | .directory entries => .directory file entries.iter
  | .consoleFile => .console

/-- `VirtualFile::create_handle` calls itself for what is registered for the device. -/
def createHandleWithin (fs : FileSystem) : Nat → FileRef → Except Crash VirtualFileHandle
  | 0, _ => .error .exhausted
  | rounds + 1, file =>
    if (fs.files file).format = ModeFlags.device then do
      let device ← must (fs.devices.getOpt (fs.files file).deviceId.toNat)
      fs.createHandleWithin rounds device
    else .ok (fs.createHandleImpl file)

/-- No device comes twice in a chain of calls that ends. -/
def createHandle (fs : FileSystem) (file : FileRef) : Except Crash VirtualFileHandle :=
  fs.createHandleWithin (fs.devices.entries.length + 1) file

end FileSystem
end PicoOs.Kernel
