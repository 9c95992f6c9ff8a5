import PicoOs.Kernel.FileSystem.FileHandles
import PicoOs.Kernel.FileSystem.MemoryFileSystem

/-! The system calls of `Kernel/Threads/Thread` that work on files, and `sys$posix_spawn`.
A call is one step: what its handler does to the files and the handles is described as a whole.
In the source the handler runs in a worker thread that can be preempted, so that two calls can
interleave; here they are taken one at a time. `Kernel/Threads/CallPaths` has the queues that a
call passes before and after its handler. -/

namespace PicoOs.Kernel
open Library PicoOs.Std

/-- The files of a `Process`. Handles are numbered as long as there is memory for one more. -/
structure ProcessFiles where
  workingDirectory : Path
  handles : HashMap Int VirtualFileHandle
  nextHandleId : Nat

namespace ProcessFiles

def addFileHandle (process : ProcessFiles) (handle : VirtualFileHandle) : Int × ProcessFiles :=
  (process.nextHandleId, { process with
    handles := process.handles.set process.nextHandleId handle
    nextHandleId := process.nextHandleId + 1 })

def getFileHandle (process : ProcessFiles) (fd : Int) : Except Crash VirtualFileHandle :=
  must (process.handles.getOpt fd)

/-- `add_file_handle` in the constructor, which expects the number. -/
def addStandardHandle (fs : FileSystem) (ttyFile : FileRef) (process : ProcessFiles)
    (fileno : Int) : Except Crash ProcessFiles := do
  let handle ← fs.createHandle ttyFile
  let (fd, process) := process.addFileHandle handle
  require .verify (fd = fileno)
  .ok process

def construct (fs : FileSystem) : Except Crash ProcessFiles := do
  let ttyFile ← fs.lookup ⟨true, [dev, tty]⟩
  [0, 1, 2].foldlM (addStandardHandle fs ttyFile) ⟨.root, .empty, 0⟩

end ProcessFiles

structure KernelFiles where
  fileSystem : FileSystem
  uart : UART
  processes : Nat → ProcessFiles
  next : Nat

/-- `O_DIRECTORY`, `O_CREAT` and `O_TRUNC`. -/
def O_DIRECTORY : UInt32 := (1 : UInt32) <<< 4
def O_CREAT : UInt32 := (1 : UInt32) <<< 5
def O_TRUNC : UInt32 := (1 : UInt32) <<< 6

/-- The arguments of a call. The bytes of the caller that it reads are part of them, and
`fileActions` and `attributes` tell if the pointer is not null. -/
inductive SystemCall where
  | read (fd : Int) (count : Nat)
  | write (fd : Int) (bytes : List UInt8)
  | open (pathname : ImmutableString) (flags mode : UInt32)
  | close (fd : Int)
  | fstat (fd : Int)
  | getWorkingDirectory (bufferSize : Nat)
  | posixSpawn (pathname : ImmutableString) (fileActions attributes : Bool)
      (arguments environment : List ImmutableString)
  | chdir (pathname : ImmutableString)

structure UserlandFileInfo where
  dev : FileSystemId
  ino : UInt32
  mode : ModeFlags
  rdev : UInt32
  size : Nat
  blksize : UInt32
  blocks : UInt32
  uid : UInt32
  gid : UInt32

/-- What a call stores in the memory of the caller. -/
inductive Output where
  | nothing
  | delivery (delivery : Delivery)
  | fileInfo (info : UserlandFileInfo)
  | bufferSize (size : Nat)
  | workingDirectory (string : ImmutableString) (size : Nat)
  | processId (pid : Int)

structure Return where
  value : Int
  output : Output

/-- `static_cast<i32>` -/
def toI32 (value : Nat) : Int := (value : Int).bmod (2 ^ 32)

/-- The map of `sys$posix_spawn` to the paths on the host. -/
def systemToHost : HashMap ImmutableString ImmutableString :=
  ((HashMap.empty.set (literal "/bin/Shell.elf") (literal "Userland/Shell.1.elf")).set
    (literal "/bin/Example.elf") (literal "Userland/Example.1.elf")).set
    (literal "/bin/Editor.elf") (literal "Userland/Editor.1.elf")

namespace KernelFiles

def modifyProcess (kernel : KernelFiles) (process : Nat) (value : ProcessFiles) : KernelFiles :=
  { kernel with processes := Function.update kernel.processes process value }

/-- The path of an argument, as seen from the working directory. -/
def resolve (process : ProcessFiles) (pathname : ImmutableString) : Except Crash Path := do
  let path ← ofPath (Path.construct pathname)
  if path.isAbsolute then .ok path else ofPath (process.workingDirectory.append path)

def failure (error : Errno) : Return := ⟨-error.code, .nothing⟩

/-- `Thread::sys$read`. No handle returns an error. -/
def sysRead (kernel : KernelFiles) (surroundings : Surroundings) (process : Nat) (fd : Int)
    (count : Nat) :
    Except Crash (Return × KernelFiles) := do
  let handle ← (kernel.processes process).getFileHandle fd
  let (value, delivery, handle, uart) ← kernel.fileSystem.readHandle kernel.uart
    surroundings handle count
  let handles := (kernel.processes process).handles.set fd handle
  .ok (⟨toI32 value, .delivery delivery⟩,
    { kernel.modifyProcess process { kernel.processes process with handles } with uart })

/-- `Thread::sys$write`. No handle returns an error. -/
def sysWrite (kernel : KernelFiles) (surroundings : Surroundings) (process : Nat) (fd : Int)
    (bytes : List UInt8) :
    Except Crash (Return × KernelFiles) := do
  let handle ← (kernel.processes process).getFileHandle fd
  let (value, handle, fileSystem) ← kernel.fileSystem.writeHandle surroundings handle bytes
  let handles := (kernel.processes process).handles.set fd handle
  .ok (⟨toI32 value, .nothing⟩,
    { kernel.modifyProcess process { kernel.processes process with handles } with fileSystem })

/-- `create_handle` and `add_file_handle`, the end of `sys$open`. -/
def openFile (kernel : KernelFiles) (process : Nat) (fs : FileSystem) (file : FileRef) :
    Except Crash (Return × KernelFiles) := do
  let handle ← fs.createHandle file
  let (fd, files) := (kernel.processes process).addFileHandle handle
  .ok (⟨fd, .nothing⟩, { kernel.modifyProcess process files with fileSystem := fs })

/-- What `sys$open` does when there is no file, but it may create one. -/
def createFile (kernel : KernelFiles) (process : Nat) (path : Path) :
    Except Crash (Return × KernelFiles) := do
  let parent ← ofPath path.parent
  match ← kernel.fileSystem.tryLookup parent with
  | .error _ => .ok (failure .ENOTDIR, kernel)
  | .ok directory =>
    let fs := kernel.fileSystem.newMemoryFile
    require .nullCast ((fs.files directory).entries.isSome)
    let name ← ofPath path.filename
    kernel.openFile process (fs.setEntry directory name kernel.fileSystem.next)
      kernel.fileSystem.next

/-- What `sys$open` does with a file that it has found. -/
def openExisting (kernel : KernelFiles) (process : Nat) (file : FileRef) (flags : UInt32) :
    Except Crash (Return × KernelFiles) :=
  let value := kernel.fileSystem.files file
  if flags &&& O_DIRECTORY ≠ 0 ∧ value.format ≠ ModeFlags.directory then
    .ok (failure .ENOTDIR, kernel)
  else if flags &&& O_TRUNC ≠ 0 then
    if value.format ≠ ModeFlags.regular then do
      require .assertion (value.format = ModeFlags.directory)
      .ok (failure .EISDIR, kernel)
    else do
      let truncated ← value.truncate
      kernel.openFile process (kernel.fileSystem.modify file truncated) file
  else kernel.openFile process kernel.fileSystem file

/-- `Thread::sys$open`, which does not look at its `mode`. -/
def sysOpen (kernel : KernelFiles) (process : Nat) (pathname : ImmutableString) (flags : UInt32) :
    Except Crash (Return × KernelFiles) := do
  let path ← resolve (kernel.processes process) pathname
  match ← kernel.fileSystem.tryLookup path with
  | .error error =>
    if error = .ENOENT ∧ flags &&& O_CREAT ≠ 0 then kernel.createFile process path
    else .ok (failure error, kernel)
  | .ok file => kernel.openExisting process file flags

def sysFstat (kernel : KernelFiles) (process : Nat) (fd : Int) :
    Except Crash (Return × KernelFiles) := do
  let handle ← (kernel.processes process).getFileHandle fd
  let file := kernel.fileSystem.files (kernel.fileSystem.handleFile handle)
  let info : UserlandFileInfo :=
    ⟨file.filesystem, file.ino, file.mode, file.deviceId, file.size, 0xdead, 0xdead,
      file.owningUser, file.owningGroup⟩
  .ok (⟨0, .fileInfo info⟩, kernel)

def sysGetWorkingDirectory (kernel : KernelFiles) (process : Nat) (bufferSize : Nat) :
    Except Crash (Return × KernelFiles) := do
  let string := (kernel.processes process).workingDirectory.string
  if string.length + 1 > bufferSize then
    .ok (⟨-Errno.ERANGE.code, .bufferSize (string.length + 1)⟩, kernel)
  else
    let copied ← strcpyTo string bufferSize
    .ok (⟨0, .workingDirectory copied (string.length + 1)⟩, kernel)

/-- `Thread::sys$posix_spawn`. The thread of the new process, which gets the arguments, is
queued. -/
def sysPosixSpawn (kernel : KernelFiles) (surroundings : Surroundings) (process : Nat)
    (pathname : ImmutableString)
    (fileActions attributes : Bool) : Except Crash (Return × KernelFiles) := do
  require .fixme (fileActions = false)
  require .fixme (attributes = false)
  let path ← resolve (kernel.processes process) pathname
  let file ← kernel.fileSystem.lookup path
  match (kernel.fileSystem.files file).kind with
  | .flashFile _ =>
    let _hostPath ← must (systemToHost.getOpt path.string)
    let created ← ProcessFiles.construct kernel.fileSystem
    require .assertion (surroundings.queuedThreads < 16)
    let workingDirectory := (kernel.processes process).workingDirectory
    .ok (⟨0, .processId kernel.next⟩,
      { kernel.modifyProcess kernel.next { created with workingDirectory } with next := kernel.next + 1 })
  | _ => .error .badCast

def sysChdir (kernel : KernelFiles) (process : Nat) (pathname : ImmutableString) :
    Except Crash (Return × KernelFiles) := do
  let path ← resolve (kernel.processes process) pathname
  match ← kernel.fileSystem.tryLookup path with
  | .error error => .ok (failure error, kernel)
  | .ok file =>
    if (kernel.fileSystem.files file).format ≠ ModeFlags.directory then
      .ok (failure .ENOTDIR, kernel)
    else .ok (⟨0, .nothing⟩, kernel.modifyProcess process { kernel.processes process with workingDirectory := path })

/-- `Thread::syscall`, what the worker runs, as far as these calls go. -/
def syscall (kernel : KernelFiles) (surroundings : Surroundings) (process : Nat) :
    SystemCall → Except Crash (Return × KernelFiles)
  | .read fd count => kernel.sysRead surroundings process fd count
  | .write fd bytes => kernel.sysWrite surroundings process fd bytes
  | .open pathname flags _ => kernel.sysOpen process pathname flags
  | .close _ => .ok (⟨0, .nothing⟩, kernel)
  | .fstat fd => kernel.sysFstat process fd
  | .getWorkingDirectory bufferSize => kernel.sysGetWorkingDirectory process bufferSize
  | .posixSpawn pathname fileActions attributes _ _ =>
      kernel.sysPosixSpawn surroundings process pathname fileActions attributes
  | .chdir pathname => kernel.sysChdir process pathname

structure FileEvent where
  process : Nat
  call : SystemCall
  surroundings : Surroundings

def machine : Machine KernelFiles FileEvent Crash where
  permitted kernel event := event.process < kernel.next
  execute kernel event := Prod.snd <$> kernel.syscall event.surroundings event.process event.call

instance (kernel : KernelFiles) (event : FileEvent) : Decidable (machine.permitted kernel event) :=
  inferInstanceAs (Decidable (event.process < kernel.next))

/-- `create_shell_process`, with which `boot_with_scheduler` ends. The scheduler has room for
the thread. -/
def createShellProcess (fs : FileSystem) (uart : UART) : Except Crash KernelFiles := do
  let shellFile ← fs.lookup ⟨true, [bin, literal "Shell.elf"]⟩
  match (fs.files shellFile).kind with
  | .flashFile _ =>
    let created ← ProcessFiles.construct fs
    .ok ⟨fs, uart, fun _ => created, 1⟩
  | _ => .error .badCast

def boot (memory : Memory) (flashRoot depth : Nat) (uart : UART) : Except Crash KernelFiles := do
  let fs ← bootFiles memory flashRoot depth
  createShellProcess fs uart

end KernelFiles
end PicoOs.Kernel
