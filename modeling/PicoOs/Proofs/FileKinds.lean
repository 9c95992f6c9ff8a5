import PicoOs.Proofs.FileSteps

/-! What holds of every file from the time it is made. The only console is the object that
`ConsoleFile::initialize` makes. -/

namespace PicoOs.Kernel
open Library PicoOs.Std FileSystem

variable {good : FileRef → VirtualFile → Prop} {memory : Memory} {fs after : FileSystem}
  {file target directory : FileRef}
  {name : ImmutableString}

def Everywhere (good : FileRef → VirtualFile → Prop) (fs : FileSystem) : Prop :=
  ∀ file < fs.next, good file (fs.files file)

structure Flashed (memory : Memory) (good : FileRef → VirtualFile → Prop) : Prop where
  setEntry : ∀ file value name target, good file value →
    good file (VirtualFile.setEntry value name target)
  directory : ∀ file address, (FileInfo.load memory address).format = ModeFlags.directory →
    good file ((FileInfo.load memory address).file 0xdead (.directory .empty))
  regular : ∀ file address, (FileInfo.load memory address).format = ModeFlags.regular →
    good file ((FileInfo.load memory address).flashFile memory)

private theorem Everywhere.modify {value : VirtualFile} (everywhere : Everywhere good fs)
    (right : good file value) :
    Everywhere good (fs.modify file value) := by
  intro other inside
  by_cases same : other = file
  · rw [same, modify_same]
    exact right
  · rw [modify_other fs value same]
    exact everywhere other inside

theorem Everywhere.allocate {value : VirtualFile} (everywhere : Everywhere good fs)
    (right : good fs.next value) :
    Everywhere good (fs.allocate value) := by
  intro file inside
  obtain old | rfl := Nat.lt_succ_iff_lt_or_eq.mp inside
  · rw [allocate_old fs value old]
    exact everywhere file old
  · rwa [allocate_new]

theorem Everywhere.setEntry (everywhere : Everywhere good fs) (flashed : Flashed memory good) :
    Everywhere good (fs.setEntry directory name target) := by
  intro file inside
  by_cases same : file = directory
  · subst same
    rw [FileSystem.setEntry, modify_same]
    exact flashed.setEntry _ _ _ _ (everywhere file inside)
  · rw [FileSystem.setEntry, modify_other fs _ same]
    exact everywhere file inside

namespace FlashDirectory
variable {construct : FileSystem → Nat → Except Crash FileSystem} {address : Nat}

def Keeps (memory : Memory) (good : FileRef → VirtualFile → Prop)
    (construct : FileSystem → Nat → Except Crash FileSystem) : Prop :=
  ∀ {fs address after}, Everywhere good fs → (FileInfo.load memory address).format =
    ModeFlags.directory →
    construct fs address = .ok after → Everywhere good after

private theorem addFile_everywhere (flashed : Flashed memory good)
    (keeps : Keeps memory good construct) (everywhere : Everywhere good fs)
    (added : addFile memory construct fs directory address = .ok after) :
    Everywhere good after := by
  unfold addFile at added
  dsimp only at added
  split at added
  next isDirectory =>
    obtain ⟨made, constructed, done⟩ := bind_ok.mp added
    cases Except.ok.inj done
    exact (keeps everywhere isDirectory constructed).setEntry flashed
  next =>
    obtain ⟨regular, done⟩ := require_bind_ok.mp added
    cases Except.ok.inj done
    exact everywhere.allocate (flashed.regular _ _ regular)

private theorem addEntries_everywhere (flashed : Flashed memory good)
    (keeps : Keeps memory good construct) (rounds : Nat) {entry stop : Nat}
    (everywhere : Everywhere good fs)
    (added : addEntries memory construct rounds fs directory entry stop = .ok after) :
    Everywhere good after := by
  induction rounds generalizing fs entry with
  | zero => cases added
  | succ rounds ih =>
    unfold addEntries at added
    split at added
    next =>
      cases Except.ok.inj added
      exact everywhere
    next =>
      obtain ⟨made, addedFile, rest⟩ := bind_ok.mp added
      obtain ⟨name, _, rest⟩ := bind_ok.mp rest
      exact ih ((addFile_everywhere flashed keeps everywhere addedFile).setEntry flashed) rest

theorem construct_root (flashed : Flashed memory good) {depth : Nat}
    (keeps : Keeps memory good (FlashDirectory.construct memory depth))
    (everywhere : Everywhere good fs)
    (right : good fs.next ((FileInfo.load memory address).file 0xdead (.directory .empty)))
    (constructed : FlashDirectory.construct memory (depth + 1) fs address = .ok after) :
    Everywhere good after := by
  have made := everywhere.allocate right
  exact addEntries_everywhere flashed keeps _ ((made.setEntry flashed).setEntry flashed) constructed

/-- Records that are neither directories nor regular files are not accepted. -/
theorem construct_everywhere (flashed : Flashed memory good) (depth : Nat) :
    Keeps memory good (FlashDirectory.construct memory depth) := by
  induction depth with
  | zero => exact fun _ _ constructed => nomatch constructed
  | succ depth ih =>
      exact fun everywhere isDirectory =>
        construct_root flashed ih everywhere (flashed.directory _ _ isDirectory)

end FlashDirectory

private theorem newMemoryFile_everywhere (everywhere : Everywhere good fs)
    (right : good fs.next (fs.memoryFile ModeFlags.regular 0 (.memoryFile []))) :
    Everywhere good fs.newMemoryFile :=
  everywhere.allocate right

def Directoried (good : FileRef → VirtualFile → Prop) : Prop :=
  ∀ (fs : FileSystem) file, good file (fs.memoryFile ModeFlags.directory 0xdead (.directory .empty))

private theorem newMemoryDirectory_everywhere (flashed : Flashed memory good)
    (directoried : Directoried good) (everywhere : Everywhere good fs) :
    Everywhere good fs.newMemoryDirectory := by
  have allocated : Everywhere good { fs.allocate (fs.memoryFile ModeFlags.directory 0xdead (.directory .empty)) with nextIno := fs.nextIno + 1 } :=
    everywhere.allocate (directoried fs fs.next)
  exact (allocated.setEntry flashed).setEntry flashed

theorem memoryFileSystem_everywhere (flashed : Flashed memory good) (directoried : Directoried good)
    {flashRoot : FileRef}
    (everywhere : Everywhere good fs) (done : memoryFileSystem flashRoot fs = .ok after) :
    Everywhere good after := by
  unfold memoryFileSystem requireDirectory at done
  dsimp only at done
  obtain ⟨_, done⟩ := require_bind_ok.mp done
  obtain ⟨_, done⟩ := require_bind_ok.mp done
  cases Except.ok.inj done
  let first : FileSystem := { fs.newMemoryDirectory with root := fs.next }
  have rooted : Everywhere good first :=
    newMemoryDirectory_everywhere flashed directoried everywhere
  have linked : Everywhere good ((first.setEntry fs.next dot fs.next).setEntry fs.next dotdot fs.next) :=
    (rooted.setEntry flashed).setEntry flashed
  exact ((((newMemoryDirectory_everywhere flashed directoried linked).setEntry flashed).setEntry flashed).setEntry flashed).setEntry flashed

/-! The console. -/

def Single (fs : FileSystem) : Prop :=
  ∀ file < fs.next, (fs.files file).kind = .consoleFile → file = fs.console

theorem Single.grows (single : Single fs) (grows : fs.Grows after)
    (new : ∀ file < after.next, fs.next ≤ file → (after.files file).kind ≠ .consoleFile) :
    Single after := by
  intro file inside isConsole
  obtain old | later := Nat.lt_or_ge file fs.next
  · have kind := (grows.files file old).kind
    rw [isConsole] at kind
    generalize before : (fs.files file).kind = earlier at kind
    cases kind with
    | consoleFile =>
      rw [grows.console]
      exact single file old before
  · exact absurd isConsole (new file inside later)

private theorem setEntry_console {value : VirtualFile}
    (isConsole : (value.setEntry name target).kind = .consoleFile) : value.kind = .consoleFile := by
  cases kind : value.kind with
  | directory entries =>
    simp only [VirtualFile.setEntry, kind] at isConsole
    cases isConsole
  | memoryFile _ | flashFile _ =>
    rw [VirtualFile.setEntry, kind] at isConsole
    exact kind ▸ isConsole
  | consoleFile => rfl

def OnlyConsole (console file : FileRef) (value : VirtualFile) : Prop :=
  value.kind = .consoleFile → file = console

theorem onlyConsole_flashed (memory : Memory) (console : FileRef) :
    Flashed memory (OnlyConsole console) where
  setEntry _ _ _ _ only isConsole := only (setEntry_console isConsole)
  directory _ _ _ isConsole := nomatch isConsole
  regular _ _ _ isConsole := nomatch isConsole

private theorem onlyConsole_directoried (console : FileRef) : Directoried (OnlyConsole console) :=
  fun _ _ isConsole => nomatch isConsole

section Boot
variable {console : FileRef}

theorem newMemoryFile_console (only : Everywhere (OnlyConsole console) fs) {value : VirtualFile}
    (kept : value.kind ≠ .consoleFile)
    (directory : FileRef) (name : ImmutableString) (memory : Memory) :
    Everywhere (OnlyConsole console) ((fs.newMemoryFile.modify fs.next value).setEntry directory name fs.next) := by
  have made := newMemoryFile_everywhere only fun isConsole => nomatch isConsole
  exact (made.modify fun isConsole => absurd isConsole kept).setEntry
    (onlyConsole_flashed memory console)

private theorem deviceFileSystem_console (memory : Memory)
    (only : Everywhere (OnlyConsole console) fs) (made : deviceFileSystem fs = .ok after) :
    Everywhere (OnlyConsole console) after ∧ after.console = fs.console := by
  unfold deviceFileSystem requireDirectory at made
  obtain ⟨devDirectory, found, made⟩ := bind_ok.mp made
  obtain ⟨_, made⟩ := require_bind_ok.mp made
  cases Except.ok.inj made
  let registered : FileSystem := { fs with devices := fs.devices.set ttyDevice.toNat fs.console }
  have still : Everywhere (OnlyConsole console) registered := only
  have new : registered.newMemoryFile.files registered.next =
    registered.memoryFile ModeFlags.regular 0 (.memoryFile []) := fs.allocate_new _
  refine ⟨newMemoryFile_console still ?_ devDirectory tty memory, rfl⟩
  rw [new]
  nofun

private theorem addExample_console (memory : Memory) (only : Everywhere (OnlyConsole console) fs)
    (made : addExample fs = .ok after) :
    Everywhere (OnlyConsole console) after ∧ after.console = fs.console := by
  unfold addExample requireDirectory at made
  obtain ⟨rootFile, found, made⟩ := bind_ok.mp made
  obtain ⟨_, made⟩ := require_bind_ok.mp made
  cases Except.ok.inj made
  have new : fs.newMemoryFile.files fs.next = fs.memoryFile ModeFlags.regular 0 (.memoryFile []) :=
    fs.allocate_new _
  refine ⟨newMemoryFile_console only ?_ rootFile _ memory, rfl⟩
  rw [new]
  nofun

theorem bootFiles_single {flashRoot depth : Nat}
    (made : bootFiles memory flashRoot depth = .ok after) : Single after := by
  unfold bootFiles at made
  obtain ⟨flash, flashMade, made⟩ := bind_ok.mp made
  obtain ⟨memoryFiles, memoryMade, made⟩ := bind_ok.mp made
  obtain ⟨devices, devicesMade, made⟩ := bind_ok.mp made
  obtain ⟨built, constructed, flashMade⟩ := bind_ok.mp flashMade
  obtain ⟨_, flashMade⟩ := require_bind_ok.mp flashMade
  cases Except.ok.inj flashMade
  have flashed := onlyConsole_flashed memory 0
  have start : Everywhere (OnlyConsole 0) consoleFileSystem :=
    fun file inside _ => Nat.lt_one_iff.mp inside
  have inFlash : Everywhere (OnlyConsole 0) flash := by
    cases depth with
    | zero => cases constructed
    | succ depth =>
      exact FlashDirectory.construct_root flashed (FlashDirectory.construct_everywhere flashed depth) start (fun isConsole => nomatch isConsole)
        constructed
  have inMemory := memoryFileSystem_everywhere flashed (onlyConsole_directoried 0)
    inFlash memoryMade
  have grows := (FlashDirectory.construct_spec memory depth consoleFileSystem_valid constructed).2.1
  have console : memoryFiles.console = 0 := by
    unfold memoryFileSystem requireDirectory at memoryMade
    dsimp only at memoryMade
    obtain ⟨_, memoryMade⟩ := require_bind_ok.mp memoryMade
    obtain ⟨_, memoryMade⟩ := require_bind_ok.mp memoryMade
    cases Except.ok.inj memoryMade
    exact grows.console
  obtain ⟨onDevices, sameConsole⟩ := deviceFileSystem_console memory inMemory devicesMade
  obtain ⟨last, stillConsole⟩ := addExample_console memory onDevices made
  intro file inside isConsole
  rw [stillConsole, sameConsole, console]
  exact last file inside isConsole

end Boot

theorem Single.opened {path : Path} {flags : UInt32} (single : Single fs) (closed : fs.Closed)
    (opened : FilesOpened fs path flags file after) :
    Single after := by
  refine single.grows (opened.grows closed) fun other inside new => ?_
  cases opened with
  | found | truncated => exact absurd inside (Nat.not_lt.mpr new)
  | created asked missing up last found isDirectory unused =>
    obtain rfl : other = fs.next := Nat.le_antisymm (Nat.le_of_lt_succ inside) new
    intro isConsole
    have made : fs.newMemoryFile.files fs.next = fs.memoryFile ModeFlags.regular 0
      (.memoryFile []) := fs.allocate_new _
    have different := Nat.ne_of_gt (closed.existing found)
    rw [FileSystem.setEntry, modify_other _ _ different, made] at isConsole
    cases isConsole

namespace KernelFiles
variable {kernel start : KernelFiles} {process : Nat} {call : SystemCall}
  {kernelAfter : KernelFiles}

theorem Serves.single (serves : kernel.Serves process call kernelAfter)
    (valid : kernel.fileSystem.Valid) (single : Single kernel.fileSystem) :
    Single kernelAfter.fileSystem := by
  cases serves with
  | nothing | reads | prints | spawns | enters => exact single
  | @writes fd bytes file offset held =>
    exact single.grows (modify_grows (VirtualFile.append_grows _ bytes)) fun other inside new =>
      absurd inside (Nat.not_lt.mpr new)
  | @opens pathname flags mode path result after resolved opens =>
    cases opens with
    | failed error => exact single
    | opened files made => exact single.opened valid.closed files

end KernelFiles
end PicoOs.Kernel
