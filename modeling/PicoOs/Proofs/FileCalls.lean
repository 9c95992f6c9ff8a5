import PicoOs.Proofs.DeviceFiles

/-! Which system calls return. The arguments that user space controls decide it: the handlers
assert that a descriptor has a handle, that a path is not empty, and that a handle and a file
can do what they are asked for. -/

namespace PicoOs.Kernel
open Library PicoOs.Std FileSystem

/-- An entry can be listed if its name fits into the buffer with its terminator. -/
def NamesFit (fs : FileSystem) : Prop :=
  ∀ file < fs.next, ∀ entries name target, (fs.files file).entries = some entries →
    entries.getOpt name = some target →
    name.length < directoryNameSize

/-- No component of the path is larger than what can be listed. -/
def ComponentsFit (pathname : ImmutableString) : Prop :=
  ∀ path, Path.construct pathname = .ok path →
    ∀ component ∈ path.components, component.length < directoryNameSize

section
variable {fs after : FileSystem} {pathname name : ImmutableString} {process : ProcessFiles}
  {path : Path} {flags : UInt32} {file : FileRef}

private theorem construct_relative {own : Path} (constructed : Path.construct pathname = .ok own)
    (relative : ¬own.isAbsolute) : own.components ≠ [] := by
  unfold Path.construct at constructed
  split at constructed
  next => cases constructed
  next nonempty =>
    cases Except.ok.inj constructed
    have head : ¬pathname.head? = some Path.slash := fun slash => relative (decide_eq_true slash)
    cases pathname with
    | nil => exact absurd (Nat.not_succ_le_zero 0) nonempty
    | cons byte rest =>
      simp only [head, if_false, List.length_cons, Path.consumeComponents]
      exact List.cons_ne_nil _ _

/-- The last component of a path comes from the argument, not from the working directory. -/
theorem filename_own (resolved : KernelFiles.resolve process pathname = .ok path)
    (last : path.filename = .ok name) :
    ∃ own, Path.construct pathname = .ok own ∧ name ∈ own.components := by
  obtain ⟨own, constructed, resolved⟩ := bind_ok.mp resolved
  have parsed : Path.construct pathname = .ok own := by
    cases result : Path.construct pathname with
    | error fault => rw [result] at constructed; cases constructed
    | ok value => rw [result] at constructed; exact congrArg Except.ok (Except.ok.inj constructed)
  refine ⟨own, parsed, ?_⟩
  have member {joined : Path} (found : joined.filename = .ok name) : joined.components.getLast? =
    some name := by
    unfold Path.filename at found
    split at found
    next => rwa [← Except.ok.inj found]
    next => cases found
  split at resolved
  next =>
    cases Except.ok.inj resolved
    exact List.mem_of_getLast? (member last)
  next relative =>
    have nonempty := construct_relative parsed relative
    unfold Path.append at resolved
    rw [if_neg relative] at resolved
    cases Except.ok.inj resolved
    have there : (process.workingDirectory.components ++ own.components).getLast? = some name :=
      member last
    rw [List.getLast?_append_of_ne_nil _ nonempty] at there
    exact List.mem_of_getLast? there

/-- A file that is created with `flags` gets a name that can be listed. -/
def CreatesFitting (fs : FileSystem) (path : Path) (flags : UInt32) : Prop :=
  ∀ parent directory name, flags &&& O_CREAT ≠ 0 → fs.tryLookup path = .ok (.error .ENOENT) →
    path.parent = .ok parent →
    fs.tryLookup parent = .ok (.ok directory) → path.filename = .ok name →
      name.length < directoryNameSize

theorem NamesFit.opened (names : NamesFit fs) (closed : fs.Closed)
    (opened : FilesOpened fs path flags file after)
    (fits : CreatesFitting fs path flags) : NamesFit after := by
  cases opened with
  | found present => exact names
  | @truncated _ data present asked plain regular isMemory =>
    intro other inside entries name target isDirectory entry
    by_cases same : other = file
    · subst same
      rw [modify_same] at isDirectory
      cases isDirectory
    · rw [modify_other fs _ same] at isDirectory
      exact names other inside entries name target isDirectory entry
  | @created parent directory created entries asked missing up last found isDirectory unused =>
    have old := closed.existing found
    have still : fs.newMemoryFile.files directory = fs.files directory := fs.allocate_old _ old
    intro other inside map name target there entry
    by_cases same : other = directory
    · subst same
      rw [setEntry, modify_same, VirtualFile.setEntry_directory (still ▸ isDirectory)] at there
      cases Option.some.inj there
      obtain ⟨rfl, _⟩ | ⟨_, before⟩ := HashMap.getOpt_set_cases entry
      · exact fits parent other name asked missing up found last
      · exact names other old entries name target isDirectory before
    · rw [setEntry, modify_other _ _ same] at there
      obtain before | rfl := Nat.lt_succ_iff_lt_or_eq.mp inside
      · have kept : fs.newMemoryFile.files other = fs.files other := fs.allocate_old _ before
        rw [kept] at there
        exact names other before map name target there entry
      · have new : fs.newMemoryFile.files fs.next = fs.memoryFile ModeFlags.regular 0
          (.memoryFile []) := fs.allocate_new _
        rw [new] at there
        cases there

theorem NamesFit.append (names : NamesFit fs) (file : FileRef) (bytes : List UInt8) :
    NamesFit (fs.modify file ((fs.files file).append bytes)) := by
  intro other inside entries name target isDirectory entry
  by_cases same : other = file
  · subst same
    rw [modify_same] at isDirectory
    have before : (fs.files other).entries = some entries := by
      cases kind : (fs.files other).kind with
      | memoryFile data =>
        simp only [VirtualFile.append, kind, VirtualFile.entries] at isDirectory
        cases isDirectory
      | directory _ | flashFile _
      | consoleFile => simpa only [VirtualFile.append, kind] using isDirectory
    exact names other inside entries name target before entry
  · rw [modify_other fs _ same] at isDirectory
    exact names other inside entries name target isDirectory entry

end

namespace KernelFiles
variable {kernel after start : KernelFiles} {process : Nat} {call : SystemCall}

/-- No file is truncated while another handle is in the middle of it, and the names of new
files can be listed. -/
structure Tame (kernel : KernelFiles) (event : FileEvent) : Prop where
  undisturbed : kernel.Undisturbed event
  names : ∀ pathname flags mode, event.call = .open pathname flags mode → ComponentsFit pathname

/-- What the handlers rely on. -/
structure Healthy (kernel : KernelFiles) : Prop where
  valid : kernel.Valid
  inside : kernel.Inside
  devices : Devices kernel.fileSystem
  names : NamesFit kernel.fileSystem
  idle : kernel.uart.reading = none

private theorem Serves.healthy (serves : kernel.Serves process call after)
    (healthy : kernel.Healthy) (running : process < kernel.next)
    {surroundings : Surroundings} (tame : kernel.Tame ⟨process, call, surroundings⟩) :
    after.Healthy := by
  have valid := (serves.valid healthy.valid running).1
  have inside := serves.inside healthy.valid running healthy.inside tame.undisturbed
  suffices files : Devices after.fileSystem ∧ NamesFit after.fileSystem ∧
    after.uart.reading = none from
    ⟨valid, inside, files.1, files.2.1, files.2.2⟩
  cases serves with
  | nothing => exact ⟨healthy.devices, healthy.names, healthy.idle⟩
  | reads held reads idle => exact ⟨healthy.devices, healthy.names, idle healthy.idle⟩
  | @writes fd bytes file offset held =>
    have old := ((healthy.valid.processes process running).handles fd _ held).1
    exact ⟨healthy.devices.append healthy.valid.rooted.valid old bytes,
      healthy.names.append file bytes, healthy.idle⟩
  | prints held => exact ⟨healthy.devices, healthy.names, healthy.idle⟩
  | @opens pathname flags mode path result after resolved opens =>
    cases opens with
    | failed error => exact ⟨healthy.devices, healthy.names, healthy.idle⟩
    | @opened file fs handle files made =>
      refine ⟨healthy.devices.opened healthy.valid.rooted.valid files, ?_, healthy.idle⟩
      refine healthy.names.opened healthy.valid.rooted.valid.closed files fun _ _ name _
        _ _ _ last => ?_
      obtain ⟨own, constructed, member⟩ := filename_own resolved last
      exact tame.names pathname flags mode rfl own constructed name member
  | spawns constructed => exact ⟨healthy.devices, healthy.names, healthy.idle⟩
  | enters found isDirectory => exact ⟨healthy.devices, healthy.names, healthy.idle⟩

end KernelFiles

/-- When a handle can be read from. The console delivers something, or the caller waits for it. -/
def VirtualFileHandle.Readable (uart : UART) (surroundings : Surroundings) (count : Nat) :
    VirtualFileHandle → Prop
  | .memoryFile _ _ | .flashFile _ _ => True
  | .directory _ _ => count = directoryInfoSize
  | .console => Console.Delivers uart surroundings.arrivals count

def VirtualFileHandle.Writable (surroundings : Surroundings) (bytes : List UInt8) :
    VirtualFileHandle → Prop
  | .memoryFile _ _ => True
  | .flashFile _ _ | .directory _ _ => False
  | .console => ∃ polls, bytes.length ≤ Console.accepted surroundings.writable 0 polls

/-- When a file that exists can be opened: only a memory file can be truncated, and a device
file does not even have the error for it. -/
def VirtualFile.Openable (flags : UInt32) (file : VirtualFile) : Prop :=
  flags &&& O_TRUNC ≠ 0 → flags &&& O_DIRECTORY = 0 → file.format = ModeFlags.directory ∨
    file.format = ModeFlags.regular ∧ ∃ data, file.kind = .memoryFile data

/-- The program of a call to `posix_spawn`: a file in the flash that has a path on the host. -/
structure FileSystem.IsProgram (fs : FileSystem) (path : Path) (file : FileRef) : Prop where
  found : fs.tryLookup path = .ok (.ok file)
  isFlash : ∃ data, (fs.files file).kind = .flashFile data
  onHost : (systemToHost.getOpt path.string).isSome

namespace KernelFiles

/-- What the handlers take for granted about the arguments of a call. -/
def Safe (kernel : KernelFiles) (process : Nat) (surroundings : Surroundings) : SystemCall → Prop
  | .read fd count =>
      ∃ handle, (kernel.processes process).handles.getOpt fd = some handle ∧
        handle.Readable kernel.uart surroundings count
  | .write fd bytes =>
      ∃ handle, (kernel.processes process).handles.getOpt fd = some handle ∧
        handle.Writable surroundings bytes
  | .open pathname flags _ =>
      pathname ≠ [] ∧ ∀ path file, resolve (kernel.processes process) pathname = .ok path →
      kernel.fileSystem.tryLookup path = .ok (.ok file) →
        (kernel.fileSystem.files file).Openable flags
  | .close _ => True
  | .fstat fd => ∃ handle, (kernel.processes process).handles.getOpt fd = some handle
  | .getWorkingDirectory _ => True
  | .posixSpawn pathname fileActions attributes _ _ =>
      fileActions = false ∧ attributes = false ∧ surroundings.queuedThreads < 16 ∧
      ∃ path file, resolve (kernel.processes process) pathname = .ok path ∧
        kernel.fileSystem.IsProgram path file
  | .chdir pathname => pathname ≠ []

end KernelFiles

section
variable {fs : FileSystem} {handle : VirtualFileHandle} {uart : UART} {surroundings : Surroundings}

end

namespace KernelFiles
variable {kernel start : KernelFiles} {process : Nat} {surroundings : Surroundings}
  {pathname : ImmutableString} {flags : UInt32}

theorem Healthy.looked {path : Path} (healthy : kernel.Healthy) (running : process < kernel.next)
    (resolved : resolve (kernel.processes process) pathname = .ok path) :
    kernel.fileSystem.tryLookup path = .ok (kernel.fileSystem.tryLookupFrom kernel.fileSystem.root path.components) := by
  have absolute := ((resolve_yields (kernel.processes process) pathname).value resolved).2
    (healthy.valid.inDirectory running).absolute
  exact tryLookup_absolute absolute

def namesFit (fs : FileSystem) : Bool :=
  (List.range fs.next).all fun file =>
    ((fs.files file).entries.map HashMap.entries).all fun entries =>
    entries.all fun entry => entry.1.length < directoryNameSize

theorem namesFit_sound {fs : FileSystem} (fits : namesFit fs = true) : NamesFit fs := by
  intro file inside entries name target isDirectory entry
  have all := List.all_eq_true.mp fits file (List.mem_range.mpr inside)
  rw [isDirectory] at all
  exact of_decide_eq_true (List.all_eq_true.mp all (name, target) (HashMap.mem_of_getOpt entry))

end KernelFiles
end PicoOs.Kernel
