import PicoOs.Proofs.ConsoleCalls
import PicoOs.Proofs.Opens

/-! What one system call can do to the files, and the invariant that every call keeps: the
handles refer to files of their kind, and the working directories are directories. -/

namespace PicoOs.Kernel
open Library PicoOs.Std FileSystem

namespace VirtualFileHandle

/-- The file exists and is of the handle's class, and the handle is inside of what never shrinks. -/
def Fits (fs : FileSystem) : VirtualFileHandle → Prop
  | .memoryFile file _ => file < fs.next ∧ ∃ data, (fs.files file).kind = .memoryFile data
  | .flashFile file offset =>
      file < fs.next ∧ ∃ data, (fs.files file).kind = .flashFile data ∧ offset ≤ data.length
  | .directory file iterator =>
      file < fs.next ∧ ∃ entries, (fs.files file).kind = .directory entries ∧
      ∀ key, iterator = some key → (entries.getOpt key).isSome
  | .console => True

variable {fs after : FileSystem} {handle : VirtualFileHandle} {file : FileRef}

theorem Fits.grows (fits : handle.Fits fs) (grows : fs.Grows after) : handle.Fits after := by
  cases handle with
  | memoryFile file offset =>
    obtain ⟨old, data, isMemory⟩ := fits
    have kind := (grows.files file old).kind
    rw [isMemory] at kind
    refine ⟨old.trans_le grows.next, ?_⟩
    generalize (after.files file).kind = later at kind ⊢
    cases kind with
    | memoryFile _ other => exact ⟨other, rfl⟩
  | flashFile file offset =>
    obtain ⟨old, data, isFlash, inside⟩ := fits
    have kind := (grows.files file old).kind
    rw [isFlash] at kind
    refine ⟨old.trans_le grows.next, ?_⟩
    generalize (after.files file).kind = later at kind ⊢
    cases kind with
    | flashFile _ => exact ⟨data, rfl, inside⟩
  | directory file iterator =>
    obtain ⟨old, entries, isDirectory, present⟩ := fits
    have kind := (grows.files file old).kind
    rw [isDirectory] at kind
    refine ⟨old.trans_le grows.next, ?_⟩
    generalize (after.files file).kind = later at kind ⊢
    cases kind with
    | @directory _ more kept =>
      refine ⟨more, rfl, fun key position => ?_⟩
      obtain ⟨target, there⟩ := Option.isSome_iff_exists.mp (present key position)
      exact Option.isSome_of_eq_some (kept key target there)
  | console => trivial

private theorem createHandleImpl_fits (old : file < fs.next) :
    (fs.createHandleImpl file).Fits fs := by
  unfold createHandleImpl
  cases kind : (fs.files file).kind with
  | memoryFile data => exact ⟨old, data, kind⟩
  | flashFile data => exact ⟨old, data, kind, Nat.zero_le _⟩
  | directory entries => exact ⟨old, entries, kind, fun key first => HashMap.iter_present first⟩
  | consoleFile => trivial

theorem createHandle_fits (valid : fs.Valid) (old : file < fs.next)
    (made : fs.createHandle file = .ok handle) : handle.Fits fs := by
  unfold createHandle at made
  generalize fs.devices.entries.length + 1 = rounds at made
  induction rounds generalizing file with
  | zero => cases made
  | succ rounds ih =>
    unfold createHandleWithin at made
    split at made
    next =>
      obtain ⟨device, registered, made⟩ := bind_ok.mp made
      exact ih (valid.devices _ device (must_ok.mp registered)) made
    next => exact Except.ok.inj made ▸ createHandleImpl_fits old

/-- A new handle on a `MemoryFile` is at its start. -/
theorem createHandle_start {target : FileRef} {offset : Nat}
    (made : fs.createHandle file = .ok (.memoryFile target offset)) :
    offset = 0 := by
  unfold createHandle at made
  generalize fs.devices.entries.length + 1 = rounds at made
  induction rounds generalizing file with
  | zero => cases made
  | succ rounds ih =>
    unfold createHandleWithin at made
    split at made
    next =>
      obtain ⟨device, _, made⟩ := bind_ok.mp made
      exact ih made
    next =>
      have start := Except.ok.inj made
      unfold createHandleImpl at start
      split at start
      next => exact (VirtualFileHandle.memoryFile.inj start).2.symm
      next => cases start
      next => cases start
      next => cases start

inductive Reads (fs : FileSystem) : VirtualFileHandle → VirtualFileHandle → Prop where
  | memoryFile {file : FileRef} {data : List UInt8} {offset further : Nat}
      (isMemory : (fs.files file).kind = .memoryFile data)
      (inside : offset ≤ data.length) (stays : further ≤ data.length) :
        Reads fs (.memoryFile file offset) (.memoryFile file further)
  | flashFile {file : FileRef} {data : List UInt8} {offset further : Nat}
      (isFlash : (fs.files file).kind = .flashFile data)
      (stays : further ≤ data.length) : Reads fs (.flashFile file offset) (.flashFile file further)
  | directory {file : FileRef} {entries : HashMap ImmutableString FileRef}
      {iterator further : Option ImmutableString}
      (isDirectory : (fs.files file).kind = .directory entries)
        (present : ∀ key, further = some key → (entries.getOpt key).isSome) :
      Reads fs (.directory file iterator) (.directory file further)
  | console : Reads fs .console .console

theorem Reads.fits {after : VirtualFileHandle} (reads : Reads fs handle after)
    (fits : handle.Fits fs) : after.Fits fs := by
  cases reads with
  | memoryFile isMemory inside stays => exact ⟨fits.1, _, isMemory⟩
  | flashFile isFlash stays => exact ⟨fits.1, _, isFlash, stays⟩
  | directory isDirectory present => exact ⟨fits.1, _, isDirectory, present⟩
  | console => trivial

private theorem readData_ok {data bytes : List UInt8} {offset count further : Nat}
    (done : readData data offset count = .ok (bytes, further)) :
    offset ≤ data.length ∧ further ≤ data.length := by
  obtain ⟨rest, sliced, done⟩ := bind_ok.mp done
  obtain ⟨inside, sliced⟩ := require_bind_ok.mp sliced
  cases Except.ok.inj sliced
  cases Except.ok.inj done
  refine ⟨inside, ?_⟩
  rw [List.length_take, List.length_drop]
  omega

private theorem readEntry_ok {entries : HashMap ImmutableString FileRef}
    {iterator further : Option ImmutableString} {count : Nat}
    {info : Option (ImmutableString × UInt32)}
    (done : fs.readEntry entries iterator count = .ok (info, further)) :
    ∀ key, further = some key → (entries.getOpt key).isSome := by
  obtain ⟨_, done⟩ := require_bind_ok.mp done
  cases iterator with
  | none =>
    cases Except.ok.inj done
    exact nofun
  | some position =>
    obtain ⟨entry, _, done⟩ := bind_ok.mp done
    obtain ⟨copied, _, done⟩ := bind_ok.mp done
    obtain ⟨_, done⟩ := require_bind_ok.mp done
    cases Except.ok.inj done
    exact fun key next => HashMap.advance_present next

private theorem readHandle_reads {uart later : UART} {surroundings : Surroundings}
    {count value : Nat} {delivery : Delivery}
    {further : VirtualFileHandle}
    (done : fs.readHandle uart surroundings handle count = .ok (value, delivery, further, later)) :
    Reads fs handle further ∧ (uart.reading = none → later.reading = none) := by
  cases handle with
  | memoryFile file offset =>
    unfold readHandle at done
    dsimp only at done
    split at done
    next data isMemory =>
      obtain ⟨result, read, done⟩ := bind_ok.mp done
      cases Except.ok.inj done
      obtain ⟨inside, stays⟩ := readData_ok read
      exact ⟨.memoryFile isMemory inside stays, id⟩
    next => cases done
  | flashFile file offset =>
    unfold readHandle at done
    dsimp only at done
    split at done
    next data isFlash =>
      obtain ⟨result, read, done⟩ := bind_ok.mp done
      cases Except.ok.inj done
      exact ⟨.flashFile isFlash (readData_ok read).2, id⟩
    next => cases done
  | directory file iterator =>
    unfold readHandle at done
    dsimp only at done
    split at done
    next entries isDirectory =>
      obtain ⟨result, read, done⟩ := bind_ok.mp done
      obtain ⟨info, position⟩ := result
      have present := readEntry_ok read
      cases info with
      | some info =>
        cases Except.ok.inj done
        exact ⟨.directory isDirectory present, id⟩
      | none =>
        cases Except.ok.inj done
        exact ⟨.directory isDirectory present, id⟩
    next => cases done
  | console =>
    obtain ⟨result, read, done⟩ := bind_ok.mp done
    cases Except.ok.inj done
    exact ⟨.console, fun _ => Console.read_idle read⟩

end VirtualFileHandle

namespace FileSystem
variable {fs after : FileSystem} {path : Path} {flags : UInt32} {file : FileRef}

theorem Continues.refl (fs : FileSystem) : fs.Continues fs :=
  { toGrows := .refl fs, root := rfl, devices := rfl }

theorem Continues.lookup {target : FileRef} (continues : fs.Continues after) (closed : fs.Closed)
    (found : fs.tryLookup path = .ok (.ok target)) : after.tryLookup path = .ok (.ok target) := by
  obtain ⟨absolute, reached⟩ := tryLookup_ok.mp found
  have kept := continues.directories.walk closed.entries closed.root (tryLookupFrom_ok.mp reached)
  exact tryLookup_ok.mpr ⟨absolute, by rw [continues.root, tryLookupFrom_ok, kept]⟩

theorem append_continues (valid : fs.Valid) (file : FileRef) (old : file < fs.next)
    (bytes : List UInt8) :
    (fs.modify file ((fs.files file).append bytes)).Valid ∧
    fs.Continues (fs.modify file ((fs.files file).append bytes)) :=
  ⟨valid.modify (VirtualFile.append_fits (valid.files file old) bytes),
    { toGrows := modify_grows (VirtualFile.append_grows _ bytes), root := rfl, devices := rfl }⟩

/-- Opening a path keeps the files valid, and the file that is opened exists afterwards. -/
theorem opened_continues (valid : fs.Valid) (opened : FilesOpened fs path flags file after) :
    after.Valid ∧ fs.Continues after ∧ file < after.next := by
  have grows := opened.grows valid.closed
  cases opened with
  | found present => exact ⟨valid, .refl fs, valid.closed.existing present⟩
  | @truncated _ data present asked plain regular isMemory =>
    have old := valid.closed.existing present
    have fits := valid.files file old
    refine ⟨valid.modify ⟨?_, fun directory => ?_, ?_⟩,
      { toGrows := grows, root := rfl, devices := rfl }, old⟩
    · rintro entries name target ⟨⟩
    · have isDirectory := fits.directory directory
      rw [VirtualFile.entries, isMemory] at isDirectory
      cases isDirectory
    · rintro data ⟨⟩
      rfl
  | @created parent directory name entries asked missing up last found isDirectory unused =>
    have old := valid.closed.existing found
    have new : fs.next < fs.next + 1 := Nat.lt_succ_self _
    exact ⟨valid.newMemoryFile.setEntry (old.trans new) new,
      { toGrows := grows, root := rfl, devices := rfl }, new⟩

end FileSystem
namespace ProcessFiles
variable {fs after : FileSystem} {process : ProcessFiles} {handle : VirtualFileHandle} {fd : Int}

structure Fits (fs : FileSystem) (process : ProcessFiles) : Prop where
  numbered : ∀ fd handle, process.handles.getOpt fd = some handle → fd < process.nextHandleId
  handles : ∀ fd handle, process.handles.getOpt fd = some handle → handle.Fits fs
  directory : ∃ file, fs.tryLookup process.workingDirectory = .ok (.ok file) ∧
    (fs.files file).format = ModeFlags.directory

theorem Fits.continues (fits : process.Fits fs) (closed : fs.Closed)
    (continues : fs.Continues after) : process.Fits after where
  numbered := fits.numbered
  handles fd handle held := (fits.handles fd handle held).grows continues.toGrows
  directory := by
    obtain ⟨file, found, format⟩ := fits.directory
    have old : file < fs.next := closed.existing found
    exact ⟨file, continues.lookup closed found, by rw [(continues.files file old).format, format]⟩

theorem Fits.add (fits : process.Fits fs) (right : handle.Fits fs) :
    (process.addFileHandle handle).2.Fits fs where
  numbered fd other held := by
    obtain ⟨rfl, _⟩ | ⟨_, before⟩ := HashMap.getOpt_set_cases held
    · exact Int.ofNat_lt.mpr (Nat.lt_succ_self _)
    · exact Int.lt_trans (fits.numbered fd other before) (Int.ofNat_lt.mpr (Nat.lt_succ_self _))
  handles fd other held := by
    obtain ⟨_, rfl⟩ | ⟨_, before⟩ := HashMap.getOpt_set_cases held
    · exact right
    · exact fits.handles fd other before
  directory := fits.directory

/-- The handle of a descriptor is replaced by one that it has become. -/
theorem Fits.replace (fits : process.Fits fs) {further : VirtualFileHandle}
    (held : process.handles.getOpt fd = some handle)
    (right : further.Fits fs) :
    Fits fs { process with handles := process.handles.set fd further } where
  numbered other found present := by
    obtain ⟨rfl, _⟩ | ⟨_, before⟩ := HashMap.getOpt_set_cases present
    · exact fits.numbered other handle held
    · exact fits.numbered other found before
  handles other found present := by
    obtain ⟨_, rfl⟩ | ⟨_, before⟩ := HashMap.getOpt_set_cases present
    · exact right
    · exact fits.handles other found before
  directory := fits.directory

private theorem addStandardHandle_fits (valid : fs.Valid) {ttyFile : FileRef}
    (old : ttyFile < fs.next) {added : ProcessFiles} (fits : process.Fits fs)
    (done : addStandardHandle fs ttyFile process fd = .ok added) : added.Fits fs := by
  obtain ⟨handle, made, done⟩ := bind_ok.mp done
  obtain ⟨_, done⟩ := require_bind_ok.mp done
  cases Except.ok.inj done
  exact fits.add (VirtualFileHandle.createHandle_fits valid old made)

/-- The constructor adds three handles on the same file to a process that has none. -/
theorem construct_keeps {property : ProcessFiles → Prop} (start : property ⟨.root, .empty, 0⟩)
    (add : ∀ ttyFile, fs.lookup ⟨true, [dev, tty]⟩ = .ok ttyFile → ∀ before fd added,
      property before →
      addStandardHandle fs ttyFile before fd = .ok added → property added) (done :
      construct fs = .ok process) : property process := by
  obtain ⟨ttyFile, found, done⟩ := bind_ok.mp done
  obtain ⟨first, addedFirst, done⟩ := bind_ok.mp done
  obtain ⟨second, addedSecond, done⟩ := bind_ok.mp done
  obtain ⟨third, addedThird, done⟩ := bind_ok.mp done
  cases Except.ok.inj done
  have one := add ttyFile found _ _ _ start addedFirst
  have two := add ttyFile found _ _ _ one addedSecond
  exact add ttyFile found _ _ _ two addedThird

/-- A new process starts in the root, with its three handles. -/
theorem construct_fits (rooted : Rooted fs) (done : construct fs = .ok process) :
    process.Fits fs := by
  have root : fs.tryLookup .root = .ok (.ok fs.root) := tryLookup_present fs rfl rfl
  have start : Fits fs ⟨.root, .empty, 0⟩ :=
    ⟨fun _ _ held => (nomatch held), fun _ _ held => (nomatch held), fs.root, root, rooted.mode⟩
  refine construct_keeps start (fun ttyFile found before fd added fits made => ?_) done
  exact addStandardHandle_fits rooted.valid (rooted.valid.closed.lookup found) fits made

end ProcessFiles

namespace KernelFiles
variable {kernel after : KernelFiles} {process : Nat} {call : SystemCall}

inductive Serves (kernel : KernelFiles) (process : Nat) : SystemCall → KernelFiles → Prop where
  | nothing {call : SystemCall} : Serves kernel process call kernel
  | reads {fd : Int} {count : Nat} {handle further : VirtualFileHandle} {uart : UART}
      (held : (kernel.processes process).handles.getOpt fd = some handle)
        (reads : handle.Reads kernel.fileSystem further)
      (idle : kernel.uart.reading = none → uart.reading = none) :
      Serves kernel process (.read fd count) { kernel.modifyProcess process { kernel.processes process with
        handles := (kernel.processes process).handles.set fd further } with uart }
  | writes {fd : Int} {bytes : List UInt8} {file : FileRef} {offset : Nat}
      (held : (kernel.processes process).handles.getOpt fd = some (.memoryFile file offset)) :
      Serves kernel process (.write fd bytes) { kernel.modifyProcess process { kernel.processes process with
        handles := (kernel.processes process).handles.set fd
          (.memoryFile file (offset + bytes.length)) } with
        fileSystem := kernel.fileSystem.modify file ((kernel.fileSystem.files file).append bytes) }
  | prints {fd : Int} {bytes : List UInt8} (held : (kernel.processes process).handles.getOpt fd = some .console) :
      Serves kernel process (.write fd bytes) (kernel.modifyProcess process { kernel.processes process with
        handles := (kernel.processes process).handles.set fd .console })
  | opens {pathname : ImmutableString} {flags mode : UInt32} {path : Path} {result : Return}
      {after : KernelFiles}
      (resolved : resolve (kernel.processes process) pathname = .ok path)
        (opens : Opens kernel process path flags result after) :
      Serves kernel process (.open pathname flags mode) after
  | spawns {pathname : ImmutableString} {fileActions attributes : Bool}
      {arguments environment : List ImmutableString} {created : ProcessFiles}
      (constructed : ProcessFiles.construct kernel.fileSystem = .ok created) :
      Serves kernel process (.posixSpawn pathname fileActions attributes arguments environment)
        { kernel.modifyProcess kernel.next { created with workingDirectory := (kernel.processes process).workingDirectory } with
          next := kernel.next + 1 }
  | enters {pathname : ImmutableString} {path : Path} {file : FileRef}
      (found : kernel.fileSystem.tryLookup path = .ok (.ok file))
      (isDirectory : (kernel.fileSystem.files file).format = ModeFlags.directory) :
      Serves kernel process (.chdir pathname) (kernel.modifyProcess process { kernel.processes process with workingDirectory := path })

theorem syscall_serves {surroundings : Surroundings} {result : Return}
    (closed : kernel.fileSystem.Closed)
    (served : kernel.syscall surroundings process call = .ok (result, after)) :
    Serves kernel process call after := by
  cases call with
  | read fd count =>
    have returned : kernel.sysRead surroundings process fd count = .ok (result, after) := served
    obtain ⟨handle, held, done⟩ := bind_ok.mp returned
    obtain ⟨⟨value, delivery, further, uart⟩, read, done⟩ := bind_ok.mp done
    obtain ⟨_, rfl⟩ := Prod.mk.inj (Except.ok.inj done)
    obtain ⟨reads, idle⟩ := VirtualFileHandle.readHandle_reads read
    exact .reads (must_ok.mp held) reads idle
  | write fd bytes =>
    have returned : kernel.sysWrite surroundings process fd bytes = .ok (result, after) := served
    obtain ⟨handle, held, done⟩ := bind_ok.mp returned
    obtain ⟨⟨value, further, fs⟩, written, done⟩ := bind_ok.mp done
    obtain ⟨_, rfl⟩ := Prod.mk.inj (Except.ok.inj done)
    cases handle with
    | memoryFile file offset =>
      cases Except.ok.inj written
      exact .writes (must_ok.mp held)
    | flashFile _ _ | directory _ _ => cases written
    | console =>
      obtain ⟨_, _, written⟩ := bind_ok.mp written
      cases Except.ok.inj written
      exact .prints (must_ok.mp held)
  | «open» pathname flags mode =>
    have returned : kernel.sysOpen process pathname flags = .ok (result, after) := served
    obtain ⟨path, resolved, opens⟩ := (sysOpen_yields closed process pathname flags).value returned
    exact .opens resolved opens
  | close fd =>
    have returned : (.ok (⟨0, .nothing⟩, kernel) : Except Crash (Return × KernelFiles)) =
      .ok (result, after) := served
    cases Except.ok.inj returned
    exact .nothing
  | fstat fd =>
    have returned : kernel.sysFstat process fd = .ok (result, after) := served
    obtain ⟨handle, _, done⟩ := bind_ok.mp returned
    have same : kernel = after := congrArg Prod.snd (Except.ok.inj done)
    exact same ▸ .nothing
  | getWorkingDirectory bufferSize =>
    have returned : kernel.sysGetWorkingDirectory process bufferSize = .ok (result, after) := served
    unfold sysGetWorkingDirectory at returned
    dsimp only at returned
    split at returned
    next =>
      cases Except.ok.inj returned
      exact .nothing
    next =>
      obtain ⟨copied, _, done⟩ := bind_ok.mp returned
      cases Except.ok.inj done
      exact .nothing
  | posixSpawn pathname fileActions attributes arguments environment =>
    have returned : kernel.sysPosixSpawn surroundings process pathname fileActions attributes =
      .ok (result, after) := served
    obtain ⟨_, done⟩ := require_bind_ok.mp returned
    obtain ⟨_, done⟩ := require_bind_ok.mp done
    obtain ⟨path, _, done⟩ := bind_ok.mp done
    obtain ⟨file, _, done⟩ := bind_ok.mp done
    dsimp only at done
    split at done
    next =>
      obtain ⟨_, _, done⟩ := bind_ok.mp done
      obtain ⟨created, constructed, done⟩ := bind_ok.mp done
      obtain ⟨_, done⟩ := require_bind_ok.mp done
      cases Except.ok.inj done
      exact .spawns constructed
    next => cases done
  | chdir pathname =>
    have returned : kernel.sysChdir process pathname = .ok (result, after) := served
    obtain ⟨path, _, done⟩ := bind_ok.mp returned
    obtain ⟨found, looked, done⟩ := bind_ok.mp done
    cases found with
    | error error =>
      cases Except.ok.inj done
      exact .nothing
    | ok file =>
      dsimp only at done
      split at done
      next =>
        cases Except.ok.inj done
        exact .nothing
      next isDirectory =>
        cases Except.ok.inj done
        exact .enters looked (not_ne_iff.mp isDirectory)

end KernelFiles
end PicoOs.Kernel
