import PicoOs.Proofs.FileKinds
import PicoOs.Proofs.FileOffsets

/-! The device files. There is one, `/dev/tty`, which the console is registered for, so that
a handle can be made for every file, and a process can be created at any time. -/

namespace PicoOs.Kernel
open Library PicoOs.Std FileSystem

variable {fs after : FileSystem} {file target directory : FileRef} {name : ImmutableString}

structure Devices (fs : FileSystem) : Prop where
  registered : fs.devices.getOpt ttyDevice.toNat = some fs.console
  console : (fs.files fs.console).format ≠ ModeFlags.device
  only : ∀ file < fs.next, (fs.files file).format = ModeFlags.device →
    (fs.files file).deviceId = ttyDevice
  tty : ∃ ttyFile, fs.tryLookup ⟨true, [dev, tty]⟩ = .ok (.ok ttyFile)

theorem Devices.createHandle (devices : Devices fs) (old : file < fs.next) :
    ∃ handle, fs.createHandle file = .ok handle := by
  have some := HashMap.mem_of_getOpt devices.registered
  obtain ⟨more, length⟩ := Nat.exists_eq_succ_of_ne_zero (List.length_pos_of_mem some).ne'
  rw [FileSystem.createHandle, length, createHandleWithin]
  split
  next isDevice =>
    refine ⟨fs.createHandleImpl fs.console, ?_⟩
    rw [devices.only file old isDevice, devices.registered]
    simp only [must, bind, Except.bind, createHandleWithin, devices.console, if_false]
  next => exact ⟨_, rfl⟩

def Plain (fs : FileSystem) : Prop := ∀ file < fs.next, (fs.files file).format ≠ ModeFlags.device

private theorem VirtualFile.setEntry_format (value : VirtualFile) (name : ImmutableString)
    (target : FileRef) :
    (value.setEntry name target).format = value.format := by
  cases kind : value.kind <;> simp only [VirtualFile.setEntry, kind, VirtualFile.format]

/-- Records that are neither directories nor regular files are not accepted. -/
theorem plain_flashed (memory : Memory) :
    Flashed memory fun _ value => value.format ≠ ModeFlags.device where
  setEntry _ value name target plain := by
    rw [value.setEntry_format]
    exact plain
  directory file address isDirectory := by
    have format : ((FileInfo.load memory address).file 0xdead (.directory .empty)).format =
      (FileInfo.load memory address).format := rfl
    rw [format, isDirectory]
    decide
  regular file address isRegular := by
    have format : ((FileInfo.load memory address).flashFile memory).format =
      (FileInfo.load memory address).format := rfl
    rw [format, isRegular]
    decide

/-- An entry of another name is not changed. -/
theorem setEntry_walk {path : List ImmutableString} (other : name ∉ path) {start last : FileRef}
    (reached : fs.directories.walk start path = .ok last) :
    (fs.setEntry directory name target).directories.walk start path = .ok last := by
  induction path generalizing start with
  | nil => exact reached
  | cons component path ih =>
    have different : component ≠ name := fun same => other (same ▸ List.mem_cons_self)
    have later : name ∉ path := fun member => other (List.mem_cons_of_mem _ member)
    obtain ⟨middle, entered, rest⟩ := bind_ok.mp reached
    obtain ⟨entries, isDirectory, entry⟩ := Directories.enter_ok entered
    obtain ⟨map, there, rfl⟩ := Option.map_eq_some_iff.mp isDirectory
    refine bind_ok.mpr ⟨middle, ?_, ih later rest⟩
    by_cases same : start = directory
    · subst same
      have changed : ((fs.setEntry start name target).files start).entries =
        some (map.set name target) := by
        rw [FileSystem.setEntry, modify_same, VirtualFile.setEntry_directory there]
        rfl
      refine Directories.enter_entry (directories_some changed) ?_
      rw [HashMap.getOpt_set_other map target different]
      exact entry
    · have kept : ((fs.setEntry directory name target).files start).entries = some map := by
        rw [FileSystem.setEntry, modify_other fs _ same, there]
      exact Directories.enter_entry (directories_some kept) entry

/-- The format of a mode that has nothing else. -/
theorem memoryFile_format (fs : FileSystem) {mode : ModeFlags}
    (same : mode &&& ModeFlags.format = mode) (size : Nat) (kind : FileKind) :
    (fs.memoryFile mode size kind).format = mode := same

private theorem setEntry_deviceId (fs : FileSystem) (directory target file : FileRef)
    (name : ImmutableString) :
    ((fs.setEntry directory name target).files file).deviceId = (fs.files file).deviceId := by
  by_cases same : file = directory
  · subst same
    rw [FileSystem.setEntry, modify_same]
    cases kind : (fs.files file).kind <;> simp only [VirtualFile.setEntry, kind]
  · rw [FileSystem.setEntry, modify_other fs _ same]

private theorem plain_directoried : Directoried fun _ value => value.format ≠ ModeFlags.device := by
  intro fs file
  rw [memoryFile_format fs (by decide)]
  decide

theorem tryLookup_walk {components : List ImmutableString} :
    fs.tryLookup ⟨true, components⟩ = .ok (.ok target) ↔
    fs.directories.walk fs.root components = .ok target := by
  rw [tryLookup_ok, tryLookupFrom_ok]
  exact and_iff_right rfl

private theorem deviceFileSystem_devices (rooted : Rooted fs) (plain : Plain fs)
    (made : deviceFileSystem fs = .ok after) : Devices after := by
  unfold deviceFileSystem requireDirectory at made
  obtain ⟨devDirectory, found, made⟩ := bind_ok.mp made
  obtain ⟨isDirectory, made⟩ := require_bind_ok.mp made
  cases Except.ok.inj made
  obtain ⟨_, reached⟩ := require_bind_ok.mp found
  have old : devDirectory < fs.next := rooted.valid.closed.lookup found
  have ttyNew : devDirectory ≠ fs.next := Nat.ne_of_lt old
  let registered : FileSystem := { fs with devices := fs.devices.set ttyDevice.toNat fs.console }
  let file := registered.newMemoryFile.files fs.next
  let ttyFile : VirtualFile := { file with mode := ModeFlags.device, deviceId := ttyDevice }
  let created := registered.newMemoryFile.modify fs.next ttyFile
  have grows : fs.Grows created := by
    have new := registered.newMemoryFile_grows
    have same : fs.Grows registered.newMemoryFile := ⟨new.console, new.next, new.files⟩
    exact same.modify_new (le_refl _) _
  have ttyHere : (created.setEntry devDirectory tty fs.next).files fs.next = ttyFile := by
    rw [FileSystem.setEntry, modify_other _ _ ttyNew.symm, modify_same]
  refine ⟨HashMap.getOpt_set_same _ _ _, ?_, fun file inside isDevice => ?_, fs.next, ?_⟩
  · have console : ((created.setEntry devDirectory tty fs.next).files fs.console).format ≠
      ModeFlags.device := by
      rw [setEntry_format, (grows.files fs.console rooted.valid.console).format]
      exact plain fs.console rooted.valid.console
    exact console
  · obtain before | rfl := Nat.lt_succ_iff_lt_or_eq.mp inside
    · have format : ((created.setEntry devDirectory tty fs.next).files file).format =
        (fs.files file).format := by
        rw [setEntry_format, (grows.files file before).format]
      exact absurd (format.symm.trans isDevice) (plain file before)
    · exact congrArg VirtualFile.deviceId ttyHere
  · have inDev : created.directories.walk fs.root [dev] = .ok devDirectory :=
      grows.directories.walk rooted.valid.closed.entries rooted.valid.root (lookupFrom_ok reached)
    have kept : (created.setEntry devDirectory tty fs.next).directories.walk fs.root [dev] =
      .ok devDirectory :=
      setEntry_walk (by decide) inDev
    obtain ⟨entries, there⟩ := Option.isSome_iff_exists.mp (grows.isSome old isDirectory)
    have changed : ((created.setEntry devDirectory tty fs.next).files devDirectory).entries =
      some (entries.set tty fs.next) := by
      rw [FileSystem.setEntry, modify_same, VirtualFile.setEntry_directory there]
      rfl
    refine tryLookup_walk.mpr ((Directories.walk_concat kept).trans ?_)
    exact Directories.enter_entry (directories_some changed) (HashMap.getOpt_set_same _ _ _)

private theorem addExample_devices (rooted : Rooted fs) (devices : Devices fs)
    (made : addExample fs = .ok after) : Devices after := by
  unfold addExample requireDirectory at made
  obtain ⟨rootFile, found, made⟩ := bind_ok.mp made
  obtain ⟨_, made⟩ := require_bind_ok.mp made
  cases Except.ok.inj made
  let file := fs.newMemoryFile.files fs.next
  let created := fs.newMemoryFile.modify fs.next (file.append (literal "Hello, world!\n"))
  have grows : fs.Grows created := fs.newMemoryFile_grows.modify_new (le_refl _) _
  have format : (created.files fs.next).format = ModeFlags.regular := by
    have new : file = fs.memoryFile ModeFlags.regular 0 (.memoryFile []) := fs.allocate_new _
    rw [modify_same, (file.append_grows (literal "Hello, world!\n")).format, new, memoryFile_format fs (by decide)]
  refine ⟨devices.registered, ?_, fun other inside isDevice => ?_, ?_⟩
  · have console : ((created.setEntry rootFile (literal "example.txt") fs.next).files fs.console).format ≠ ModeFlags.device := by
      rw [setEntry_format, (grows.files fs.console rooted.valid.console).format]
      exact devices.console
    exact console
  · have before : (created.files other).format = ModeFlags.device :=
      (setEntry_format created _ _ other _).symm.trans isDevice
    obtain old | rfl := Nat.lt_succ_iff_lt_or_eq.mp inside
    · have deviceId : ((created.setEntry rootFile (literal "example.txt") fs.next).files other).deviceId = (fs.files other).deviceId := by
        rw [setEntry_deviceId, (grows.files other old).deviceId]
      exact deviceId.trans (devices.only other old ((grows.files other old).format.symm.trans before))
    · rw [format] at before
      exact absurd before (by decide)
  · obtain ⟨ttyFile, found⟩ := devices.tty
    have reached : created.directories.walk fs.root [dev, tty] = .ok ttyFile :=
      grows.directories.walk rooted.valid.closed.entries rooted.valid.root (tryLookup_walk.mp found)
    exact ⟨ttyFile, tryLookup_walk.mpr (setEntry_walk (by decide) reached)⟩

theorem bootFiles_devices {memory : Memory} {flashRoot depth : Nat}
    (isDirectory : (FileInfo.load memory flashRoot).format = ModeFlags.directory)
    (made : bootFiles memory flashRoot depth = .ok after) : Devices after := by
  unfold bootFiles at made
  obtain ⟨flash, flashMade, made⟩ := bind_ok.mp made
  obtain ⟨memoryFiles, memoryMade, made⟩ := bind_ok.mp made
  obtain ⟨devices, devicesMade, made⟩ := bind_ok.mp made
  obtain ⟨built, constructed, flashMade⟩ := bind_ok.mp flashMade
  obtain ⟨_, flashMade⟩ := require_bind_ok.mp flashMade
  cases Except.ok.inj flashMade
  obtain ⟨valid, _, later, _⟩ :=
    FlashDirectory.construct_spec memory depth consoleFileSystem_valid constructed
  have start : Plain consoleFileSystem := by
    intro file inside
    obtain rfl := Nat.lt_one_iff.mp inside
    decide
  have rooted := memoryFileSystem_rooted valid later memoryMade
  have inFlash := FlashDirectory.construct_everywhere (plain_flashed memory) depth start
    isDirectory constructed
  have plain := memoryFileSystem_everywhere (plain_flashed memory) plain_directoried
    inFlash memoryMade
  exact addExample_devices (deviceFileSystem_rooted rooted devicesMade)
    (deviceFileSystem_devices rooted plain devicesMade) made

/-- The device files are not touched by what only creates regular files. -/
theorem Devices.continues (devices : Devices fs) (valid : fs.Valid) (continues : fs.Continues after)
    (created : ∀ file < after.next, fs.next ≤ file → (after.files file).format ≠ ModeFlags.device) :
    Devices after := by
  obtain ⟨ttyFile, found⟩ := devices.tty
  refine ⟨?_, ?_, fun other inside isDevice => ?_, ttyFile, continues.lookup valid.closed found⟩
  · rw [continues.devices, continues.console]
    exact devices.registered
  · rw [continues.console, (continues.files fs.console valid.console).format]
    exact devices.console
  · obtain old | new := Nat.lt_or_ge other fs.next
    · rw [(continues.files other old).format] at isDevice
      rw [(continues.files other old).deviceId]
      exact devices.only other old isDevice
    · exact absurd isDevice (created other inside new)

theorem Devices.opened {path : Path} {flags : UInt32} (devices : Devices fs) (valid : fs.Valid)
    (opened : FilesOpened fs path flags file after) :
    Devices after := by
  obtain ⟨_, continues, _⟩ := opened_continues valid opened
  refine devices.continues valid continues fun other inside new => ?_
  cases opened with
  | found | truncated => exact absurd inside (Nat.not_lt.mpr new)
  | created asked missing up last found isDirectory unused =>
    obtain rfl : other = fs.next := Nat.le_antisymm (Nat.le_of_lt_succ inside) new
    have made : fs.newMemoryFile.files fs.next = fs.memoryFile ModeFlags.regular 0
      (.memoryFile []) := fs.allocate_new _
    rw [setEntry_format, made, memoryFile_format fs (by decide)]
    decide

theorem Devices.append (devices : Devices fs) (valid : fs.Valid) (old : file < fs.next)
    (bytes : List UInt8) :
    Devices (fs.modify file ((fs.files file).append bytes)) :=
  devices.continues valid (append_continues valid file old bytes).2 fun _ inside new =>
    absurd inside (Nat.not_lt.mpr new)

/-- `lookup` finds what `try_lookup` finds. -/
theorem lookup_iff {path : Path} :
    fs.lookup path = .ok target ↔ fs.tryLookup path = .ok (.ok target) := by
  have from_ (file : FileRef) (components : List ImmutableString) :
      fs.lookupFrom file components = .ok target ↔
        fs.directories.walk file components = .ok target := by
    refine ⟨lookupFrom_ok, fun reached => ?_⟩
    induction components generalizing file with
    | nil => exact congrArg Except.ok (Except.ok.inj reached)
    | cons component components ih =>
      obtain ⟨middle, entered, rest⟩ := bind_ok.mp reached
      obtain ⟨entries, isDirectory, entry⟩ := Directories.enter_ok entered
      obtain ⟨map, there, rfl⟩ := Option.map_eq_some_iff.mp isDirectory
      simp only [lookupFrom, there, entry, must, bind, Except.bind]
      exact ih middle rest
  rw [tryLookup_ok, tryLookupFrom_ok, ← from_]
  exact require_bind_ok

/-- The constructor of a process finds the console and makes three handles. -/
theorem Devices.construct (devices : Devices fs) (valid : fs.Valid) :
    ∃ created, ProcessFiles.construct fs = .ok created := by
  obtain ⟨ttyFile, found⟩ := devices.tty
  obtain ⟨handle, made⟩ := devices.createHandle (valid.closed.existing found)
  have added (process : ProcessFiles) : ProcessFiles.addStandardHandle fs ttyFile process
    process.nextHandleId =
      .ok (process.addFileHandle handle).2 := by
    simp only [ProcessFiles.addStandardHandle, made, bind, Except.bind, require,
      ProcessFiles.addFileHandle, if_true]
  refine ⟨((((⟨.root, .empty, 0⟩ : ProcessFiles).addFileHandle handle).2.addFileHandle handle).2.addFileHandle handle).2, ?_⟩
  refine bind_ok.mpr ⟨ttyFile, lookup_iff.mpr found, ?_⟩
  exact bind_ok.mpr ⟨_, added _, bind_ok.mpr ⟨_, added _, bind_ok.mpr ⟨_, added _, rfl⟩⟩⟩

end PicoOs.Kernel
