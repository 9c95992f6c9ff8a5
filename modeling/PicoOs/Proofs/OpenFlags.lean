import PicoOs.Proofs.DeviceFiles

/-! How `sys$open` follows its flags. A handle for a device file is one of the file that is
registered for the device, which is where the handle belongs. -/

namespace PicoOs.Kernel
open Library PicoOs.Std FileSystem

/-- A device file stands for what is registered for its device, any other file for itself. -/
inductive FileSystem.Stands (fs : FileSystem) : FileRef → FileRef → Prop where
  | plain {file : FileRef} (format : (fs.files file).format ≠ ModeFlags.device) :
      Stands fs file file
  | device {file device target : FileRef} (format : (fs.files file).format = ModeFlags.device)
      (registered : fs.devices.getOpt (fs.files file).deviceId.toNat = some device)
        (stands : Stands fs device target) : Stands fs file target

/-- What the flags ask for, of the file that the path leads to when a handle has been returned.
A file that was there before is a directory if the call asked for one. -/
structure Honours (before after : FileSystem) (path : Path) (flags : UInt32)
    (handle : VirtualFileHandle) (file : FileRef) : Prop where
  found : after.tryLookup path = .ok (.ok file)
  belongs : after.Stands file (after.handleFile handle)
  directory : flags &&& O_DIRECTORY ≠ 0 → (∃ old, before.tryLookup path = .ok (.ok old)) →
    (after.files file).format = ModeFlags.directory
  truncated : flags &&& O_TRUNC ≠ 0 → (after.files file).format = ModeFlags.regular ∧
    (after.files file).size = 0
  entries : flags &&& O_CREAT = 0 → after.next = before.next ∧
    ∀ directory, (after.files directory).entries = (before.files directory).entries

/-- What the flags promise, without a word about devices and about files that were not there. -/
structure Follows (before after : FileSystem) (path : Path) (flags : UInt32)
    (handle : VirtualFileHandle) (file : FileRef) : Prop where
  found : after.tryLookup path = .ok (.ok file)
  belongs : after.handleFile handle = file
  directory : flags &&& O_DIRECTORY ≠ 0 → (after.files file).format = ModeFlags.directory
  truncated : flags &&& O_TRUNC ≠ 0 → (after.files file).format = ModeFlags.regular ∧
    (after.files file).size = 0
  entries : flags &&& O_CREAT = 0 → after.next = before.next ∧
    ∀ directory, (after.files directory).entries = (before.files directory).entries

/-- The path leads to a file that is no device, or to none where no directory is asked for. -/
def OpensPlainly (fs : FileSystem) (path : Path) (flags : UInt32) : Prop :=
  (∃ file, fs.tryLookup path = .ok (.ok file) ∧ (fs.files file).format ≠ ModeFlags.device) ∨
    fs.tryLookup path = .ok (.error .ENOENT) ∧ flags &&& O_DIRECTORY = 0

variable {fs after : FileSystem} {file target : FileRef} {handle : VirtualFileHandle} {path : Path}
  {flags : UInt32}

private theorem FileSystem.Stands.no_device (stands : fs.Stands file target) :
    (fs.files target).format ≠ ModeFlags.device := by
  induction stands with
  | plain format => exact format
  | device _ _ _ ih => exact ih

private theorem FileSystem.Stands.same_iff (stands : fs.Stands file target) :
    target = file ↔ (fs.files file).format ≠ ModeFlags.device := by
  constructor
  · rintro rfl
    exact stands.no_device
  · intro plain
    cases stands with
    | plain => rfl
    | device format => exact absurd format plain

/-- A file that honours the flags follows them as well if it is no device and, where one is asked
for, a directory. -/
theorem Honours.follows_iff {before : FileSystem}
    (honours : Honours before after path flags handle file) :
    (∃ other, Follows before after path flags handle other) ↔
    (after.files file).format ≠ ModeFlags.device ∧
      (flags &&& O_DIRECTORY ≠ 0 → (after.files file).format = ModeFlags.directory) := by
  constructor
  · rintro ⟨other, follows⟩
    obtain rfl := Except.ok.inj (Except.ok.inj (follows.found.symm.trans honours.found))
    exact ⟨honours.belongs.same_iff.mp follows.belongs, follows.directory⟩
  · rintro ⟨plain, directory⟩
    exact ⟨file, honours.found, honours.belongs.same_iff.mpr plain, directory, honours.truncated,
      honours.entries⟩

private theorem createHandleImpl_file (single : Single fs) (old : file < fs.next) :
    fs.handleFile (fs.createHandleImpl file) = file := by
  unfold createHandleImpl
  cases kind : (fs.files file).kind with
  | memoryFile _ | flashFile _ | directory _ => rfl
  | consoleFile => exact (single file old kind).symm

theorem createHandle_stands (valid : fs.Valid) (single : Single fs) (old : file < fs.next)
    (made : fs.createHandle file = .ok handle) :
    fs.Stands file (fs.handleFile handle) := by
  unfold createHandle at made
  generalize fs.devices.entries.length + 1 = rounds at made
  induction rounds generalizing file with
  | zero => cases made
  | succ rounds ih =>
    unfold createHandleWithin at made
    split at made
    next isDevice =>
      obtain ⟨device, registered, made⟩ := bind_ok.mp made
      have there := must_ok.mp registered
      exact .device isDevice there (ih (valid.devices _ device there) made)
    next plain =>
      cases Except.ok.inj made
      rw [createHandleImpl_file single old]
      exact .plain plain

theorem FilesOpened.lookup (closed : fs.Closed) (opened : FilesOpened fs path flags file after) :
    after.tryLookup path = .ok (.ok file) := by
  have grows := opened.grows closed
  cases opened with
  | found present => exact present
  | truncated present =>
    have continues : fs.Continues _ := { toGrows := grows, root := rfl, devices := rfl }
    exact continues.lookup closed present
  | @created parent directory name entries asked missing up last found isDirectory unused =>
    have continues : fs.Continues (fs.newMemoryFile.setEntry directory name fs.next) :=
      { toGrows := grows, root := rfl, devices := rfl }
    obtain ⟨absolute, components⟩ := parent_filename up last
    obtain ⟨absoluteParent, reached⟩ := tryLookup_ok.mp (continues.lookup closed found)
    have still : (fs.newMemoryFile.files directory).entries = some entries := by
      rw [← isDirectory]
      exact congrArg VirtualFile.entries (fs.allocate_old _ (closed.existing found))
    have entered : ((fs.newMemoryFile.setEntry directory name fs.next).files directory).entries =
      some (entries.set name fs.next) := by
      rw [FileSystem.setEntry, modify_same, VirtualFile.setEntry_directory still]
      rfl
    refine tryLookup_ok.mpr ⟨absolute ▸ absoluteParent, ?_⟩
    rw [components, tryLookupFrom_ok, Directories.walk_concat (tryLookupFrom_ok.mp reached)]
    exact Directories.enter_entry (directories_some entered)
      (HashMap.getOpt_set_same entries name fs.next)

theorem ofPath_ok {α : Type} {result : Except PathFault α} {value : α} :
    ofPath result = .ok value ↔ result = .ok value := by
  cases result <;> simp [ofPath, Except.mapError]

namespace KernelFiles
variable {kernel last : KernelFiles} {process : Nat} {result : Return}

/-- What `openFile` returns. -/
theorem openFile_ok (opened : kernel.openFile process fs file = .ok (result, last)) :
    ∃ handle, fs.createHandle file = .ok handle ∧ last.fileSystem = fs ∧
    (last.processes process).handles.getOpt result.value = some handle := by
  obtain ⟨handle, made, done⟩ := bind_ok.mp opened
  cases Except.ok.inj done
  refine ⟨handle, made, rfl, ?_⟩
  have updated : Function.update kernel.processes process
    ((kernel.processes process).addFileHandle handle).2 process =
      ((kernel.processes process).addFileHandle handle).2 := Function.update_self ..
  have held := HashMap.getOpt_set_same (kernel.processes process).handles
    ((kernel.processes process).nextHandleId : Int) handle
  exact (congrArg (fun files : ProcessFiles => files.handles.getOpt _) updated).trans held

/-- A file that was there is opened as it is, or emptied if the call asks for that. -/
private theorem openExisting_ok
    (served : kernel.openExisting process file flags = .ok (result, last))
    (succeeded : 0 ≤ result.value) :
    (flags &&& O_DIRECTORY ≠ 0 → (kernel.fileSystem.files file).format = ModeFlags.directory) ∧
      ((flags &&& O_TRUNC = 0 ∧
          kernel.openFile process kernel.fileSystem file = .ok (result, last)) ∨
        (flags &&& O_TRUNC ≠ 0 ∧ (kernel.fileSystem.files file).format = ModeFlags.regular ∧
          ∃ data, (kernel.fileSystem.files file).kind = .memoryFile data ∧
            kernel.openFile process (kernel.fileSystem.modify file
              { kernel.fileSystem.files file with kind := .memoryFile [], size := 0 }) file =
                .ok (result, last))) := by
  have failed {error : Errno} (same : (failure error, kernel) = (result, last)) : False := by
    have negative := failure_negative error
    rw [(Prod.mk.inj same).1] at negative
    omega
  unfold openExisting at served
  dsimp only at served
  split at served
  next => exact (failed (Except.ok.inj served)).elim
  next checked =>
    refine ⟨fun asked => not_ne_iff.mp fun different => checked ⟨asked, different⟩, ?_⟩
    split at served
    next truncates =>
      split at served
      next =>
        obtain ⟨_, done⟩ := require_bind_ok.mp served
        exact (failed (Except.ok.inj done)).elim
      next notDifferent =>
        obtain ⟨truncated, cut, opened⟩ := bind_ok.mp served
        obtain ⟨data, isMemory, rfl⟩ := VirtualFile.truncate_ok cut
        exact .inr ⟨truncates, not_ne_iff.mp notDifferent, data, isMemory, opened⟩
    next kept => exact .inl ⟨not_ne_iff.mp kept, served⟩

theorem openExisting_honours (valid : kernel.fileSystem.Valid) (single : Single kernel.fileSystem)
    (present : kernel.fileSystem.tryLookup path = .ok (.ok file))
    (served : kernel.openExisting process file flags = .ok (result, last))
    (succeeded : 0 ≤ result.value) :
    ∃ handle, (last.processes process).handles.getOpt result.value = some handle ∧
      Honours kernel.fileSystem last.fileSystem path flags handle file := by
  have closed := valid.closed
  obtain ⟨isDirectory, ⟨kept, opened⟩ | ⟨truncates, regular, data, isMemory, opened⟩⟩ :=
    openExisting_ok served succeeded
  · obtain ⟨handle, made, same, held⟩ := openFile_ok opened
    rw [same]
    refine ⟨handle, held, present, createHandle_stands valid single (closed.existing present) made,
      fun asked _ => isDirectory asked, ?_, fun _ => ⟨rfl, fun _ => rfl⟩⟩
    intro asked
    exact absurd kept asked
  · have plain : flags &&& O_DIRECTORY = 0 := by
      by_contra asked
      have both := (isDirectory asked).symm.trans regular
      exact absurd both (by decide)
    have files : FilesOpened kernel.fileSystem path flags file _ :=
      .truncated present truncates plain regular isMemory
    obtain ⟨still, _, inside⟩ := opened_continues valid files
    obtain ⟨handle, made, same, held⟩ := openFile_ok opened
    rw [same]
    have cutFile := modify_same kernel.fileSystem file
      { kernel.fileSystem.files file with kind := .memoryFile [], size := 0 }
    refine ⟨handle, held, files.lookup closed,
      createHandle_stands still (single.opened closed files) inside made, ?_, ?_, ?_⟩
    · intro asked
      exact absurd plain asked
    · intro _
      rw [cutFile]
      exact ⟨regular, rfl⟩
    · refine fun _ => ⟨rfl, fun directory => ?_⟩
      by_cases here : directory = file
      · rw [here, cutFile, VirtualFile.entries, VirtualFile.entries, isMemory]
      · rw [modify_other _ _ here]

private theorem createFile_opened (closed : kernel.fileSystem.Closed)
    (asked : flags &&& O_CREAT ≠ 0)
    (missing : kernel.fileSystem.tryLookup path = .ok (.error .ENOENT))
    (served : kernel.createFile process path = .ok (result, last))
    (succeeded : 0 ≤ result.value) :
    ∃ after, FilesOpened kernel.fileSystem path flags kernel.fileSystem.next after ∧
      after.files kernel.fileSystem.next = kernel.fileSystem.memoryFile ModeFlags.regular 0
        (.memoryFile []) ∧
      kernel.openFile process after kernel.fileSystem.next = .ok (result, last) := by
  obtain ⟨parent, up, served⟩ := bind_ok.mp served
  obtain ⟨found, looked, served⟩ := bind_ok.mp served
  cases found with
  | error error =>
    have same := (Prod.mk.inj (Except.ok.inj served)).1
    have negative := failure_negative .ENOTDIR
    rw [same] at negative
    omega
  | ok directory =>
    obtain ⟨_, served⟩ := require_bind_ok.mp served
    obtain ⟨name, named, opened⟩ := bind_ok.mp served
    have up := ofPath_ok.mp up
    have named := ofPath_ok.mp named
    obtain ⟨entries, isDirectory, unused⟩ := parent_lacks missing up named looked
    refine ⟨_, .created asked missing up named looked isDirectory unused, ?_, opened⟩
    rw [FileSystem.setEntry, modify_other _ _ (Nat.ne_of_gt (closed.existing looked))]
    exact kernel.fileSystem.allocate_new _

theorem createFile_honours (valid : kernel.fileSystem.Valid) (single : Single kernel.fileSystem)
    (asked : flags &&& O_CREAT ≠ 0)
    (missing : kernel.fileSystem.tryLookup path = .ok (.error .ENOENT))
    (served : kernel.createFile process path = .ok (result, last)) (succeeded : 0 ≤ result.value) :
    ∃ handle, (last.processes process).handles.getOpt result.value = some handle ∧
      (last.fileSystem.files kernel.fileSystem.next).format = ModeFlags.regular ∧
      Honours kernel.fileSystem last.fileSystem path flags handle kernel.fileSystem.next := by
  have closed := valid.closed
  obtain ⟨after, files, new, opened⟩ := createFile_opened closed asked missing served succeeded
  obtain ⟨still, _, inside⟩ := opened_continues valid files
  obtain ⟨handle, made, same, held⟩ := openFile_ok opened
  have regular : (after.files kernel.fileSystem.next).format = ModeFlags.regular :=
    new ▸ memoryFile_format _ (by decide) _ _
  rw [same]
  refine ⟨handle, held, regular, files.lookup closed,
    createHandle_stands still (single.opened closed files) inside made, ?_, ?_, ?_⟩
  · rintro _ ⟨old, present⟩
    rw [missing] at present
    cases present
  · exact fun _ => ⟨regular, congrArg VirtualFile.size new⟩
  · intro none
    exact absurd none asked

private theorem openExisting_format
    (served : kernel.openExisting process file flags = .ok (result, last))
    (succeeded : 0 ≤ result.value) (other : FileRef) :
    (last.fileSystem.files other).format = (kernel.fileSystem.files other).format := by
  obtain ⟨_, ⟨_, opened⟩ | ⟨_, _, data, _, opened⟩⟩ := openExisting_ok served succeeded
  · obtain ⟨handle, made, same, held⟩ := openFile_ok opened
    rw [same]
  · obtain ⟨handle, made, same, held⟩ := openFile_ok opened
    rw [same]
    by_cases here : other = file
    · rw [here, modify_same]
      rfl
    · rw [modify_other _ _ here]

theorem sysOpen_ok {pathname : ImmutableString}
    (served : kernel.sysOpen process pathname flags = .ok (result, last))
    (succeeded : 0 ≤ result.value) :
    ∃ path, resolve (kernel.processes process) pathname = .ok path ∧
      ((∃ file, kernel.fileSystem.tryLookup path = .ok (.ok file) ∧
        kernel.openExisting process file flags = .ok (result, last)) ∨
        kernel.fileSystem.tryLookup path = .ok (.error .ENOENT) ∧ flags &&& O_CREAT ≠ 0 ∧
        kernel.createFile process path = .ok (result, last)) := by
  obtain ⟨path, resolved, served⟩ := bind_ok.mp served
  obtain ⟨found, looked, served⟩ := bind_ok.mp served
  refine ⟨path, resolved, ?_⟩
  cases found with
  | ok file => exact .inl ⟨file, looked, served⟩
  | error error =>
    dsimp only at served
    split at served
    next creates =>
      obtain ⟨rfl, asked⟩ := creates
      exact .inr ⟨looked, asked, served⟩
    next =>
      have same := (Prod.mk.inj (Except.ok.inj served)).1
      have negative := failure_negative error
      rw [same] at negative
      omega

/-- Whatever the flags are, a descriptor that is returned is one for what they ask for. -/
theorem open_honours (valid : kernel.fileSystem.Valid) (single : Single kernel.fileSystem)
    (process : Nat) (pathname : ImmutableString)
    (flags : UInt32) (result : Return) (last : KernelFiles)
    (served : kernel.sysOpen process pathname flags = .ok (result, last))
    (succeeded : 0 ≤ result.value) :
    ∃ path handle file, resolve (kernel.processes process) pathname = .ok path ∧
      (last.processes process).handles.getOpt result.value = some handle ∧
      Honours kernel.fileSystem last.fileSystem path flags handle file := by
  obtain ⟨path, resolved, ⟨file, looked, existing⟩ | ⟨missing, asked, created⟩⟩ :=
    sysOpen_ok served succeeded
  · obtain ⟨handle, held, honours⟩ := openExisting_honours valid single looked existing succeeded
    exact ⟨path, handle, file, resolved, held, honours⟩
  · obtain ⟨handle, held, _, honours⟩ :=
      createFile_honours valid single asked missing created succeeded
    exact ⟨path, handle, _, resolved, held, honours⟩

/-- A descriptor is one for the file that the path leads to, and as the flags ask, exactly if
that file is no device, or is created and no directory is asked for. -/
theorem open_follows_iff (valid : kernel.fileSystem.Valid) (single : Single kernel.fileSystem)
    (process : Nat) (pathname : ImmutableString)
    (flags : UInt32) (result : Return) (last : KernelFiles)
    (served : kernel.sysOpen process pathname flags = .ok (result, last))
    (succeeded : 0 ≤ result.value) :
    ∃ path handle, resolve (kernel.processes process) pathname = .ok path ∧
      (last.processes process).handles.getOpt result.value = some handle ∧
      ((∃ file, Follows kernel.fileSystem last.fileSystem path flags handle file) ↔
        OpensPlainly kernel.fileSystem path flags) := by
  obtain ⟨path, resolved, ⟨file, looked, existing⟩ | ⟨missing, asked, created⟩⟩ :=
    sysOpen_ok served succeeded
  · obtain ⟨handle, held, honours⟩ := openExisting_honours valid single looked existing succeeded
    refine ⟨path, handle, resolved, held, honours.follows_iff.trans ?_⟩
    have kept := openExisting_format existing succeeded file
    constructor
    · exact fun plain => .inl ⟨file, looked, kept ▸ plain.1⟩
    · rintro (⟨other, there, plain⟩ | ⟨absent, _⟩)
      · obtain rfl := Except.ok.inj (Except.ok.inj (looked.symm.trans there))
        exact ⟨kept ▸ plain, fun asked => honours.directory asked ⟨file, looked⟩⟩
      · cases looked.symm.trans absent
  · obtain ⟨handle, held, regular, honours⟩ :=
      createFile_honours valid single asked missing created succeeded
    refine ⟨path, handle, resolved, held, honours.follows_iff.trans ?_⟩
    rw [regular]
    constructor
    · rintro ⟨_, directory⟩
      refine .inr ⟨missing, ?_⟩
      by_contra wanted
      exact absurd (directory wanted) (by decide)
    · rintro (⟨other, there, _⟩ | ⟨_, plain⟩)
      · cases missing.symm.trans there
      · exact ⟨by decide, fun wanted => absurd plain wanted⟩

private theorem reachable_single {memory : Memory} {flashRoot depth : Nat} {uart : UART}
    {start : KernelFiles}
    (booted : boot memory flashRoot depth uart = .ok start)
    (reachable : machine.Reachable start kernel) :
    kernel.Valid ∧ Single kernel.fileSystem := by
  have began : start.Valid ∧ Single start.fileSystem := by
    refine ⟨boot_valid booted, ?_⟩
    obtain ⟨fs, files, booted⟩ := bind_ok.mp booted
    obtain ⟨shellFile, _, booted⟩ := bind_ok.mp booted
    split at booted
    next =>
      obtain ⟨created, _, booted⟩ := bind_ok.mp booted
      cases Except.ok.inj booted
      exact bootFiles_single files
    next => cases booted
  refine reachable.invariant (fun kernel => kernel.Valid ∧ Single kernel.fileSystem) began ?_
  rintro state event next ⟨valid, single⟩ permitted executed
  have serves := execute_serves valid executed
  exact ⟨(serves.valid valid permitted).1, serves.single valid.rooted.valid single⟩

/-- Where a directory is to be created, the descriptor is one for a regular file. -/
theorem open_follows_iff_created :
    ∃ start result last, boot shellFlash 4096 1 (.initial 0 fun _ => 0) = .ok start ∧
    start.sysOpen 0 (literal "/new") (O_CREAT ||| O_DIRECTORY) = .ok (result, last) ∧ 0 ≤ result.value ∧
    ∃ path handle, resolve (start.processes 0) (literal "/new") = .ok path ∧
      (last.processes 0).handles.getOpt result.value = some handle ∧
      ((∃ file, Follows start.fileSystem last.fileSystem path (O_CREAT ||| O_DIRECTORY) handle file) ↔
        OpensPlainly start.fileSystem path (O_CREAT ||| O_DIRECTORY)) ∧
      ¬ OpensPlainly start.fileSystem path (O_CREAT ||| O_DIRECTORY) := by
  have played : ((boot shellFlash 4096 1 (.initial 0 fun _ => 0)).toOption.bind fun start =>
      (start.sysOpen 0 (literal "/new") (O_CREAT ||| O_DIRECTORY)).toOption.bind fun value =>
        ((resolve (start.processes 0) (literal "/new")).toOption.bind fun path => (start.fileSystem.tryLookup path).toOption).map fun found =>
          (value.1.value, found.toOption)) = some (3, none) := by decide +kernel
  obtain ⟨start, booted, rest⟩ := Option.bind_eq_some_iff.mp played
  obtain ⟨⟨result, last⟩, served, rest⟩ := Option.bind_eq_some_iff.mp rest
  obtain ⟨found, looked, facts⟩ := Option.map_eq_some_iff.mp rest
  obtain ⟨path, resolved, looked⟩ := Option.bind_eq_some_iff.mp looked
  simp only [Prod.mk.injEq] at facts
  obtain ⟨descriptor, missing⟩ := facts
  have succeeded : 0 ≤ result.value := descriptor ▸ (by decide : (0 : Int) ≤ 3)
  have began := toOption_some.mp booted
  have opened := toOption_some.mp served
  obtain ⟨valid, single⟩ := reachable_single began ⟨[], .start⟩
  obtain ⟨other, handle, resolvedOther, held, exactly⟩ :=
    open_follows_iff valid.rooted.valid single 0 _ (O_CREAT ||| O_DIRECTORY) result last
      opened succeeded
  obtain rfl := Except.ok.inj (resolvedOther.symm.trans (toOption_some.mp resolved))
  refine ⟨start, result, last, began, opened, succeeded, other, handle, resolvedOther,
    held, exactly, ?_⟩
  rintro (⟨file, there, _⟩ | ⟨_, plain⟩)
  · obtain rfl := Except.ok.inj ((toOption_some.mp looked).symm.trans there)
    cases missing
  · exact absurd plain (by decide)

/-- The handle of the terminal belongs to the console, and not to the file that the path leads
to. -/
theorem tty_elsewhere : ∃ start result last handle,
    boot shellFlash 4096 1 (.initial 0 fun _ => 0) = .ok start ∧
    start.sysOpen 0 (literal "/dev/tty") 0 = .ok (result, last) ∧ 0 ≤ result.value ∧
    resolve (start.processes 0) (literal "/dev/tty") = .ok ⟨true, [dev, tty]⟩ ∧
    (last.processes 0).handles.getOpt result.value = some handle ∧
    ¬ ∃ file, last.fileSystem.tryLookup ⟨true, [dev, tty]⟩ = .ok (.ok file) ∧
    last.fileSystem.handleFile handle = file := by
  have played : ((boot shellFlash 4096 1 (.initial 0 fun _ => 0)).toOption.bind fun start =>
      (start.sysOpen 0 (literal "/dev/tty") 0).toOption.bind fun value =>
        ((value.2.processes 0).handles.getOpt value.1.value).map fun handle =>
          (value.1.value, (resolve (start.processes 0) (literal "/dev/tty")).toOption,
            ((value.2.fileSystem.tryLookup ⟨true, [dev, tty]⟩).toOption.bind Except.toOption,
              value.2.fileSystem.handleFile handle))) =
      some (3, some ⟨true, [dev, tty]⟩, some 5, 0) := by decide +kernel
  obtain ⟨start, booted, rest⟩ := Option.bind_eq_some_iff.mp played
  obtain ⟨⟨result, last⟩, served, rest⟩ := Option.bind_eq_some_iff.mp rest
  obtain ⟨handle, held, facts⟩ := Option.map_eq_some_iff.mp rest
  simp only [Prod.mk.injEq] at facts
  obtain ⟨descriptor, resolved, found, file⟩ := facts
  have succeeded : 0 ≤ result.value := descriptor ▸ (by decide : (0 : Int) ≤ 3)
  refine ⟨start, result, last, handle, toOption_some.mp booted, toOption_some.mp served, succeeded,
    toOption_some.mp resolved, held, ?_⟩
  rintro ⟨other, looked, same⟩
  rw [looked] at found
  obtain rfl : other = 5 := Option.some.inj found
  rw [file] at same
  cases same

end KernelFiles
end PicoOs.Kernel
