import PicoOs.Kernel.Threads.FileCalls
import PicoOs.Proofs.FileBoot

/-! What `sys$open` does. When a whole path ends in `ENOENT`, but its parent is found, then
the parent is a directory that lacks the last name. So a new entry replaces none. -/

namespace PicoOs.Kernel
open Library PicoOs.Std FileSystem

section
variable {α : Type} {tolerated : Crash → Prop}

theorem yields_require {fault : Crash} {condition : Prop} [Decidable condition]
    (allowed : ¬condition → tolerated fault) :
    Yields tolerated (require fault condition) fun _ => condition := by
  unfold require
  split
  next met => exact .ok met
  next unmet => exact .error (allowed unmet)

private theorem yields_ofPath {result : Except PathFault α}
    (allowed : ∀ fault, tolerated (.path fault)) :
    Yields tolerated (ofPath result) fun value => result = .ok value := by
  cases result with
  | error fault => exact .error (allowed fault)
  | ok value => exact .ok rfl

end

/-- A path is its parent followed by its last component. -/
theorem parent_filename {path parent : Path} {name : ImmutableString}
    (up : path.parent = .ok parent) (last : path.filename = .ok name) :
    parent.isAbsolute = path.isAbsolute ∧ path.components = parent.components ++ [name] := by
  unfold Path.parent at up
  split at up
  next =>
    cases Except.ok.inj up
    unfold Path.filename at last
    split at last
    next component there =>
      cases Except.ok.inj last
      exact ⟨rfl, (List.dropLast_append_getLast? name there).symm⟩
    next => cases last
  next => cases up

section
variable {fs : FileSystem} {path parent : Path} {name : ImmutableString} {directory : FileRef}

/-- The unstated fact behind the creation of a file. -/
theorem parent_lacks (missing : fs.tryLookup path = .ok (.error .ENOENT))
    (up : path.parent = .ok parent)
    (last : path.filename = .ok name) (found : fs.tryLookup parent = .ok (.ok directory)) :
    ∃ entries, (fs.files directory).entries = some entries ∧ entries.getOpt name = none := by
  obtain ⟨_, components⟩ := parent_filename up last
  obtain ⟨_, stopped⟩ := tryLookup_ok.mp missing
  obtain ⟨_, reached⟩ := tryLookup_ok.mp found
  rw [components] at stopped
  obtain ⟨entries, there, unused⟩ :=
    Directories.walk_missing (tryLookupFrom_ok.mp reached) (tryLookupFrom_missing.mp stopped)
  obtain ⟨map, same, rfl⟩ := Option.map_eq_some_iff.mp there
  exact ⟨map, same, unused⟩

theorem tryLookup_present (fs : FileSystem) (absolute : path.isAbsolute)
    (nothing : path.components = []) :
    fs.tryLookup path = .ok (.ok fs.root) := by
  rw [tryLookup_absolute absolute, nothing]
  rfl

end

inductive FilesOpened (fs : FileSystem) (path : Path) (flags : UInt32) :
    FileRef → FileSystem → Prop where
  | found {file : FileRef} (present : fs.tryLookup path = .ok (.ok file)) :
      FilesOpened fs path flags file fs
  | truncated {file : FileRef} {data : List UInt8} (present : fs.tryLookup path = .ok (.ok file))
      (asked : flags &&& O_TRUNC ≠ 0) (plain : flags &&& O_DIRECTORY = 0)
        (regular : (fs.files file).format = ModeFlags.regular)
      (isMemory : (fs.files file).kind = .memoryFile data) :
      FilesOpened fs path flags file (fs.modify file { fs.files file with kind := .memoryFile [], size := 0 })
  | created {parent : Path} {directory : FileRef} {name : ImmutableString}
      {entries : HashMap ImmutableString FileRef}
      (asked : flags &&& O_CREAT ≠ 0) (missing : fs.tryLookup path = .ok (.error .ENOENT))
      (up : path.parent = .ok parent) (last : path.filename = .ok name)
        (found : fs.tryLookup parent = .ok (.ok directory))
      (isDirectory : (fs.files directory).entries = some entries)
        (unused : entries.getOpt name = none) :
      FilesOpened fs path flags fs.next (fs.newMemoryFile.setEntry directory name fs.next)

/-- What `sys$open` may have done when it returns: nothing, or it has opened a file and made
a handle with the next number for it. -/
inductive Opens (kernel : KernelFiles) (process : Nat) (path : Path) (flags : UInt32) :
    Return → KernelFiles → Prop where
  | failed (error : Errno) : Opens kernel process path flags (KernelFiles.failure error) kernel
  | opened {file : FileRef} {fs : FileSystem} {handle : VirtualFileHandle}
      (files : FilesOpened kernel.fileSystem path flags file fs)
        (made : fs.createHandle file = .ok handle) :
      Opens kernel process path flags ⟨(kernel.processes process).nextHandleId, .nothing⟩
        { kernel.modifyProcess process ((kernel.processes process).addFileHandle handle).2 with fileSystem := fs }

namespace KernelFiles
variable {kernel after : KernelFiles} {process : Nat} {path : Path} {flags : UInt32}
  {fs : FileSystem} {file : FileRef} {result : Return}

theorem failure_negative (error : Errno) : (failure error).value < 0 := by
  cases error <;> decide

private theorem createHandleWithin_yields (fs : FileSystem) (rounds : Nat) (file : FileRef) :
    Yields (fun fault => fault = .must ∨ fault = .exhausted) (fs.createHandleWithin rounds file)
      fun handle => fs.createHandleWithin rounds file = .ok handle := by
  induction rounds generalizing file with
  | zero => exact .error (.inr rfl)
  | succ rounds ih =>
    unfold createHandleWithin
    split
    next =>
      cases registered : fs.devices.getOpt (fs.files file).deviceId.toNat with
      | none => exact .error (.inl rfl)
      | some device => exact ih device
    next => exact .ok rfl

theorem openFile_yields (files : FilesOpened kernel.fileSystem path flags file fs) :
    Yields (fun fault => fault = .must ∨ fault = .exhausted) (kernel.openFile process fs file)
      fun value => Opens kernel process path flags value.1 value.2 :=
  (createHandleWithin_yields fs _ file).bind fun _ made => .ok (.opened files made)

theorem createFile_yields {tolerated : Crash → Prop} {post : Return × KernelFiles → Prop}
    (closed : kernel.fileSystem.Closed)
    (asked : flags &&& O_CREAT ≠ 0)
    (missing : kernel.fileSystem.tryLookup path = .ok (.error .ENOENT))
    (failed : ∀ error, post (failure error, kernel))
    (opens : ∀ {fs file}, FilesOpened kernel.fileSystem path flags file fs →
      Yields tolerated (kernel.openFile process fs file) post) :
    Yields tolerated (kernel.createFile process path) post := by
  have absolute := (tryLookup_ok.mp missing).1
  have nonempty : path.components ≠ [] := by
    intro nothing
    rw [tryLookup_present kernel.fileSystem absolute nothing] at missing
    cases missing
  have up : path.parent = .ok { path with components := path.components.dropLast } :=
    if_pos (List.length_pos_of_ne_nil nonempty)
  have last : path.filename = .ok (path.components.getLast nonempty) := by
    rw [Path.filename, List.getLast?_eq_getLast_of_ne_nil nonempty]
  have looked : kernel.fileSystem.tryLookup { path with components := path.components.dropLast } =
      .ok (kernel.fileSystem.tryLookupFrom kernel.fileSystem.root path.components.dropLast) :=
        tryLookup_absolute absolute
  simp only [createFile, up, last, looked, ofPath, Except.mapError, bind, Except.bind]
  cases found : kernel.fileSystem.tryLookupFrom kernel.fileSystem.root path.components.dropLast with
  | error _ => exact .ok (failed .ENOTDIR)
  | ok directory =>
    rw [found] at looked
    obtain ⟨entries, isDirectory, unused⟩ := parent_lacks missing up last looked
    have still : (kernel.fileSystem.newMemoryFile.files directory).entries = some entries := by
      rw [← isDirectory]
      exact congrArg VirtualFile.entries (kernel.fileSystem.allocate_old _ (closed.existing looked))
    simp only [still, Option.isSome_some, require, if_true]
    exact opens (.created asked missing up last looked isDirectory unused)

private theorem truncate_yields (file : VirtualFile) :
    Yields (fun fault => fault = .notReached) file.truncate
    fun truncated => ∃ data, file.kind = .memoryFile data ∧
    truncated = { file with kind := .memoryFile [], size := 0 } := by
  cases made : file.truncate with
  | ok truncated => exact .ok (VirtualFile.truncate_ok made)
  | error fault =>
    unfold VirtualFile.truncate at made
    split at made
    next => cases made
    next => exact .error (Except.error.inj made).symm

private theorem openExisting_yields (present : kernel.fileSystem.tryLookup path = .ok (.ok file)) :
    Yields (fun fault => fault ≠ .nullCast ∧ fault ≠
      .verify) (kernel.openExisting process file flags)
      fun value => Opens kernel process path flags value.1 value.2 := by
  have opened {fs : FileSystem} (files : FilesOpened kernel.fileSystem path flags file fs) :
      Yields (fun fault => fault ≠ .nullCast ∧ fault ≠ .verify) (kernel.openFile process fs file)
        fun value => Opens kernel process path flags value.1 value.2 :=
    (openFile_yields files).tolerate (by rintro fault (rfl | rfl) <;> decide)
  unfold openExisting
  dsimp only
  split
  next => exact .ok (.failed .ENOTDIR)
  next allowed =>
    split
    next asked =>
      split
      next =>
        refine (yields_require (fun _ => by decide)).bind fun _ _ => ?_
        exact .ok (.failed .EISDIR)
      next regular =>
        refine ((truncate_yields _).tolerate (by rintro fault rfl; decide)).bind ?_
        rintro truncated ⟨data, isMemory, rfl⟩
        have format := not_ne_iff.mp regular
        have plain : flags &&& O_DIRECTORY = 0 := by
          rw [format] at allowed
          exact not_ne_iff.mp fun directory => allowed ⟨directory, by decide⟩
        exact opened (.truncated present asked plain format isMemory)
    next => exact opened (.found present)

/-- A path is absolute when it has been resolved from an absolute working directory. -/
theorem resolve_yields (process : ProcessFiles) (pathname : ImmutableString) :
    Yields (fun fault => ∃ cause, fault = .path cause) (resolve process pathname) fun path =>
      resolve process pathname = .ok path ∧ (process.workingDirectory.isAbsolute →
        path.isAbsolute) := by
  refine Yields.named ?_
  unfold resolve
  refine (yields_ofPath fun cause => ⟨cause, rfl⟩).bind fun path _ => ?_
  split
  next absolute => exact .ok fun _ => absolute
  next =>
    refine (yields_ofPath fun cause => ⟨cause, rfl⟩).mono fun joined appended absolute => ?_
    unfold Path.append at appended
    split at appended
    next => cases appended
    next =>
      cases Except.ok.inj appended
      exact absolute

private theorem tryLookup_yields (fs : FileSystem) (path : Path) :
    Yields (fun fault => fault = .verify ∧ ¬path.isAbsolute) (fs.tryLookup path)
      fun found => fs.tryLookup path = .ok found := by
  have absolute := @yields_require (fun fault => fault = .verify ∧ ¬path.isAbsolute) .verify
    (path.isAbsolute = true) _
    fun relative => ⟨rfl, relative⟩
  have looked : Yields (fun fault => fault = .verify ∧ ¬path.isAbsolute) (fs.tryLookup path)
    fun _ => True :=
    absolute.bind fun _ _ => .ok trivial
  exact looked.named.mono fun _ both => both.1

/-- What may stop a call that looks a path up: it never uses the entries of a file that has
none, and only a working directory that is not absolute makes a path that is not. -/
def LookupFault (process : ProcessFiles) (fault : Crash) : Prop :=
  fault ≠ .nullCast ∧ (fault = .verify → ¬process.workingDirectory.isAbsolute)

theorem looksUp (kernel : KernelFiles) (process : Nat) (pathname : ImmutableString) {α : Type}
    {post : α → Prop}
    {rest : Path → Except Errno FileRef → Except Crash α}
    (step : ∀ path found, resolve (kernel.processes process) pathname = .ok path →
      kernel.fileSystem.tryLookup path = .ok found →
      Yields (LookupFault (kernel.processes process)) (rest path found) post) :
    Yields (LookupFault (kernel.processes process)) (do
      let path ← resolve (kernel.processes process) pathname
      let found ← kernel.fileSystem.tryLookup path
      rest path found) post := by
  refine ((resolve_yields (kernel.processes process) pathname).tolerate ?_).bind fun path both => ?_
  · rintro fault ⟨cause, rfl⟩
    exact ⟨nofun, nofun⟩
  refine ((tryLookup_yields kernel.fileSystem path).tolerate ?_).bind fun found looked =>
    step path found both.1 looked
  rintro fault ⟨rfl, relative⟩
  exact ⟨nofun, fun _ absolute => relative (both.2 absolute)⟩

/-- A call of open does nothing and fails, or opens a file. -/
theorem sysOpen_yields (closed : kernel.fileSystem.Closed) (process : Nat)
    (pathname : ImmutableString) (flags : UInt32) :
    Yields (LookupFault (kernel.processes process)) (kernel.sysOpen process pathname flags) fun value =>
      ∃ path, resolve (kernel.processes process) pathname = .ok path ∧
        Opens kernel process path flags value.1 value.2 := by
  refine looksUp kernel process pathname fun path found resolved looked => ?_
  refine Yields.mono ?_ fun value opens => ⟨path, resolved, opens⟩
  cases found with
  | error error =>
    dsimp only
    split
    next creates =>
      obtain ⟨rfl, asked⟩ := creates
      refine (createFile_yields closed asked looked .failed openFile_yields).tolerate ?_
      rintro fault (rfl | rfl) <;> exact ⟨nofun, nofun⟩
    next => exact .ok (.failed error)
  | ok file =>
    refine (openExisting_yields looked).tolerate ?_
    rintro fault ⟨noCast, noVerify⟩
    exact ⟨noCast, fun same => absurd same noVerify⟩

theorem sysChdir_yields (kernel : KernelFiles) (process : Nat) (pathname : ImmutableString) :
    Yields (LookupFault (kernel.processes process)) (kernel.sysChdir process pathname)
      fun _ => True := by
  refine looksUp kernel process pathname fun path found _ _ => ?_
  cases found with
  | error error => exact .ok trivial
  | ok file =>
    dsimp only
    split
    next => exact .ok trivial
    next => exact .ok trivial

/-- Directories refer to files that exist, and descriptors have been handed out before.
Every state that is reached is so. -/
structure Formed (kernel : KernelFiles) : Prop where
  closed : kernel.fileSystem.Closed
  numbered : ∀ process < kernel.next, ∀ fd handle, (kernel.processes process).handles.getOpt
    fd = some handle →
    fd < (kernel.processes process).nextHandleId

structure OpenAtomic (kernel after : KernelFiles) (process : Nat) (path : Path) (flags : UInt32)
    (result : Return) : Prop where
  failed : result.value < 0 → after = kernel
  opened : 0 ≤ result.value → (kernel.processes process).handles.getOpt result.value = none ∧
    ∃ file handle, FilesOpened kernel.fileSystem path flags file after.fileSystem ∧
      after.fileSystem.createHandle file = .ok handle ∧
      after = { kernel with
        fileSystem := after.fileSystem
        processes := Function.update kernel.processes process { kernel.processes process with
          handles := (kernel.processes process).handles.set result.value handle
          nextHandleId := (kernel.processes process).nextHandleId + 1 } }
  kept : Directories.Extends kernel.fileSystem.Existing kernel.fileSystem.directories
    after.fileSystem.directories

end KernelFiles

/-- No file loses an entry, and nothing but the contents of the opened file is lost. -/
theorem FilesOpened.grows {fs after : FileSystem} {path : Path} {flags : UInt32} {file : FileRef}
    (closed : fs.Closed)
    (opened : FilesOpened fs path flags file after) : fs.Grows after := by
  cases opened with
  | found present => exact .refl fs
  | @truncated _ data present asked plain regular isMemory =>
    refine modify_grows ⟨rfl, rfl, rfl, rfl, ?_⟩
    rw [isMemory]
    exact .memoryFile data []
  | @created parent directory name entries asked missing up last found isDirectory unused =>
    refine fs.newMemoryFile_grows.trans (setEntry_grows fun more target there present => ?_)
    have still : fs.newMemoryFile.files directory = fs.files directory :=
      fs.allocate_old _ (closed.existing found)
    rw [still, isDirectory] at there
    rw [← Option.some.inj there, unused] at present
    cases present

namespace KernelFiles
variable {kernel : KernelFiles} {process : Nat}

/-- A call of open that fails changes nothing, and one that returns a descriptor has made it
and at most one entry, under a name that was not used, or has truncated the file. -/
theorem open_atomic (formed : kernel.Formed) (running : process < kernel.next)
    (pathname : ImmutableString) (flags : UInt32) :
    kernel.sysOpen process pathname flags ≠ .error .nullCast ∧
      ∀ result after, kernel.sysOpen process pathname flags = .ok (result, after) →
        ∃ path, resolve (kernel.processes process) pathname = .ok path ∧
        OpenAtomic kernel after process path flags result := by
  have yields := sysOpen_yields formed.closed process pathname flags
  refine ⟨fun crashed => (yields.fault crashed).1 rfl, fun result after returned => ?_⟩
  obtain ⟨path, resolved, opens⟩ := yields.value returned
  refine ⟨path, resolved, ?_⟩
  cases opens with
  | failed error =>
    exact ⟨fun _ => rfl, fun opened => absurd (failure_negative error) (Int.not_lt.mpr opened),
      (FileSystem.Grows.refl _).directories⟩
  | @opened file fs handle files made =>
    refine ⟨fun negative => absurd negative (Int.not_lt.mpr (Int.natCast_nonneg _)),
      fun _ => ⟨?_, file, handle, files, made, rfl⟩,
      (files.grows formed.closed).directories⟩
    cases present : (kernel.processes process).handles.getOpt
      (kernel.processes process).nextHandleId with
    | none => rfl
    | some other => exact absurd (formed.numbered process running _ other present) (Int.lt_irrefl _)

def empty : KernelFiles where
  fileSystem := ⟨fun _ => { VirtualFile.construct (.directory .empty) with mode := ModeFlags.directory }, 1, 3, 0, .empty, 0⟩
  uart := .initial 0 fun _ => 0
  processes _ := ⟨.root, .empty, 0⟩
  next := 1

private theorem empty_formed : empty.Formed where
  closed := by
    refine ⟨Nat.zero_lt_one, fun file entries name target _ directory entry => ?_⟩
    cases Option.some.inj directory
    cases entry
  numbered _ _ _ _ present := nomatch present

/-- The first process creates a file in the root. -/
theorem open_atomic_create : ∃ result after, empty.sysOpen 0 (literal "/new") O_CREAT = .ok (result, after) ∧
    ∃ path, resolve (empty.processes 0) (literal "/new") = .ok path ∧ OpenAtomic empty after 0 path O_CREAT result :=
  ⟨_, _, rfl, (open_atomic empty_formed Nat.zero_lt_one (literal "/new") O_CREAT).2 _ _ rfl⟩

end KernelFiles
end PicoOs.Kernel
