import PicoOs.Library.Directories
import PicoOs.Kernel.FileSystem.MemoryFileSystem
import PicoOs.Proofs.HashEntries

/-! File systems that only grow. A file keeps its kind, its mode and its number, and a name
in a directory keeps its file, so that what a path has led to it leads to for ever. -/

namespace PicoOs.Kernel
open Library PicoOs.Std

inductive FileKind.Grows : FileKind → FileKind → Prop where
  | memoryFile (data other : List UInt8) : Grows (.memoryFile data) (.memoryFile other)
  | flashFile (data : List UInt8) : Grows (.flashFile data) (.flashFile data)
  | directory {entries more : HashMap ImmutableString FileRef}
      (kept : ∀ name target, entries.getOpt name = some target → more.getOpt name = some target) :
      Grows (.directory entries) (.directory more)
  | consoleFile : Grows .consoleFile .consoleFile

namespace FileKind.Grows

private theorem refl (kind : FileKind) : Grows kind kind := by
  cases kind with
  | memoryFile data => exact .memoryFile data data
  | flashFile data => exact .flashFile data
  | directory entries => exact .directory fun _ _ present => present
  | consoleFile => exact .consoleFile

private theorem trans {before middle after : FileKind} (first : Grows before middle)
    (last : Grows middle after) : Grows before after := by
  cases first with
  | memoryFile data other =>
    cases last with
    | memoryFile _ final => exact .memoryFile data final
  | flashFile data =>
    cases last with
    | flashFile _ => exact .flashFile data
  | directory kept =>
    cases last with
    | directory more =>
        exact .directory fun name target present => more name target (kept name target present)
  | consoleFile =>
    cases last with
    | consoleFile => exact .consoleFile

end FileKind.Grows

structure VirtualFile.Grows (before after : VirtualFile) : Prop where
  filesystem : after.filesystem = before.filesystem
  ino : after.ino = before.ino
  mode : after.mode = before.mode
  deviceId : after.deviceId = before.deviceId
  kind : before.kind.Grows after.kind

namespace VirtualFile

def content (file : VirtualFile) : Option (List UInt8) :=
  match file.kind with
  | .memoryFile data | .flashFile data => some data
  | .directory _ | .consoleFile => none

/-- A file that refers to existing files, with a mode and a size that are right. -/
structure Fits (next : FileRef) (file : VirtualFile) : Prop where
  entries : ∀ entries name target, file.entries = some entries →
    entries.getOpt name = some target → target < next
  directory : file.format = ModeFlags.directory → file.entries.isSome
  size : ∀ data, file.content = some data → file.size = data.length

variable {file : VirtualFile} {next later : FileRef}

theorem content_memoryFile {data : List UInt8} (kind : file.kind = .memoryFile data) :
    file.content = some data := by
  rw [content, kind]

private theorem Fits.mono (fits : file.Fits next) (le : next ≤ later) : file.Fits later where
  entries entries name target directory entry :=
    (fits.entries entries name target directory entry).trans_le le
  directory := fits.directory
  size := fits.size

/-- A file without entries. -/
theorem Fits.plain (none : file.entries = none) (format : file.format ≠ ModeFlags.directory)
    (size : ∀ data, file.content = some data → file.size = data.length) : file.Fits next where
  entries _ _ _ directory := nomatch none.symm.trans directory
  directory same := absurd same format
  size := size

theorem Fits.emptyDirectory (kind : file.kind = .directory .empty) : file.Fits next where
  entries entries name target directory entry := by
    obtain rfl : HashMap.empty = entries := by
      simpa only [VirtualFile.entries, kind, Option.some.injEq] using directory
    cases entry
  directory _ := by rw [VirtualFile.entries, kind]; rfl
  size data same := by
    rw [content, kind] at same
    cases same

theorem Grows.refl (file : VirtualFile) : file.Grows file := ⟨rfl, rfl, rfl, rfl, .refl file.kind⟩

private theorem Grows.trans {before middle after : VirtualFile} (first : before.Grows middle)
    (last : middle.Grows after) : before.Grows after where
  filesystem := last.filesystem.trans first.filesystem
  ino := last.ino.trans first.ino
  mode := last.mode.trans first.mode
  deviceId := last.deviceId.trans first.deviceId
  kind := first.kind.trans last.kind

theorem Grows.format {before after : VirtualFile} (grows : before.Grows after) :
    after.format = before.format := by
  rw [VirtualFile.format, VirtualFile.format, grows.mode]

theorem entries_directory {entries : HashMap ImmutableString FileRef}
    (directory : file.entries = some entries) :
    file.kind = .directory entries := by
  unfold VirtualFile.entries at directory
  split at directory
  next same => rw [same, Option.some.inj directory]
  next => cases directory

theorem setEntry_directory {entries : HashMap ImmutableString FileRef}
    (directory : file.entries = some entries)
    (name : ImmutableString) (target : FileRef) :
    file.setEntry name target = { file with kind := .directory (entries.set name target) } := by
  rw [setEntry, entries_directory directory]

private theorem Fits.setEntry {name : ImmutableString} {target : FileRef} (fits : file.Fits next)
    (old : target < next) :
    (file.setEntry name target).Fits next := by
  cases kind : file.kind with
  | directory entries =>
    have directory : file.entries = some entries := by rw [VirtualFile.entries, kind]
    rw [setEntry_directory directory]
    refine ⟨fun more other found same present => ?_, fun _ => rfl, nofun⟩
    obtain rfl : entries.set name target = more := Option.some.inj same
    obtain ⟨_, rfl⟩ | ⟨_, before⟩ := HashMap.getOpt_set_cases present
    · exact old
    · exact fits.entries entries other found directory before
  | memoryFile _ | flashFile _ | consoleFile => simpa only [VirtualFile.setEntry, kind] using fits

private theorem Grows.setEntry {name : ImmutableString} {target : FileRef}
    (fresh : ∀ entries found, file.entries = some entries → entries.getOpt name = some found →
      found = target) :
    file.Grows (file.setEntry name target) := by
  cases kind : file.kind with
  | directory entries =>
    have directory : file.entries = some entries := by rw [VirtualFile.entries, kind]
    rw [setEntry_directory directory]
    refine ⟨rfl, rfl, rfl, rfl, kind ▸ .directory fun other found present => ?_⟩
    by_cases same : other = name
    · rw [same, HashMap.getOpt_set_same, fresh entries found directory (same ▸ present)]
    · rwa [HashMap.getOpt_set_other entries target same]
  | memoryFile _ | flashFile _ | consoleFile =>
    simp only [VirtualFile.setEntry, kind]
    exact .refl file

theorem append_fits (fits : file.Fits next) (bytes : List UInt8) :
    (file.append bytes).Fits next := by
  cases kind : file.kind with
  | memoryFile data =>
    refine ⟨?_, fun same => ?_, fun more same => ?_⟩
    · simp [append, kind, VirtualFile.entries]
    · have directory := fits.directory (by simpa only [append, kind, format] using same)
      rw [VirtualFile.entries, kind] at directory
      cases directory
    · simp only [append, kind, content, Option.some.injEq] at same ⊢
      rw [← same, List.length_append, fits.size data (content_memoryFile kind)]
  | directory _ | flashFile _ | consoleFile => simpa only [append, kind] using fits

theorem append_grows (file : VirtualFile) (bytes : List UInt8) :
    file.Grows (file.append bytes) := by
  cases kind : file.kind with
  | memoryFile data =>
    simp only [append, kind]
    exact ⟨rfl, rfl, rfl, rfl, kind ▸ .memoryFile data _⟩
  | directory _ | flashFile _ | consoleFile =>
    simp only [append, kind]
    exact .refl file

/-- Only a `MemoryFile` is truncated. -/
theorem truncate_ok {truncated : VirtualFile} (done : file.truncate = .ok truncated) :
    ∃ data, file.kind = .memoryFile data ∧
    truncated = { file with kind := .memoryFile [], size := 0 } := by
  unfold truncate at done
  split at done
  next data kind => exact ⟨data, kind, (Except.ok.inj done).symm⟩
  next => cases done

end VirtualFile

namespace FileSystem
variable {fs before after : FileSystem} {file target directory : FileRef} {name : ImmutableString}

def directories (fs : FileSystem) : Directories FileRef ImmutableString :=
  fun file => (fs.files file).entries.map HashMap.getOpt

def Existing (fs : FileSystem) (file : FileRef) : Prop := file < fs.next

/-- The root exists, and so does what is found from there. -/
structure Closed (fs : FileSystem) : Prop where
  root : fs.root < fs.next
  entries : fs.directories.Closed fs.Existing

structure Valid (fs : FileSystem) : Prop where
  root : fs.root < fs.next
  console : fs.console < fs.next
  devices : ∀ device file, fs.devices.getOpt device = some file → file < fs.next
  files : ∀ file < fs.next, (fs.files file).Fits fs.next

structure Grows (before after : FileSystem) : Prop where
  console : after.console = before.console
  next : before.next ≤ after.next
  files : ∀ file < before.next, (before.files file).Grows (after.files file)

structure Continues (before after : FileSystem) : Prop extends before.Grows after where
  root : after.root = before.root
  devices : after.devices = before.devices

theorem directories_some {entries : HashMap ImmutableString FileRef}
    (directory : (fs.files file).entries = some entries) :
    fs.directories file = some entries.getOpt := by
  rw [directories, directory]
  rfl

theorem Valid.closed (valid : fs.Valid) : fs.Closed := by
  refine ⟨valid.root, fun file entries name target old directory entry => ?_⟩
  obtain ⟨map, same, rfl⟩ := Option.map_eq_some_iff.mp directory
  exact (valid.files file old).entries map name target same entry

namespace Grows

theorem refl (fs : FileSystem) : fs.Grows fs :=
  ⟨rfl, le_refl _, fun file _ => .refl (fs.files file)⟩

theorem trans {middle : FileSystem} (first : before.Grows middle) (last : middle.Grows after) :
    before.Grows after where
  console := last.console.trans first.console
  next := first.next.trans last.next
  files file old := (first.files file old).trans (last.files file (old.trans_le first.next))

theorem directories (grows : before.Grows after) :
    Directories.Extends before.Existing before.directories after.directories := by
  intro file entries old directory
  obtain ⟨map, same, rfl⟩ := Option.map_eq_some_iff.mp directory
  have kind := (grows.files file old).kind
  rw [VirtualFile.entries_directory same] at kind
  cases later : (after.files file).kind with
  | directory more =>
    rw [later] at kind
    cases kind with
    | directory kept =>
        exact ⟨more.getOpt, directories_some (by rw [VirtualFile.entries, later]), kept⟩
  | memoryFile _ | flashFile _ | consoleFile =>
    rw [later] at kind
    cases kind

end Grows

/-! The operations on the store of the files. -/

theorem allocate_old (fs : FileSystem) (value : VirtualFile) (old : file < fs.next) :
    (fs.allocate value).files file = fs.files file :=
  Function.update_of_ne (Nat.ne_of_lt old) ..

@[simp] theorem allocate_new (fs : FileSystem) (value : VirtualFile) :
    (fs.allocate value).files fs.next = value :=
  Function.update_self ..

@[simp] theorem allocate_next (fs : FileSystem) (value : VirtualFile) :
    (fs.allocate value).next = fs.next + 1 := rfl

@[simp] theorem modify_same (fs : FileSystem) (file : FileRef) (value : VirtualFile) :
    (fs.modify file value).files file = value :=
  Function.update_self ..

theorem modify_other (fs : FileSystem) (value : VirtualFile) {other : FileRef}
    (different : other ≠ file) :
    (fs.modify file value).files other = fs.files other := Function.update_of_ne different ..

theorem allocate_grows (fs : FileSystem) (value : VirtualFile) : fs.Grows (fs.allocate value) where
  console := rfl
  next := Nat.le_succ _
  files file old := by
    rw [allocate_old fs value old]
    exact .refl _

theorem modify_grows {value : VirtualFile} (grows : (fs.files file).Grows value) :
    fs.Grows (fs.modify file value) where
  console := rfl
  next := le_refl _
  files other _ := by
    by_cases same : other = file
    · rw [same, modify_same]
      exact grows
    · rw [modify_other fs value same]
      exact .refl _

theorem setEntry_grows (fresh : ∀ entries found, (fs.files directory).entries = some entries →
    entries.getOpt name = some found → found = target) :
    fs.Grows (fs.setEntry directory name target) := modify_grows (.setEntry fresh)

namespace Valid

theorem allocate {value : VirtualFile} (valid : fs.Valid) (fits : value.Fits (fs.next + 1)) :
    (fs.allocate value).Valid where
  root := valid.root.trans (Nat.lt_succ_self _)
  console := valid.console.trans (Nat.lt_succ_self _)
  devices device file registered :=
    (valid.devices device file registered).trans (Nat.lt_succ_self _)
  files file inside := by
    obtain old | rfl := Nat.lt_succ_iff_lt_or_eq.mp inside
    · rw [allocate_old fs value old]
      exact (valid.files file old).mono (Nat.le_succ _)
    · rw [allocate_new]
      exact fits

theorem modify {value : VirtualFile} (valid : fs.Valid) (fits : value.Fits fs.next) :
    (fs.modify file value).Valid where
  root := valid.root
  console := valid.console
  devices := valid.devices
  files other inside := by
    by_cases same : other = file
    · rw [same, modify_same]
      exact fits
    · rw [modify_other fs value same]
      exact valid.files other inside

theorem setEntry (valid : fs.Valid) (inside : directory < fs.next) (old : target < fs.next) :
    (fs.setEntry directory name target).Valid :=
  valid.modify ((valid.files directory inside).setEntry old)

end Valid

/-! Looking up paths. -/

def errno : Stop → Errno
  | .notDirectory => .ENOTDIR
  | .missing => .ENOENT

/-- `try_lookup` walks through the directories. -/
theorem tryLookupFrom_walk (fs : FileSystem) (file : FileRef) (components : List ImmutableString) :
    fs.tryLookupFrom file components = (fs.directories.walk file components).mapError errno := by
  induction components generalizing file with
  | nil => rfl
  | cons component components ih =>
    unfold tryLookupFrom
    rw [Directories.walk, List.foldlM_cons, Directories.enter, directories]
    cases (fs.files file).entries with
    | none => rfl
    | some entries =>
      simp only [Option.map_some]
      cases entries.getOpt component with
      | none => rfl
      | some next => exact ih next

theorem tryLookupFrom_ok {components : List ImmutableString} :
    fs.tryLookupFrom file components = .ok target ↔
    fs.directories.walk file components = .ok target := by
  rw [tryLookupFrom_walk]
  cases fs.directories.walk file components <;> simp [Except.mapError]

theorem tryLookupFrom_missing {components : List ImmutableString} :
    fs.tryLookupFrom file components = .error .ENOENT ↔
    fs.directories.walk file components = .error .missing := by
  rw [tryLookupFrom_walk]
  cases fs.directories.walk file components with
  | ok _ => simp [Except.mapError]
  | error stop => cases stop <;> simp [Except.mapError, errno]

theorem tryLookup_ok {path : Path} {result : Except Errno FileRef} :
    fs.tryLookup path = .ok result ↔
    path.isAbsolute ∧ fs.tryLookupFrom fs.root path.components = result := by
  unfold tryLookup require
  cases path.isAbsolute <;> simp [bind, Except.bind]

theorem tryLookup_absolute {path : Path} (absolute : path.isAbsolute) :
    fs.tryLookup path = .ok (fs.tryLookupFrom fs.root path.components) :=
  tryLookup_ok.mpr ⟨absolute, rfl⟩

theorem Closed.existing {path : Path} (closed : fs.Closed)
    (found : fs.tryLookup path = .ok (.ok target)) : target < fs.next := by
  obtain ⟨_, reached⟩ := tryLookup_ok.mp found
  exact closed.entries.walk closed.root (tryLookupFrom_ok.mp reached)

end FileSystem
end PicoOs.Kernel
