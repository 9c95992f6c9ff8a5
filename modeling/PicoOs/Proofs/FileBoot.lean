import PicoOs.Proofs.FileSystems

/-! The file systems that the constructors make: every entry refers to a file that exists. -/

namespace PicoOs.Kernel
open Library PicoOs.Std

theorem require_ok {fault : Crash} {condition : Prop} [Decidable condition] :
    require fault condition = .ok () ↔ condition := by
  unfold require
  split <;> simp [*]

/-- A requirement in front of the rest of a computation. -/
theorem require_bind_ok {α : Type} {fault : Crash} {condition : Prop} [Decidable condition]
    {rest : Unit → Except Crash α} {value : α} :
    (require fault condition >>= rest) = .ok value ↔ condition ∧ rest () = .ok value := by
  rw [bind_ok]
  constructor
  · rintro ⟨_, met, done⟩
    exact ⟨require_ok.mp met, done⟩
  · rintro ⟨met, done⟩
    exact ⟨(), require_ok.mpr met, done⟩

theorem must_ok {α : Type} {option : Option α} {value : α} :
    must option = .ok value ↔ option = some value := by
  cases option <;> simp [must]

namespace FileSystem
variable {base fs after : FileSystem} {file target directory : FileRef} {name : ImmutableString}

/-- What happens to a file that the base does not have. -/
theorem Grows.modify_new (grows : base.Grows fs) (new : base.next ≤ file) (value : VirtualFile) :
    base.Grows (fs.modify file value) where
  console := grows.console
  next := grows.next
  files other old := by
    rw [modify_other fs value (Nat.ne_of_lt (old.trans_le new))]
    exact grows.files other old

theorem Grows.setEntry_new (grows : base.Grows fs) (new : base.next ≤ directory) :
    base.Grows (fs.setEntry directory name target) :=
  grows.modify_new new _

theorem setEntry_isSome (old : (fs.files file).entries.isSome) :
    ((fs.setEntry directory name target).files file).entries.isSome := by
  by_cases same : file = directory
  · subst same
    obtain ⟨entries, some⟩ := Option.isSome_iff_exists.mp old
    rw [setEntry, modify_same, VirtualFile.setEntry_directory some]
    rfl
  · rwa [setEntry, modify_other fs _ same]

theorem Grows.isSome (grows : base.Grows fs) (old : file < base.next)
    (directory : (base.files file).entries.isSome) :
    (fs.files file).entries.isSome := by
  obtain ⟨entries, some⟩ := Option.isSome_iff_exists.mp directory
  obtain ⟨more, still, _⟩ := grows.directories file _ old (directories_some some)
  rw [FileSystem.directories, Option.map_eq_some_iff] at still
  obtain ⟨map, same, _⟩ := still
  exact Option.isSome_of_eq_some same

private theorem memoryFile_fits (fs : FileSystem) (next : FileRef) :
    (fs.memoryFile ModeFlags.regular 0 (.memoryFile [])).Fits next := by
  have format : (fs.memoryFile ModeFlags.regular 0 (.memoryFile [])).format =
    ModeFlags.regular &&& ModeFlags.format := rfl
  refine .plain rfl (by rw [format]; decide) fun data same => ?_
  obtain rfl : [] = data := Option.some.inj same
  rfl

theorem Valid.newMemoryFile (valid : fs.Valid) : fs.newMemoryFile.Valid := by
  have allocated := valid.allocate (fs.memoryFile_fits (fs.next + 1))
  exact ⟨allocated.root, allocated.console, allocated.devices, allocated.files⟩

theorem newMemoryFile_grows (fs : FileSystem) : fs.Grows fs.newMemoryFile := by
  have grows := fs.allocate_grows (fs.memoryFile ModeFlags.regular 0 (.memoryFile []))
  exact ⟨grows.console, grows.next, grows.files⟩

theorem Valid.withSelf {value : VirtualFile} (valid : fs.Valid)
    (kind : value.kind = .directory .empty) :
    (((fs.allocate value).setEntry fs.next dot fs.next).setEntry fs.next dotdot fs.next).Valid := by
  have inside : fs.next < fs.next + 1 := Nat.lt_succ_self _
  have allocated := valid.allocate (.emptyDirectory kind)
  have first : ((fs.allocate value).setEntry fs.next dot fs.next).Valid :=
    allocated.setEntry inside inside
  exact first.setEntry inside inside

theorem grows_withSelf (fs : FileSystem) (value : VirtualFile) :
    fs.Grows (((fs.allocate value).setEntry fs.next dot fs.next).setEntry fs.next dotdot fs.next) :=
  ((fs.allocate_grows value).setEntry_new (le_refl _)).setEntry_new (le_refl _)

private theorem withSelf_isSome {value : VirtualFile} (kind : value.kind = .directory .empty) :
    ((((fs.allocate value).setEntry fs.next dot fs.next).setEntry fs.next dotdot fs.next).files fs.next).entries.isSome := by
  refine setEntry_isSome (setEntry_isSome ?_)
  rw [allocate_new, VirtualFile.entries, kind]
  rfl

theorem Valid.newMemoryDirectory (valid : fs.Valid) : fs.newMemoryDirectory.Valid := by
  have both := @Valid.withSelf fs (fs.memoryFile ModeFlags.directory 0xdead (.directory .empty)) valid rfl
  exact ⟨both.root, both.console, both.devices, both.files⟩

private theorem newMemoryDirectory_grows (fs : FileSystem) : fs.Grows fs.newMemoryDirectory := by
  have grows := fs.grows_withSelf (fs.memoryFile ModeFlags.directory 0xdead (.directory .empty))
  exact ⟨grows.console, grows.next, grows.files⟩

end FileSystem

namespace FlashDirectory
open FileSystem
variable {memory : Memory} {construct : FileSystem → Nat → Except Crash FileSystem}
  {base fs after : FileSystem}
  {directory : FileRef} {address : Nat}

def Constructs (construct : FileSystem → Nat → Except Crash FileSystem) : Prop :=
  ∀ {fs address after}, fs.Valid → construct fs address = .ok after →
    after.Valid ∧ fs.Grows after ∧ fs.next < after.next ∧ (after.files fs.next).entries.isSome

theorem addFile_spec (constructs : Constructs construct) (valid : fs.Valid)
    (inside : directory < fs.next)
    (added : addFile memory construct fs directory address = .ok after) :
    after.Valid ∧ fs.Grows after ∧ fs.next < after.next := by
  unfold addFile at added
  dsimp only at added
  split at added
  next =>
    obtain ⟨made, constructed, done⟩ := bind_ok.mp added
    obtain ⟨madeValid, grows, new, _⟩ := constructs valid constructed
    cases Except.ok.inj done
    exact ⟨madeValid.setEntry new (inside.trans new), grows.setEntry_new (le_refl _), new⟩
  next different =>
    obtain ⟨regular, done⟩ := require_bind_ok.mp added
    cases Except.ok.inj done
    refine ⟨valid.allocate (.plain rfl different ?_), fs.allocate_grows _, Nat.lt_succ_self _⟩
    rintro data same
    obtain rfl : (FileInfo.load memory address).bytes memory = data := Option.some.inj same
    exact (List.length_map _).trans List.length_range |>.symm

private theorem addEntries_spec (constructs : Constructs construct) (rounds : Nat)
    {entry stop : Nat} (valid : fs.Valid) (grows : base.Grows fs)
    (new : base.next ≤ directory) (inside : directory < fs.next)
    (isSome : (fs.files directory).entries.isSome)
    (added : addEntries memory construct rounds fs directory entry stop = .ok after) :
    after.Valid ∧ base.Grows after ∧ fs.next ≤ after.next ∧
    (after.files directory).entries.isSome := by
  induction rounds generalizing fs entry with
  | zero => cases added
  | succ rounds ih =>
    unfold addEntries at added
    split at added
    next =>
      cases Except.ok.inj added
      exact ⟨valid, grows, le_refl _, isSome⟩
    next =>
      obtain ⟨made, addedFile, rest⟩ := bind_ok.mp added
      obtain ⟨name, _, rest⟩ := bind_ok.mp rest
      obtain ⟨madeValid, madeGrows, more⟩ := addFile_spec constructs valid inside addedFile
      have within : directory < made.next := inside.trans more
      obtain ⟨last, final, later, directory⟩ :=
        ih (madeValid.setEntry within more) ((grows.trans madeGrows).setEntry_new new) within
        (setEntry_isSome (madeGrows.isSome inside isSome)) rest
      exact ⟨last, final, more.le.trans later, directory⟩

theorem construct_spec (memory : Memory) (depth : Nat) :
    Constructs (FlashDirectory.construct memory depth) := by
  induction depth with
  | zero => exact fun _ constructed => nomatch constructed
  | succ depth ih =>
    intro fs address after valid constructed
    obtain ⟨last, grows, later, directory⟩ :=
      addEntries_spec ih _ (valid.withSelf rfl) (fs.grows_withSelf _) (le_refl _)
      (Nat.lt_succ_self fs.next) (withSelf_isSome rfl) constructed
    exact ⟨last, grows, later, directory⟩

end FlashDirectory

open FileSystem

theorem consoleFileSystem_valid : consoleFileSystem.Valid where
  root := Nat.lt_succ_self 0
  console := Nat.lt_succ_self 0
  devices _ _ registered := nomatch registered
  files file inside := by
    obtain rfl := Nat.lt_one_iff.mp inside
    refine .plain rfl (by decide) ?_
    rintro data same
    cases same

variable {fs after : FileSystem} {file target directory : FileRef} {name : ImmutableString}

theorem setEntry_format (fs : FileSystem) (directory target file : FileRef)
    (name : ImmutableString) :
    ((fs.setEntry directory name target).files file).format = (fs.files file).format := by
  by_cases same : file = directory
  · subst same
    rw [setEntry, modify_same]
    cases kind : (fs.files file).kind <;> simp only [VirtualFile.setEntry, kind, VirtualFile.format]
  · rw [setEntry, modify_other fs _ same]

/-- The root is a directory, and its mode says so. -/
structure Rooted (fs : FileSystem) : Prop where
  valid : fs.Valid
  mode : (fs.files fs.root).format = ModeFlags.directory

namespace Rooted

theorem grows (rooted : Rooted fs) (valid : after.Valid) (grows : fs.Grows after)
    (root : after.root = fs.root) : Rooted after where
  valid := valid
  mode := by rw [root, (grows.files fs.root rooted.valid.root).format, rooted.mode]

theorem setEntry (rooted : Rooted fs) (name : ImmutableString) (inside : directory < fs.next)
    (old : target < fs.next) :
    Rooted (fs.setEntry directory name target) where
  valid := rooted.valid.setEntry inside old
  mode := (setEntry_format fs directory target fs.root name).trans rooted.mode

private theorem newMemoryDirectory (rooted : Rooted fs) : Rooted fs.newMemoryDirectory :=
  rooted.grows rooted.valid.newMemoryDirectory fs.newMemoryDirectory_grows rfl

theorem newMemoryFile (rooted : Rooted fs) : Rooted fs.newMemoryFile :=
  rooted.grows rooted.valid.newMemoryFile fs.newMemoryFile_grows rfl

theorem modify {value : VirtualFile} (rooted : Rooted fs) (fits : value.Fits fs.next)
    (different : fs.root ≠ file) :
    Rooted (fs.modify file value) where
  valid := rooted.valid.modify fits
  mode := by
    have same : (fs.modify file value).files fs.root = fs.files fs.root :=
      modify_other fs value different
    exact same ▸ rooted.mode

end Rooted

theorem lookupFrom_ok {components : List ImmutableString}
    (found : fs.lookupFrom file components = .ok target) :
    fs.directories.walk file components = .ok target := by
  induction components generalizing file with
  | nil => exact congrArg Except.ok (Except.ok.inj found)
  | cons component components ih =>
    unfold lookupFrom at found
    split at found
    next => cases found
    next entries directory =>
      obtain ⟨next, entry, rest⟩ := bind_ok.mp found
      exact bind_ok.mpr ⟨next, Directories.enter_entry (directories_some directory) (must_ok.mp entry), ih rest⟩

theorem FileSystem.Closed.lookup {path : Path} (closed : fs.Closed)
    (found : fs.lookup path = .ok target) : target < fs.next := by
  obtain ⟨_, reached⟩ := require_bind_ok.mp found
  exact closed.entries.walk closed.root (lookupFrom_ok reached)

private theorem newMemoryDirectory_root (fs : FileSystem) :
    ((fs.newMemoryDirectory.files fs.next)).format = ModeFlags.directory := by
  have added : (((fs.allocate (fs.memoryFile ModeFlags.directory 0xdead (.directory .empty))).setEntry fs.next dot fs.next).setEntry
      fs.next dotdot fs.next).files fs.next = fs.newMemoryDirectory.files fs.next := rfl
  have mode : (fs.memoryFile ModeFlags.directory 0xdead (.directory .empty)).format =
    ModeFlags.directory &&& ModeFlags.format := rfl
  rw [← added, setEntry_format, setEntry_format, allocate_new, mode]
  decide

theorem memoryFileSystem_rooted {flashRoot : FileRef} (valid : fs.Valid) (old : flashRoot < fs.next)
    (made : memoryFileSystem flashRoot fs = .ok after) : Rooted after := by
  unfold memoryFileSystem requireDirectory at made
  dsimp only at made
  obtain ⟨_, made⟩ := require_bind_ok.mp made
  obtain ⟨_, made⟩ := require_bind_ok.mp made
  cases Except.ok.inj made
  have grown := valid.newMemoryDirectory
  have root : fs.next < fs.next + 1 := Nat.lt_succ_self _
  have rooted : Rooted { fs.newMemoryDirectory with root := fs.next } :=
    ⟨⟨root, grown.console, grown.devices, grown.files⟩, newMemoryDirectory_root fs⟩
  have entered := ((rooted.setEntry dot root root).setEntry dotdot root root).newMemoryDirectory
  have within : fs.next < fs.next + 1 + 1 := root.trans (Nat.lt_succ_self _)
  have flash : flashRoot < fs.next + 1 + 1 := old.trans within
  have devDirectory : fs.next + 1 < fs.next + 1 + 1 := Nat.lt_succ_self _
  have linked := (entered.setEntry dotdot devDirectory within).setEntry dev within devDirectory
  exact (linked.setEntry dotdot flash within).setEntry bin within flash

theorem deviceFileSystem_rooted (rooted : Rooted fs) (made : deviceFileSystem fs = .ok after) :
    Rooted after := by
  unfold deviceFileSystem requireDirectory at made
  obtain ⟨devDirectory, found, made⟩ := bind_ok.mp made
  obtain ⟨_, made⟩ := require_bind_ok.mp made
  cases Except.ok.inj made
  have inside : devDirectory < fs.next + 1 :=
    (rooted.valid.closed.lookup found).trans (Nat.lt_succ_self _)
  have ttyFile : fs.next < fs.next + 1 := Nat.lt_succ_self _
  have devices : ∀ device file, (fs.devices.set ttyDevice.toNat fs.console).getOpt device =
    some file → file < fs.next := by
    intro device file registered
    obtain ⟨_, rfl⟩ | ⟨_, before⟩ := HashMap.getOpt_set_cases registered
    · exact rooted.valid.console
    · exact rooted.valid.devices device file before
  have registered : Rooted { fs with devices := fs.devices.set ttyDevice.toNat fs.console } :=
    ⟨⟨rooted.valid.root, rooted.valid.console, devices, rooted.valid.files⟩, rooted.mode⟩
  have file := registered.newMemoryFile
  refine (file.modify ?_ (Nat.ne_of_lt rooted.valid.root)).setEntry tty inside ttyFile
  have new : { fs with devices := fs.devices.set ttyDevice.toNat fs.console }.newMemoryFile.files fs.next =
      fs.memoryFile ModeFlags.regular 0 (.memoryFile []) := fs.allocate_new _
  have mode : ModeFlags.device &&& ModeFlags.format ≠ ModeFlags.directory := by decide
  rw [new]
  refine .plain rfl mode fun data same => ?_
  obtain rfl : [] = data := Option.some.inj same
  rfl

private theorem addExample_rooted (rooted : Rooted fs) (made : addExample fs = .ok after) :
    Rooted after := by
  unfold addExample requireDirectory at made
  obtain ⟨rootFile, found, made⟩ := bind_ok.mp made
  obtain ⟨_, made⟩ := require_bind_ok.mp made
  cases Except.ok.inj made
  have file := rooted.newMemoryFile
  have inside : fs.next < fs.next + 1 := Nat.lt_succ_self _
  have appended := file.modify (VirtualFile.append_fits (file.valid.files fs.next inside) (literal "Hello, world!\n"))
    (Nat.ne_of_lt rooted.valid.root)
  exact appended.setEntry (literal "example.txt") (appended.valid.closed.lookup found) inside

theorem bootFiles_rooted {memory : Memory} {flashRoot depth : Nat}
    (made : bootFiles memory flashRoot depth = .ok after) : Rooted after := by
  unfold bootFiles at made
  obtain ⟨flash, flashMade, made⟩ := bind_ok.mp made
  obtain ⟨memoryFiles, memoryMade, made⟩ := bind_ok.mp made
  obtain ⟨devices, devicesMade, made⟩ := bind_ok.mp made
  obtain ⟨built, constructed, flashMade⟩ := bind_ok.mp flashMade
  obtain ⟨_, flashMade⟩ := require_bind_ok.mp flashMade
  cases Except.ok.inj flashMade
  obtain ⟨valid, _, later, _⟩ :=
    FlashDirectory.construct_spec memory depth consoleFileSystem_valid constructed
  exact addExample_rooted (deviceFileSystem_rooted (memoryFileSystem_rooted valid later memoryMade) devicesMade) made

end PicoOs.Kernel
