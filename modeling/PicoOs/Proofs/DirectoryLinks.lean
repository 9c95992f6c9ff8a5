import PicoOs.Library.BackLinks
import PicoOs.Proofs.FileRuns

/-! The entries `.` and `..` of the directories. Each constructor lets both lead to the directory
itself; whoever mounts the directory, or finds it in another one, then corrects `..`. -/

namespace PicoOs.Kernel
open Library PicoOs.Std FileSystem

variable {memory : Memory} {fs after : FileSystem} {file directory target : FileRef}
  {name : ImmutableString}

namespace FileSystem

def BackLinked (fs : FileSystem) : Prop := fs.directories.Linked fs.Existing dot dotdot

def Unreferenced (fs : FileSystem) (file : FileRef) : Prop :=
  fs.directories.Unreferenced fs.Existing dot dotdot file

theorem dots_differ : dot ≠ dotdot := by decide

theorem setEntry_directories (fs : FileSystem) (directory : FileRef) (name : ImmutableString)
    (target : FileRef) :
    (fs.setEntry directory name target).directories = fs.directories.set directory name target := by
  funext file
  by_cases same : file = directory
  · subst same
    rw [Directories.set, Function.update_self, directories, directories, setEntry, modify_same]
    cases kind : (fs.files file).kind with
    | directory entries =>
      have isDirectory : (fs.files file).entries = some entries := by rw [VirtualFile.entries, kind]
      rw [VirtualFile.setEntry_directory isDirectory, isDirectory]
      refine congrArg some (funext fun key => ?_)
      exact (HashMap.getOpt_set entries name target key).trans (Function.update_apply ..).symm
    | memoryFile _ | flashFile _
    | consoleFile => simp only [VirtualFile.setEntry, VirtualFile.entries, kind, Option.map_none]
  · rw [Directories.set, Function.update_of_ne same, directories, directories, setEntry,
      modify_other fs _ same]

theorem allocate_directories (fs : FileSystem) (value : VirtualFile) :
    (fs.allocate value).directories = Function.update fs.directories fs.next
      (value.entries.map HashMap.getOpt) := by
  funext file
  by_cases new : file = fs.next
  · rw [new, Function.update_self, directories, allocate_new]
  · have still : (fs.allocate value).files file = fs.files file := Function.update_of_ne new ..
    rw [Function.update_of_ne new, directories, directories, still]

private theorem modify_directories {value : VirtualFile}
    (same : value.entries = (fs.files file).entries) :
    (fs.modify file value).directories = fs.directories := by
  funext other
  by_cases here : other = file
  · rw [here, directories, directories, modify_same, same]
  · rw [directories, directories, modify_other fs value here]

theorem existing_succ : ∀ file, file < fs.next + 1 → fs.Existing file ∨ file = fs.next :=
  fun _ inside => Nat.lt_succ_iff_lt_or_eq.mp inside

theorem not_existing (fs : FileSystem) : ¬fs.Existing fs.next := Nat.lt_irrefl _

def withSelf (fs : FileSystem) (value : VirtualFile) : FileSystem :=
  ((fs.allocate value).setEntry fs.next dot fs.next).setEntry fs.next dotdot fs.next

theorem withSelf_directories (fs : FileSystem) {value : VirtualFile}
    (kind : value.kind = .directory .empty) :
    ∃ entries, Directories.Provisional dot dotdot fs.next entries ∧
      (fs.withSelf value).directories = Function.update fs.directories fs.next (some entries) := by
  have empty : value.entries.map HashMap.getOpt = some fun _ => none := by
    rw [VirtualFile.entries, kind]
    rfl
  refine ⟨Function.update (Function.update (fun _ => none) dot (some fs.next)) dotdot (some fs.next), ⟨?_, ?_, ?_⟩, ?_⟩
  · rw [Function.update_of_ne dots_differ, Function.update_self]
  · rw [Function.update_self]
  · intro name ordinary downward
    rw [Function.update_of_ne downward, Function.update_of_ne ordinary]
  · rw [withSelf, setEntry_directories, setEntry_directories, allocate_directories, empty,
      Directories.set_update, Directories.set_update]
    rfl

theorem BackLinked.withSelf {value : VirtualFile} (linked : fs.BackLinked) (closed : fs.Closed)
    (kind : value.kind = .directory .empty) :
    (fs.withSelf value).BackLinked := by
  obtain ⟨entries, provisional, same⟩ := fs.withSelf_directories kind
  rw [BackLinked, same]
  refine linked.extend closed.entries fs.not_existing existing_succ fun more there => ?_
  exact Option.some.inj there ▸ provisional

theorem Unreferenced.withSelf {value : VirtualFile} (unreferenced : fs.Unreferenced file)
    (kind : value.kind = .directory .empty) :
    (fs.withSelf value).Unreferenced file := by
  obtain ⟨entries, provisional, same⟩ := fs.withSelf_directories kind
  rw [FileSystem.Unreferenced, same]
  refine Directories.Unreferenced.extend unreferenced fs.not_existing existing_succ
    fun more there => ?_
  exact Option.some.inj there ▸ provisional

theorem BackLinked.leaf {value : VirtualFile} (linked : fs.BackLinked) (closed : fs.Closed)
    (plain : value.entries = none) :
    (fs.allocate value).BackLinked := by
  rw [BackLinked, allocate_directories, plain]
  exact linked.extend closed.entries fs.not_existing existing_succ nofun

private theorem Unreferenced.leaf {value : VirtualFile} (unreferenced : fs.Unreferenced file)
    (plain : value.entries = none) :
    (fs.allocate value).Unreferenced file := by
  rw [FileSystem.Unreferenced, allocate_directories, plain]
  exact Directories.Unreferenced.extend unreferenced fs.not_existing existing_succ nofun

theorem BackLinked.setEntry (linked : fs.BackLinked) (ordinary : name ≠ dot)
    (downward : name ≠ dotdot)
    (child : fs.directories.Named target dotdot directory) :
    (fs.setEntry directory name target).BackLinked := by
  rw [BackLinked, setEntry_directories]
  exact Directories.Linked.set linked ordinary downward child

private theorem BackLinked.setOwn (linked : fs.BackLinked) :
    (fs.setEntry directory dot directory).BackLinked := by
  rw [BackLinked, setEntry_directories]
  exact Directories.Linked.setOwn linked dots_differ

theorem BackLinked.setUp (linked : fs.BackLinked) (unreferenced : fs.Unreferenced directory) :
    (fs.setEntry directory dotdot target).BackLinked := by
  rw [BackLinked, setEntry_directories]
  exact Directories.Linked.setUp linked dots_differ unreferenced

theorem Unreferenced.setEntry (unreferenced : fs.Unreferenced file)
    (apart : target ≠ file ∨ name = dot ∨ name = dotdot) :
    (fs.setEntry directory name target).Unreferenced file := by
  rw [FileSystem.Unreferenced, setEntry_directories]
  exact Directories.Unreferenced.set unreferenced apart

theorem named_setEntry {other found : FileRef} {key : ImmutableString}
    (named : fs.directories.Named other key found)
    (apart : other = directory → key ≠ name) :
    (fs.setEntry directory name target).directories.Named other key found := by
  rw [setEntry_directories]
  exact Directories.Named.set named apart

private theorem named_withSelf {value : VirtualFile} (named : fs.directories.Named file name target)
    (old : file ≠ fs.next)
    (kind : value.kind = .directory .empty) :
    (fs.withSelf value).directories.Named file name target := by
  obtain ⟨entries, _, same⟩ := fs.withSelf_directories kind
  rw [same]
  exact Directories.Named.extend named old

theorem setUp_named (fs : FileSystem) (directory target : FileRef) :
    (fs.setEntry directory dotdot target).directories.Named directory dotdot target := by
  rw [setEntry_directories]
  exact fs.directories.set_named directory dotdot target

end FileSystem

namespace FlashDirectory

def entryAddress (memory : Memory) (address index : Nat) : Nat :=
  wrap ((FileInfo.load memory address).data + index * infoSize)
def entryInfo (memory : Memory) (address index : Nat) : Nat :=
  memory.load (wrap (entryAddress memory address index + infoOffset))

inductive Recorded (memory : Memory) (root : Nat) : Nat → Prop where
  | root : Recorded memory root root
  | inside {address index : Nat} (outer : Recorded memory root address)
      (present : index < (FileInfo.load memory address).size / infoSize)
      (isDirectory : (FileInfo.load memory (entryInfo memory address index)).format = ModeFlags.directory) :
      Recorded memory root (entryInfo memory address index)

/-- No entry of the image has the name of a link. -/
def Ordinary (memory : Memory) (root : Nat) : Prop :=
  ∀ address, Recorded memory root address →
    ∀ index < (FileInfo.load memory address).size / infoSize, ∀ name,
    cstring memory (2 ^ 32) (entryAddress memory address index) = .ok name →
      name ≠ dot ∧ name ≠ dotdot

private theorem Recorded.trans {root middle address : Nat} (first : Recorded memory root middle)
    (last : Recorded memory middle address) :
    Recorded memory root address := by
  induction last with
  | root => exact first
  | inside _ present isDirectory ih => exact .inside ih present isDirectory

private theorem Ordinary.inside {address index : Nat} (ordinary : Ordinary memory address)
    (present : index < (FileInfo.load memory address).size / infoSize)
    (isDirectory : (FileInfo.load memory (entryInfo memory address index)).format =
      ModeFlags.directory) :
    Ordinary memory (entryInfo memory address index) :=
  fun other recorded => ordinary other (Recorded.trans (.inside .root present isDirectory) recorded)

private theorem entryAddress_zero (memory : Memory) (address : Nat) :
    entryAddress memory address 0 = (FileInfo.load memory address).data := by
  rw [entryAddress, Nat.zero_mul, Nat.add_zero]
  exact wrap_of_lt (memory.load_lt _)

private theorem entryAddress_succ (memory : Memory) (address index : Nat) :
    wrap (entryAddress memory address index + infoSize) =
      entryAddress memory address (index + 1) := by
  rw [entryAddress, entryAddress, Nat.succ_mul, ← Nat.add_assoc]
  exact Nat.mod_add_mod _ _ _

variable {construct : FileSystem → Nat → Except Crash FileSystem} {address : Nat}

/-- The constructor links what it makes, and no entry leads to its object or to an object that
none led to before. -/
def Links (memory : Memory) (construct : FileSystem → Nat → Except Crash FileSystem) : Prop :=
  ∀ {fs address after}, fs.Valid → fs.BackLinked → Ordinary memory address →
    construct fs address = .ok after →
    after.BackLinked ∧ ∀ file ≤ fs.next, fs.Unreferenced file → after.Unreferenced file

private theorem addFile_links (links : Links memory construct) (valid : fs.Valid)
    (linked : fs.BackLinked)
    (ordinary : (FileInfo.load memory address).format = ModeFlags.directory →
      Ordinary memory address)
    (added : addFile memory construct fs directory address = .ok after) :
    after.BackLinked ∧ after.directories.Named fs.next dotdot directory ∧
    ∀ file < fs.next, fs.Unreferenced file → after.Unreferenced file := by
  unfold addFile at added
  dsimp only at added
  split at added
  next isDirectory =>
    obtain ⟨made, constructed, done⟩ := bind_ok.mp added
    cases Except.ok.inj done
    obtain ⟨madeLinked, unreferenced⟩ := links valid linked (ordinary isDirectory) constructed
    have new := unreferenced fs.next (le_refl _) (.of_closed valid.closed.entries fs.not_existing)
    exact ⟨madeLinked.setUp new, made.setUp_named fs.next directory,
      fun file old earlier => (unreferenced file old.le earlier).setEntry (.inr (.inr rfl))⟩
  next =>
    obtain ⟨_, done⟩ := require_bind_ok.mp added
    cases Except.ok.inj done
    refine ⟨linked.leaf valid.closed rfl, fun entries there => ?_,
      fun file _ earlier => earlier.leaf rfl⟩
    rw [allocate_directories, Function.update_self] at there
    cases there

private theorem addEntries_links (constructs : Constructs construct)
    (links : Links memory construct) (ordinary : Ordinary memory address)
    (rounds index : Nat) {stop : Nat}
    (count : rounds + index = (FileInfo.load memory address).size / infoSize + 1) (valid : fs.Valid)
    (linked : fs.BackLinked) (inside : directory < fs.next)
    (added : addEntries memory construct rounds fs directory (entryAddress memory address index) stop = .ok after) :
    after.BackLinked ∧ ∀ file < fs.next, fs.Unreferenced file → after.Unreferenced file := by
  induction rounds generalizing fs index with
  | zero => cases added
  | succ rounds ih =>
    unfold addEntries at added
    split at added
    next =>
      cases Except.ok.inj added
      exact ⟨linked, fun _ _ unreferenced => unreferenced⟩
    next =>
      obtain ⟨made, addedFile, rest⟩ := bind_ok.mp added
      obtain ⟨name, named, rest⟩ := bind_ok.mp rest
      have present : index < (FileInfo.load memory address).size / infoSize := by
        cases rounds with
        | zero => cases rest
        | succ _ => omega
      obtain ⟨madeValid, madeGrows, more⟩ := addFile_spec constructs valid inside addedFile
      obtain ⟨madeLinked, child, kept⟩ :=
        addFile_links links valid linked (ordinary.inside present) addedFile
      obtain ⟨notDot, notDotdot⟩ := ordinary address .root index present name named
      have within : directory < made.next := inside.trans more
      rw [entryAddress_succ] at rest
      obtain ⟨lastLinked, final⟩ := ih (index + 1) (by omega) (madeValid.setEntry within more)
        (madeLinked.setEntry notDot notDotdot child) within rest
      refine ⟨lastLinked, fun file old unreferenced => final file (old.trans more) ?_⟩
      exact (kept file old unreferenced).setEntry (.inl (Nat.ne_of_gt old))

private theorem construct_links (memory : Memory) (depth : Nat) :
    Links memory (FlashDirectory.construct memory depth) := by
  induction depth with
  | zero => exact fun _ _ _ constructed => nomatch constructed
  | succ depth ih =>
    intro fs address after valid linked ordinary constructed
    have made : addEntries memory (FlashDirectory.construct memory depth)
      ((FileInfo.load memory address).size / infoSize + 1)
        (fs.withSelf ((FileInfo.load memory address).file 0xdead (.directory .empty))) fs.next
          (entryAddress memory address 0)
        (wrap ((FileInfo.load memory address).data + (FileInfo.load memory address).size)) =
          .ok after := by
      rw [entryAddress_zero]
      exact constructed
    obtain ⟨lastLinked, kept⟩ :=
      addEntries_links (construct_spec memory depth) ih ordinary _ 0 rfl (valid.withSelf rfl)
      (linked.withSelf valid.closed rfl) (Nat.lt_succ_self fs.next) made
    exact ⟨lastLinked, fun file old unreferenced => kept file (Nat.lt_succ_of_le old) (unreferenced.withSelf rfl)⟩

end FlashDirectory

/-- The links of all directories, and that of the root, which is in itself. -/
structure LinkedUp (fs : FileSystem) : Prop where
  linked : fs.BackLinked
  root : fs.directories.Named fs.root dotdot fs.root

private theorem memoryFileSystem_linkedUp {flashRoot : FileRef} (valid : fs.Valid)
    (linked : fs.BackLinked) (old : flashRoot < fs.next)
    (unreferenced : fs.Unreferenced flashRoot) (made : memoryFileSystem flashRoot fs = .ok after) :
    LinkedUp after := by
  unfold memoryFileSystem requireDirectory at made
  dsimp only at made
  obtain ⟨_, made⟩ := require_bind_ok.mp made
  obtain ⟨_, made⟩ := require_bind_ok.mp made
  cases Except.ok.inj made
  let root := fs.next
  let first : FileSystem := { fs.newMemoryDirectory with root }
  have firstLinked : first.BackLinked := linked.withSelf valid.closed rfl
  have firstFlash : first.Unreferenced flashRoot := unreferenced.withSelf rfl
  have firstRoot : first.Unreferenced root :=
    Unreferenced.withSelf (.of_closed valid.closed.entries fs.not_existing) rfl
  have inside : root < first.next := Nat.lt_succ_self _
  have firstValid : first.Valid := by
    have grown := valid.newMemoryDirectory
    exact ⟨inside, grown.console, grown.devices, grown.files⟩
  let second := (first.setEntry root dot root).setEntry root dotdot root
  have secondLinked : second.BackLinked :=
    firstLinked.setOwn.setUp (firstRoot.setEntry (.inr (.inl rfl)))
  have secondFlash : second.Unreferenced flashRoot :=
    (firstFlash.setEntry (.inr (.inl rfl))).setEntry (.inr (.inr rfl))
  have secondValid : second.Valid := (firstValid.setEntry inside inside).setEntry inside inside
  have secondRoot : second.directories.Named root dotdot root :=
    (first.setEntry root dot root).setUp_named root root
  let devDirectory := second.next
  have devApart : root ≠ devDirectory := Nat.ne_of_lt inside
  have flashApart : devDirectory ≠ flashRoot := Nat.ne_of_gt (old.trans inside)
  let third := second.newMemoryDirectory
  have thirdLinked : third.BackLinked := secondLinked.withSelf secondValid.closed rfl
  have thirdFlash : third.Unreferenced flashRoot := secondFlash.withSelf rfl
  have thirdDev : third.Unreferenced devDirectory :=
    Unreferenced.withSelf (.of_closed secondValid.closed.entries second.not_existing) rfl
  have thirdRoot : third.directories.Named root dotdot root :=
    named_withSelf secondRoot devApart rfl
  let fourth := third.setEntry devDirectory dotdot root
  have fourthLinked : fourth.BackLinked := thirdLinked.setUp thirdDev
  have fourthFlash : fourth.Unreferenced flashRoot := thirdFlash.setEntry (.inr (.inr rfl))
  have fourthRoot : fourth.directories.Named root dotdot root :=
    named_setEntry thirdRoot fun same => absurd same devApart
  let fifth := fourth.setEntry root dev devDirectory
  have fifthLinked : fifth.BackLinked :=
    fourthLinked.setEntry (by decide) (by decide) (third.setUp_named devDirectory root)
  have fifthFlash : fifth.Unreferenced flashRoot := fourthFlash.setEntry (.inl flashApart)
  have fifthRoot : fifth.directories.Named root dotdot root := named_setEntry fourthRoot fun _ => by
    decide
  let sixth := fifth.setEntry flashRoot dotdot root
  have sixthLinked : sixth.BackLinked := fifthLinked.setUp fifthFlash
  have sixthRoot : sixth.directories.Named root dotdot root :=
    named_setEntry fifthRoot fun same => absurd same (Nat.ne_of_gt old)
  exact ⟨sixthLinked.setEntry (by decide) (by decide) (fifth.setUp_named flashRoot root), named_setEntry sixthRoot fun _ => by decide⟩

theorem append_entries (value : VirtualFile) (bytes : List UInt8) :
    (value.append bytes).entries = value.entries := by
  cases kind : value.kind <;> simp only [VirtualFile.append, kind, VirtualFile.entries]

namespace LinkedUp

theorem newMemoryFile (up : LinkedUp fs) (closed : fs.Closed) : LinkedUp fs.newMemoryFile where
  linked := up.linked.leaf closed rfl
  root := by
    have same : fs.newMemoryFile.directories = Function.update fs.directories fs.next none :=
      fs.allocate_directories _
    rw [same]
    exact up.root.extend (Nat.ne_of_lt closed.root)

/-- What changes in a file does not matter, if its entries do not change. -/
theorem modify {value : VirtualFile} (up : LinkedUp fs)
    (same : value.entries = (fs.files file).entries) : LinkedUp (fs.modify file value) where
  linked := by
    rw [BackLinked, modify_directories same]
    exact up.linked
  root := by
    rw [modify_directories same]
    exact up.root

theorem setEntry (up : LinkedUp fs) (plain : (fs.files target).entries = none)
    (ordinary : name ≠ dot) (downward : name ≠ dotdot) :
    LinkedUp (fs.setEntry directory name target) where
  linked := up.linked.setEntry ordinary downward fun entries there => by
    rw [directories, plain] at there
    cases there
  root := named_setEntry up.root fun _ => downward.symm

end LinkedUp

theorem FileSystem.newMemoryFile_entries (fs : FileSystem) :
    (fs.newMemoryFile.files fs.next).entries = none := by
  have new : fs.newMemoryFile.files fs.next = fs.memoryFile ModeFlags.regular 0 (.memoryFile []) :=
    fs.allocate_new _
  rw [new]
  rfl

private theorem deviceFileSystem_linkedUp (up : LinkedUp fs) (closed : fs.Closed)
    (made : deviceFileSystem fs = .ok after) : LinkedUp after := by
  unfold deviceFileSystem requireDirectory at made
  obtain ⟨devDirectory, found, made⟩ := bind_ok.mp made
  obtain ⟨_, made⟩ := require_bind_ok.mp made
  cases Except.ok.inj made
  let registered : FileSystem := { fs with devices := fs.devices.set ttyDevice.toNat fs.console }
  have still : LinkedUp registered := ⟨up.linked, up.root⟩
  have ttyFile : LinkedUp (registered.newMemoryFile.modify registered.next
      { registered.newMemoryFile.files registered.next with mode := ModeFlags.device, deviceId := ttyDevice }) :=
    (still.newMemoryFile ⟨closed.root, closed.entries⟩).modify rfl
  refine ttyFile.setEntry ?_ (by decide) (by decide)
  rw [modify_same]
  exact registered.newMemoryFile_entries

private theorem addExample_linkedUp (up : LinkedUp fs) (closed : fs.Closed)
    (made : addExample fs = .ok after) : LinkedUp after := by
  unfold addExample requireDirectory at made
  obtain ⟨rootFile, found, made⟩ := bind_ok.mp made
  obtain ⟨_, made⟩ := require_bind_ok.mp made
  cases Except.ok.inj made
  refine ((up.newMemoryFile closed).modify (append_entries _ _)).setEntry ?_ (by decide) (by decide)
  rw [modify_same, append_entries]
  exact fs.newMemoryFile_entries

private theorem LinkedUp.opened {path : Path} {flags : UInt32} (up : LinkedUp fs)
    (closed : fs.Closed) (opened : FilesOpened fs path flags file after) :
    LinkedUp after := by
  cases opened with
  | found => exact up
  | truncated present asked plain regular isMemory =>
    refine up.modify ?_
    rw [VirtualFile.entries, VirtualFile.entries, isMemory]
  | @created parent directory name entries asked missing above last found isDirectory unused =>
    have old := closed.existing found
    have there := directories_some isDirectory
    refine (up.newMemoryFile closed).setEntry fs.newMemoryFile_entries ?_ ?_
    · intro same
      rw [same, up.linked.itself directory old entries.getOpt there] at unused
      cases unused
    · intro same
      have upward := up.linked.upward directory entries.getOpt old there
      rw [← same, unused] at upward
      cases upward

/-- What is promised of the links, and that they lead back whatever path has been taken. -/
structure BackLinks (fs : FileSystem) : Prop where
  itself : ∀ directory < fs.next, ∀ entries, (fs.files directory).entries = some entries →
    entries.getOpt dot = some directory
  back : ∀ directory < fs.next, ∀ entries name target inner, (fs.files directory).entries =
    some entries → name ≠ dot → name ≠ dotdot →
    entries.getOpt name = some target → (fs.files target).entries = some inner →
      inner.getOpt dotdot = some directory
  root : ∀ entries, (fs.files fs.root).entries = some entries → entries.getOpt dotdot = some fs.root
  lookups : ∀ path directory entries name target inner below above, fs.tryLookup path =
    .ok (.ok directory) →
    (fs.files directory).entries = some entries → name ≠ dot → name ≠ dotdot →
      entries.getOpt name = some target →
    (fs.files target).entries = some inner → path.append ⟨false, [name]⟩ = .ok below →
      below.append ⟨false, [dotdot]⟩ = .ok above →
    fs.tryLookup above = fs.tryLookup path

private theorem LinkedUp.backLinks (up : LinkedUp fs) (closed : fs.Closed) : BackLinks fs where
  itself directory inside entries isDirectory :=
    up.linked.itself directory inside _ (directories_some isDirectory)
  back directory inside entries name target inner isDirectory ordinary downward entry
    subdirectory :=
    up.linked.back directory _ name target inside (directories_some isDirectory) ordinary downward
      entry _ (directories_some subdirectory)
  root entries isDirectory := up.root _ (directories_some isDirectory)
  lookups path directory entries name target inner below above found isDirectory ordinary downward
    entry subdirectory joined joinedUp := by
    obtain ⟨absolute, reached⟩ := tryLookup_ok.mp found
    have back := up.linked.walk_back closed.entries closed.root (tryLookupFrom_ok.mp reached)
      (directories_some isDirectory) ordinary downward
      entry (directories_some subdirectory)
    cases Except.ok.inj joined
    cases Except.ok.inj joinedUp
    rw [found]
    refine tryLookup_ok.mpr ⟨absolute, tryLookupFrom_ok.mpr ?_⟩
    rw [List.append_assoc]
    exact back

def initialFiles (memory : Memory) (flashRoot depth : Nat) : Except Crash FileSystem := do
  let fs ← flashFileSystem memory flashRoot depth consoleFileSystem
  let fs ← memoryFileSystem consoleFileSystem.next fs
  deviceFileSystem fs

private theorem consoleFileSystem_linked : consoleFileSystem.BackLinked := by
  have console : consoleFileSystem.files = fun _ => .construct .consoleFile :=
    Function.update_eq_self ..
  have plain {file : FileRef} {entries : ImmutableString → Option FileRef}
    (there : consoleFileSystem.directories file = some entries) : False := by
    rw [directories, console] at there
    cases there
  exact ⟨fun _ _ _ there => (plain there).elim, fun _ _ _ there => (plain there).elim,
    fun _ _ _ _ _ there => (plain there).elim⟩

theorem initialFiles_linkedUp {flashRoot depth : Nat}
    (ordinary : FlashDirectory.Ordinary memory flashRoot)
    (made : initialFiles memory flashRoot depth = .ok fs) : LinkedUp fs ∧ Rooted fs := by
  obtain ⟨flash, flashMade, made⟩ := bind_ok.mp made
  obtain ⟨memoryFiles, memoryMade, devicesMade⟩ := bind_ok.mp made
  obtain ⟨built, constructed, flashMade⟩ := bind_ok.mp flashMade
  obtain ⟨_, flashMade⟩ := require_bind_ok.mp flashMade
  cases Except.ok.inj flashMade
  obtain ⟨valid, _, later, _⟩ :=
    FlashDirectory.construct_spec memory depth consoleFileSystem_valid constructed
  obtain ⟨linked, unreferenced⟩ :=
    FlashDirectory.construct_links memory depth consoleFileSystem_valid consoleFileSystem_linked
      ordinary constructed
  have free := unreferenced consoleFileSystem.next (le_refl _)
    (.of_closed consoleFileSystem_valid.closed.entries consoleFileSystem.not_existing)
  have rooted := memoryFileSystem_rooted valid later memoryMade
  exact ⟨deviceFileSystem_linkedUp (memoryFileSystem_linkedUp valid linked later free memoryMade) rooted.valid.closed devicesMade,
    deviceFileSystem_rooted rooted devicesMade⟩

private theorem bootFiles_linkedUp {flashRoot depth : Nat}
    (ordinary : FlashDirectory.Ordinary memory flashRoot)
    (made : bootFiles memory flashRoot depth = .ok fs) : LinkedUp fs := by
  obtain ⟨flash, flashMade, made⟩ := bind_ok.mp made
  obtain ⟨memoryFiles, memoryMade, made⟩ := bind_ok.mp made
  obtain ⟨devices, devicesMade, made⟩ := bind_ok.mp made
  have initial : initialFiles memory flashRoot depth = .ok devices :=
    bind_ok.mpr ⟨flash, flashMade, bind_ok.mpr ⟨memoryFiles, memoryMade, devicesMade⟩⟩
  obtain ⟨up, rooted⟩ := initialFiles_linkedUp ordinary initial
  exact addExample_linkedUp up rooted.valid.closed made

namespace KernelFiles
variable {kernel last start : KernelFiles} {process : Nat} {call : SystemCall}

/-- The step lemma. -/
theorem Serves.linkedUp (serves : kernel.Serves process call last)
    (closed : kernel.fileSystem.Closed) (up : LinkedUp kernel.fileSystem) :
    LinkedUp last.fileSystem := by
  cases serves with
  | nothing | reads | prints | spawns | enters => exact up
  | @writes fd bytes file offset held => exact up.modify (append_entries _ bytes)
  | @opens pathname flags mode path result after resolved opens =>
    cases opens with
    | failed error => exact up
    | opened files made => exact up.opened closed files

private theorem boot_linkedUp {flashRoot depth : Nat} {uart : UART}
    (ordinary : FlashDirectory.Ordinary memory flashRoot)
    (booted : boot memory flashRoot depth uart = .ok kernel) : LinkedUp kernel.fileSystem := by
  obtain ⟨fs, files, booted⟩ := bind_ok.mp booted
  obtain ⟨shellFile, _, booted⟩ := bind_ok.mp booted
  split at booted
  next =>
    obtain ⟨created, _, booted⟩ := bind_ok.mp booted
    cases Except.ok.inj booted
    exact bootFiles_linkedUp ordinary files
  next => cases booted

/-- The directories are linked when the three file systems have been made, and stay so in every
run. -/
theorem back_links {flashRoot depth : Nat} (ordinary : FlashDirectory.Ordinary memory flashRoot) :
    (∀ fs, initialFiles memory flashRoot depth = .ok fs → BackLinks fs) ∧
      ∀ uart start kernel, boot memory flashRoot depth uart = .ok start →
      machine.Reachable start kernel → BackLinks kernel.fileSystem := by
  refine ⟨fun fs made => ?_, fun uart start kernel booted reachable => ?_⟩
  · obtain ⟨up, rooted⟩ := initialFiles_linkedUp ordinary made
    exact up.backLinks rooted.valid.closed
  · have always : kernel.Valid ∧ LinkedUp kernel.fileSystem :=
      reachable.invariant (fun kernel => kernel.Valid ∧ LinkedUp kernel.fileSystem)
        ⟨boot_valid booted, boot_linkedUp ordinary booted⟩
        fun both permitted executed => by
          have serves := execute_serves both.1 executed
          exact ⟨(serves.valid both.1 permitted).1,
            serves.linkedUp both.1.rooted.valid.closed both.2⟩
    exact always.2.backLinks always.1.rooted.valid.closed

private theorem shellFlash_ordinary : FlashDirectory.Ordinary shellFlash 4096 := by
  have single : (FileInfo.load shellFlash 4096).size / FlashDirectory.infoSize = 1 := by
    decide +kernel
  have regular : (FileInfo.load shellFlash (FlashDirectory.entryInfo shellFlash 4096 0)).format ≠
    ModeFlags.directory := by decide +kernel
  have shell : (cstring shellFlash (2 ^ 32) (FlashDirectory.entryAddress shellFlash 4096 0)).toOption = some (literal "Shell.elf") := by
    decide +kernel
  have root {address : Nat} (recorded : FlashDirectory.Recorded shellFlash 4096 address) :
    address = 4096 := by
    induction recorded with
    | root => rfl
    | inside _ present isDirectory ih =>
      subst ih
      rw [single] at present
      exact absurd (Nat.lt_one_iff.mp present ▸ isDirectory) regular
  intro address recorded index present name named
  obtain rfl := root recorded
  rw [single] at present
  obtain rfl := Nat.lt_one_iff.mp present
  rw [toOption_some.mp shell] at named
  obtain rfl := Except.ok.inj named
  exact ⟨by decide, by decide⟩

/-- A file is made in the root, on a path through the programs. -/
theorem back_links_new : ∃ start kernel, boot shellFlash 4096 1
    (.initial 0 fun _ => 0) = .ok start ∧
    machine.Reachable start kernel ∧ kernel.fileSystem.tryLookup ⟨true, [literal "new"]⟩ = .ok (.ok 7) ∧ BackLinks kernel.fileSystem := by
  have played : ((boot shellFlash 4096 1 (.initial 0 fun _ => 0)).toOption.bind fun start =>
      (machine.after start [.quiet 0 (.open (literal "/bin/../new") O_CREAT 0)]).map fun kernel =>
        (kernel.fileSystem.tryLookup ⟨true, [literal "new"]⟩).toOption.bind Except.toOption) = some (some 7) := by decide +kernel
  obtain ⟨start, booted, rest⟩ := Option.bind_eq_some_iff.mp played
  obtain ⟨kernel, ran, found⟩ := Option.map_eq_some_iff.mp rest
  obtain ⟨result, looked, reached⟩ := Option.bind_eq_some_iff.mp found
  have began := toOption_some.mp booted
  have reachable := Machine.reachable_after ran
  refine ⟨start, kernel, began, reachable, ?_,
    (back_links shellFlash_ordinary).2 _ start kernel began reachable⟩
  rw [toOption_some.mp looked, toOption_some.mp reached]

end KernelFiles
end PicoOs.Kernel
