import PicoOs.Proofs.DeviceFiles
import PicoOs.Proofs.FlashRoundTrips
import PicoOs.Proofs.PathLookups

/-! The kernel boots from a tree that was given to `ElfEmbed`. The tree is entered into the root as
`/bin`, and the files that are made afterwards leave it alone. -/

namespace PicoOs.Kernel
open Library PicoOs.Std FileSystem

namespace FlashDirectory
variable {memory : Memory} {construct : FileSystem → Nat → Except Crash FileSystem}
  {fs after : FileSystem} {directory : FileRef} {address : Nat}

/-- The number of the next memory file is not used in the flash. -/
def Leaves (construct : FileSystem → Nat → Except Crash FileSystem) : Prop :=
  ∀ fs address after, construct fs address = .ok after → after.nextIno = fs.nextIno

private theorem addFile_leaves (leaves : Leaves construct)
    (added : addFile memory construct fs directory address = .ok after) :
    after.nextIno = fs.nextIno := by
  unfold addFile at added
  dsimp only at added
  split at added
  next =>
    obtain ⟨made, constructed, done⟩ := bind_ok.mp added
    rw [← Except.ok.inj done]
    exact leaves fs address made constructed
  next =>
    obtain ⟨_, done⟩ := require_bind_ok.mp added
    rw [← Except.ok.inj done]
    rfl

private theorem addEntries_leaves (leaves : Leaves construct) (rounds : Nat) {entry stop : Nat}
    (added : addEntries memory construct rounds fs directory entry stop = .ok after) :
    after.nextIno = fs.nextIno := by
  induction rounds generalizing fs entry with
  | zero => cases added
  | succ rounds ih =>
    unfold addEntries at added
    split at added
    next => rw [← Except.ok.inj added]
    next =>
      obtain ⟨made, addedFile, rest⟩ := bind_ok.mp added
      obtain ⟨name, _, rest⟩ := bind_ok.mp rest
      have kept := addFile_leaves leaves addedFile
      exact (ih rest).trans kept

private theorem construct_leaves (memory : Memory) (depth : Nat) :
    Leaves (FlashDirectory.construct memory depth) := by
  induction depth with
  | zero => exact fun _ _ _ constructed => nomatch constructed
  | succ depth ih =>
    intro fs address after constructed
    have kept := addEntries_leaves ih _ constructed
    exact kept

private theorem addEntries_format (constructs : Constructs construct) (rounds : Nat)
    {entry stop : Nat} (valid : fs.Valid) (inside : directory < fs.next)
    (added : addEntries memory construct rounds fs directory entry stop = .ok after) :
    (after.files directory).format = (fs.files directory).format := by
  induction rounds generalizing fs entry with
  | zero => cases added
  | succ rounds ih =>
    unfold addEntries at added
    split at added
    next => rw [← Except.ok.inj added]
    next =>
      obtain ⟨made, addedFile, rest⟩ := bind_ok.mp added
      obtain ⟨name, _, rest⟩ := bind_ok.mp rest
      obtain ⟨madeValid, grows, more⟩ := addFile_spec constructs valid inside addedFile
      have within : directory < made.next := inside.trans more
      rw [ih (madeValid.setEntry within more) within rest, setEntry_format,
        (grows.files directory inside).format]

private theorem construct_format {depth : Nat} (valid : fs.Valid)
    (constructed : FlashDirectory.construct memory depth fs address = .ok after) :
    (after.files fs.next).format = (FileInfo.load memory address).format := by
  cases depth with
  | zero => cases constructed
  | succ depth =>
    have kept := addEntries_format (construct_spec memory depth) _ (valid.withSelf rfl)
      (Nat.lt_succ_self fs.next) constructed
    rw [kept, setEntry_format, setEntry_format, allocate_new]
    rfl

end FlashDirectory

open Tools (Extends)

variable {flash fs : FileSystem} {flashRoot directory target : FileRef} {name : ImmutableString}

private theorem setEntry_enters (isSome : (fs.files directory).entries.isSome) :
    (fs.setEntry directory name target).directories.walk directory [name] = .ok target := by
  obtain ⟨entries, there⟩ := Option.isSome_iff_exists.mp isSome
  have changed : ((fs.setEntry directory name target).files directory).entries =
    some (entries.set name target) := by
    rw [FileSystem.setEntry, modify_same, VirtualFile.setEntry_directory there]
    rfl
  exact bind_ok.mpr ⟨target, Directories.enter_entry (directories_some changed) (HashMap.getOpt_set_same _ _ _), rfl⟩

theorem modify_extends {before after : FileSystem} (extends_ : Extends before after)
    (new : before.next ≤ directory) (value : VirtualFile) :
    Extends before (after.modify directory value) where
  next := extends_.next
  files other old := by
    rw [modify_other after value (Nat.ne_of_lt (old.trans_le new)), extends_.files other old]

theorem newMemoryFile_extends (fs : FileSystem) : Extends fs fs.newMemoryFile where
  next := Nat.lt_succ_self _
  files _ old := fs.allocate_old _ old

private theorem newMemoryDirectory_extends (fs : FileSystem) :
    Extends fs fs.newMemoryDirectory := by
  have allocated : Extends fs { fs.allocate (fs.memoryFile ModeFlags.directory 0xdead (.directory .empty)) with nextIno := fs.nextIno + 1 } :=
    ⟨Nat.lt_succ_self _, fun _ old => fs.allocate_old _ old⟩
  exact (allocated.setEntry (Nat.le_refl _) dot fs.next).setEntry (Nat.le_refl _) dotdot fs.next

private theorem newMemoryDirectory_isSome (fs : FileSystem) :
    (fs.newMemoryDirectory.files fs.next).entries.isSome := by
  refine setEntry_isSome (setEntry_isSome ?_)
  have made : ({ fs.allocate (fs.memoryFile ModeFlags.directory 0xdead (.directory .empty)) with nextIno := fs.nextIno + 1 } : FileSystem).files fs.next =
      fs.memoryFile ModeFlags.directory 0xdead (.directory .empty) := fs.allocate_new _
  rw [made]
  rfl

private theorem newMemoryDirectory_ino (fs : FileSystem) :
    (fs.newMemoryDirectory.files fs.next).ino = fs.nextIno := by
  simp only [FileSystem.newMemoryDirectory, FileSystem.setEntry, modify_same, allocate_new,
    FileSystem.memoryFile,
    VirtualFile.construct, VirtualFile.setEntry]

theorem walk_kept {after : FileSystem} (same : after.files directory = fs.files directory)
    (name : ImmutableString) :
    after.directories.walk directory [name] = fs.directories.walk directory [name] := by
  simp only [Directories.walk, List.foldlM_cons, List.foldlM_nil, Directories.enter,
    directories, same]

structure Mounted (flash : FileSystem) (flashRoot : FileRef) (fs : FileSystem) : Prop where
  extends_ : Extends flash fs
  root : flash.next ≤ fs.root
  exists_ : fs.root < fs.next
  isDirectory : (fs.files fs.root).entries.isSome
  bin : fs.directories.walk fs.root [bin] = .ok flashRoot

private theorem memoryFileSystem_mounts (old : flashRoot < fs.next)
    (isDirectory : (fs.files flashRoot).entries.isSome) (ino : fs.nextIno = 2) :
    ∃ after devDirectory, memoryFileSystem flashRoot fs = .ok after ∧
    Mounted (fs.setEntry flashRoot dotdot fs.next) flashRoot after ∧
      after.directories.walk after.root [dev] = .ok devDirectory ∧ fs.next ≤ devDirectory ∧
      (after.files devDirectory).entries.isSome := by
  let root := fs.next
  let made : FileSystem := { fs.newMemoryDirectory with root }
  let entered := (made.setEntry root dot root).setEntry root dotdot root
  let devDirectory := entered.next
  let linked := (entered.newMemoryDirectory.setEntry devDirectory dotdot root).setEntry root
    dev devDirectory
  have apart : devDirectory ≠ root := Nat.succ_ne_self _
  have first : Extends fs made :=
    ⟨(newMemoryDirectory_extends fs).next, (newMemoryDirectory_extends fs).files⟩
  have extended : Extends fs linked :=
    ((((first.setEntry (le_refl _) dot root).setEntry (le_refl _) dotdot root).trans (newMemoryDirectory_extends entered)).setEntry
      (Nat.le_succ _) dotdot root).setEntry (le_refl _) dev devDirectory
  have rootDirectory : (made.files root).entries.isSome := newMemoryDirectory_isSome fs
  have devIsDirectory : (linked.files devDirectory).entries.isSome :=
    setEntry_isSome (setEntry_isSome (newMemoryDirectory_isSome entered))
  have enteredDirectory : (entered.files root).entries.isSome :=
    setEntry_isSome (setEntry_isSome rootDirectory)
  have kept : entered.newMemoryDirectory.files root = entered.files root :=
    (newMemoryDirectory_extends entered).files root (Nat.lt_succ_self _)
  have linkedDirectory : ((entered.newMemoryDirectory.setEntry devDirectory dotdot root).files root).entries.isSome :=
    setEntry_isSome (kept ▸ enteredDirectory)
  have inDev : linked.directories.walk root [dev] = .ok devDirectory :=
    setEntry_enters linkedDirectory
  have flash : (linked.files flashRoot).entries.isSome :=
    (extended.files flashRoot old).symm ▸ isDirectory
  have two : (made.files root).ino = 2 := (newMemoryDirectory_ino fs).trans ino
  have rootIs : ((linked.setEntry flashRoot dotdot root).files root).entries.isSome :=
    setEntry_isSome (setEntry_isSome linkedDirectory)
  refine ⟨(linked.setEntry flashRoot dotdot root).setEntry root bin flashRoot, devDirectory, ?_,
    ⟨⟨extended.next, fun other inside => ?_⟩,
    le_refl _, Nat.lt_succ_of_lt (Nat.lt_succ_self _), setEntry_isSome rootIs,
      setEntry_enters rootIs⟩, setEntry_walk (by decide) (setEntry_walk (by decide) inDev), Nat.le_succ _,
    setEntry_isSome (setEntry_isSome devIsDirectory)⟩
  · exact require_bind_ok.mpr ⟨two, require_bind_ok.mpr ⟨flash, rfl⟩⟩
  · have mine : other ≠ root := Nat.ne_of_lt inside
    rw [FileSystem.setEntry, modify_other _ _ mine, FileSystem.setEntry, FileSystem.setEntry,
      extended.files flashRoot old]
    by_cases same : other = flashRoot
    · rw [same, modify_same, modify_same]
    · rw [modify_other _ _ same, modify_other _ _ same, extended.files other inside]

private theorem deviceFileSystem_mounts (mounted : Mounted flash flashRoot fs)
    (inDev : fs.directories.walk fs.root [dev] = .ok directory)
    (new : flash.next ≤ directory) (isDirectory : (fs.files directory).entries.isSome) :
    ∃ after, deviceFileSystem fs = .ok after ∧ Mounted flash flashRoot after := by
  have found : fs.lookup ⟨true, [dev]⟩ = .ok directory := lookup_iff.mpr (tryLookup_walk.mpr inDev)
  let registered : FileSystem := { fs with devices := fs.devices.set ttyDevice.toNat fs.console }
  let ttyFile : VirtualFile :=
    { registered.newMemoryFile.files fs.next with mode := ModeFlags.device, deviceId := ttyDevice }
  let created := registered.newMemoryFile.modify fs.next ttyFile
  have added : Extends fs registered.newMemoryFile :=
    ⟨(newMemoryFile_extends registered).next, (newMemoryFile_extends registered).files⟩
  have made : Extends fs created := modify_extends added (le_refl _) ttyFile
  have extended : Extends flash created := mounted.extends_.trans made
  have root := made.files fs.root mounted.exists_
  refine ⟨created.setEntry directory tty fs.next, ?_, extended.setEntry new tty _, mounted.root,
    mounted.exists_.trans (Nat.lt_succ_self _),
    setEntry_isSome (root.symm ▸ mounted.isDirectory), setEntry_walk
      (by decide) ((walk_kept root bin).trans mounted.bin)⟩
  exact bind_ok.mpr ⟨directory, found, require_bind_ok.mpr ⟨isDirectory, rfl⟩⟩

private theorem addExample_mounts (mounted : Mounted flash flashRoot fs) :
    ∃ after, addExample fs = .ok after ∧ Mounted flash flashRoot after := by
  let exampleFile := (fs.newMemoryFile.files fs.next).append (literal "Hello, world!\n")
  let created := fs.newMemoryFile.modify fs.next exampleFile
  have made : Extends fs created :=
    modify_extends (newMemoryFile_extends fs) (le_refl _) exampleFile
  have root := made.files fs.root mounted.exists_
  have isDirectory : (created.files fs.root).entries.isSome := root.symm ▸ mounted.isDirectory
  refine ⟨created.setEntry fs.root (literal "example.txt") fs.next, ?_, (mounted.extends_.trans made).setEntry mounted.root _ _, mounted.root,
    mounted.exists_.trans (Nat.lt_succ_self _), setEntry_isSome isDirectory,
      setEntry_walk (by decide) ((walk_kept root bin).trans mounted.bin)⟩
  exact bind_ok.mpr ⟨fs.root, rfl, require_bind_ok.mpr ⟨isDirectory, rfl⟩⟩

/-- The files of `boot_with_scheduler`, if those of the flash can be read. -/
theorem bootFiles_mounts {memory : Memory} {flashRoot depth : Nat}
    (made : flashFileSystem memory flashRoot depth consoleFileSystem = .ok flash) :
    ∃ fs, bootFiles memory flashRoot depth = .ok fs ∧
      Mounted (flash.setEntry consoleFileSystem.next dotdot flash.next)
        consoleFileSystem.next fs := by
  obtain ⟨built, constructed, done⟩ := bind_ok.mp made
  obtain ⟨_, done⟩ := require_bind_ok.mp done
  obtain rfl := Except.ok.inj done
  obtain ⟨_, _, later, isDirectory⟩ :=
    FlashDirectory.construct_spec memory depth consoleFileSystem_valid constructed
  have ino := FlashDirectory.construct_leaves memory depth _ _ _ constructed
  obtain ⟨memoryFiles, devDirectory, memoryMade, mounted, inDev, new, devIsDirectory⟩ :=
    memoryFileSystem_mounts later isDirectory ino
  obtain ⟨devices, devicesMade, still⟩ := deviceFileSystem_mounts mounted inDev new devIsDirectory
  obtain ⟨fs, exampleMade, last⟩ := addExample_mounts still
  exact ⟨fs, bind_ok.mpr ⟨built, made,
    bind_ok.mpr ⟨memoryFiles, memoryMade, bind_ok.mpr ⟨devices, devicesMade, exampleMade⟩⟩⟩, last⟩

/-- The device files are there if the record of the flash says that it is a directory. -/
theorem bootFiles_ready {memory : Memory} {flashRoot depth : Nat}
    (made : flashFileSystem memory flashRoot depth consoleFileSystem = .ok flash)
    (format : (flash.files consoleFileSystem.next).format = ModeFlags.directory)
    (booted : bootFiles memory flashRoot depth = .ok fs) :
    ∃ created, ProcessFiles.construct fs = .ok created := by
  obtain ⟨built, constructed, done⟩ := bind_ok.mp made
  obtain ⟨_, done⟩ := require_bind_ok.mp done
  obtain rfl := Except.ok.inj done
  have isDirectory := (FlashDirectory.construct_format consoleFileSystem_valid constructed).symm.trans format
  exact (bootFiles_devices isDirectory booted).construct (bootFiles_rooted booted).valid

end PicoOs.Kernel

namespace PicoOs.Tools
open Library PicoOs.Std
open Kernel (literal FileRef ModeFlags Mounted VirtualFile flashFileSystem bootFiles consoleFileSystem dot dotdot bin)

def treeDirectories (files : List (UInt32 × Node)) : Directories UInt32 (List UInt8) := fun inode =>
  match files.lookup inode with
  | some (.directory entries) => some fun name => entries.lookup name
  | _ => none

section
variable {files : List (UInt32 × Node)} {fs : Kernel.FileSystem} {ref parent : FileRef}
  {inode : UInt32} {entries : List (List UInt8 × UInt32)}

private theorem lookup_mem {Key Value : Type} [BEq Key] [LawfulBEq Key] {pairs : List (Key × Value)}
    (distinct : (pairs.map Prod.fst).Nodup) {key : Key}
    {value : Value} (member : (key, value) ∈ pairs) : pairs.lookup key = some value := by
  obtain ⟨before, after, rfl⟩ := List.mem_iff_append.mp member
  refine List.lookup_eq_some_iff.mpr ⟨before, after, rfl,
    fun pair earlier => bne_iff_ne.mpr fun same => ?_⟩
  rw [List.map_append, List.nodup_append] at distinct
  exact distinct.2.2 pair.1 (List.mem_map_of_mem earlier) key List.mem_cons_self same.symm

private theorem treeDirectories_some {find : List UInt8 → Option UInt32}
    (directory : treeDirectories files inode = some find) :
    ∃ entries, (inode, .directory entries) ∈ files ∧ find = fun name => entries.lookup name := by
  unfold treeDirectories at directory
  split at directory
  next entries found =>
    obtain ⟨before, after, split, -⟩ := List.lookup_eq_some_iff.mp found
    exact ⟨entries, split ▸ List.mem_append_right _ List.mem_cons_self,
      (Option.some.inj directory).symm⟩
  next => cases directory

private theorem treeDirectories_enter (bottomUp : BottomUp [] files)
    (there : (inode, .directory entries) ∈ files) {name : List UInt8} {child : UInt32}
    (distinct : (entries.map Prod.fst).Nodup) (entry : (name, child) ∈ entries) :
    (treeDirectories files).enter inode name = .ok child := by
  have lookup : files.lookup inode = some (.directory entries) := lookup_mem bottomUp.distinct there
  have directory : treeDirectories files inode = some fun name => entries.lookup name := by
    rw [treeDirectories, lookup]
  exact Directories.enter_entry directory (lookup_mem distinct entry)

/-- What is entered in the tree is entered in the objects that show it. -/
theorem Shows.simulates (bottomUp : BottomUp [] files) (fs : Kernel.FileSystem) :
    Directories.Simulates (fun _ => True) (fun inode ref => ∃ parent,
      Shows files fs ref parent inode) (treeDirectories files) fs.directories := by
  rintro inode ref name target - ⟨parent, shows_⟩ entered
  obtain ⟨find, directory, entry⟩ := Directories.enter_ok entered
  obtain ⟨entries, member, rfl⟩ := treeDirectories_some directory
  obtain ⟨before, after, split, -⟩ := List.lookup_eq_some_iff.mp entry
  cases shows_ with
  | file there exists_ same => cases bottomUp.unique member there
  | directory targets there exists_ same self up names found newer shown =>
    cases bottomUp.unique member there
    have among : (name, target) ∈ entries := split ▸ List.mem_append_right _ List.mem_cons_self
    refine ⟨targets name, Kernel.FileSystem.enter_some.mpr ⟨_, ?_, found _ among⟩,
      ref, shown _ among⟩
    rw [same]
    rfl

/-- And what is entered in the objects, but for the links to themselves and back, is in the tree. -/
theorem Shows.simulated (bottomUp : BottomUp [] files)
    (distinct : ∀ inode entries, (inode, .directory entries) ∈ files → (entries.map Prod.fst).Nodup)
    (fs : Kernel.FileSystem) : Directories.Simulates (fun name => name ≠ dot ∧ name ≠ dotdot)
      (fun ref inode => ∃ parent, Shows files fs ref parent inode) fs.directories
        (treeDirectories files) := by
  rintro ref inode name target ⟨notDot, notDotdot⟩ ⟨parent, shows_⟩ entered
  obtain ⟨map, directory, entry⟩ := Kernel.FileSystem.enter_some.mp entered
  cases shows_ with
  | file there exists_ same =>
    rw [same] at directory
    cases directory
  | @directory _ _ _ entries known targets there exists_ same self up names found newer shown =>
    rw [same] at directory
    obtain rfl : known = map := Option.some.inj directory
    obtain rfl | rfl | among := names name (Option.isSome_of_eq_some entry)
    · exact absurd rfl notDot
    · exact absurd rfl notDotdot
    · obtain ⟨⟨_, child⟩, member, rfl⟩ := List.mem_map.mp among
      obtain rfl : targets _ = target := Option.some.inj ((found _ member).symm.trans entry)
      exact ⟨child, treeDirectories_enter bottomUp there (distinct inode entries there) member, ref,
        shown _ member⟩

/-- The tree is what is under `/bin`. -/
structure MountsTree (files : List (UInt32 × Node)) (fs : Kernel.FileSystem) : Prop where
  shown : ∀ names inode, (treeDirectories files).walk 2 names = .ok inode →
    ∃ ref parent, fs.tryLookup ⟨true, bin :: names⟩ = .ok (.ok ref) ∧
      Shows files fs ref parent inode
  only : ∀ names ref, (∀ name ∈ names, name ≠ dot ∧ name ≠ dotdot) →
    fs.tryLookup ⟨true, bin :: names⟩ = .ok (.ok ref) →
    ∃ inode parent, (treeDirectories files).walk 2 names = .ok inode ∧
      Shows files fs ref parent inode

variable {flash : Kernel.FileSystem} {flashRoot : FileRef}

private theorem mountsTree_mounted (mounted : Mounted flash flashRoot fs)
    (bottomUp : BottomUp [] files)
    (distinct : ∀ inode entries, (inode, .directory entries) ∈ files → (entries.map Prod.fst).Nodup)
    (shows_ : Shows files flash flashRoot parent 2) : MountsTree files fs := by
  have still := shows_.congr mounted.extends_.next.le fun other _ below =>
    mounted.extends_.files other below
  have walk (names : List (List UInt8)) : fs.directories.walk fs.root (bin :: names) =
    fs.directories.walk flashRoot names := by
    rw [← List.singleton_append, Directories.walk_append, mounted.bin]
    rfl
  refine ⟨fun names inode reached => ?_, fun names ref clean found => ?_⟩
  · obtain ⟨ref, walked, parent, shown⟩ :=
      (Shows.simulates bottomUp fs).walk (fun _ _ => trivial) ⟨_, still⟩ reached
    exact ⟨ref, parent, Kernel.tryLookup_walk.mpr ((walk names).trans walked), shown⟩
  · have walked := (walk names).symm.trans (Kernel.tryLookup_walk.mp found)
    obtain ⟨inode, reached, parent, shown⟩ :=
      (Shows.simulated bottomUp distinct fs).walk clean ⟨_, still⟩ walked
    exact ⟨inode, parent, reached, shown⟩

end

def HasShell (files : List (UInt32 × Node)) : Prop :=
  ∃ inode mode bytes, (treeDirectories files).walk 2 [literal "Shell.elf"] = .ok inode ∧ (inode, .file mode bytes) ∈ files

section
open Kernel (KernelFiles UART)
variable {files : List (UInt32 × Node)} {memory : Memory} {flashRoot depth : Nat}
  {flash : Kernel.FileSystem}

private theorem bootFiles_mountsTree (tree : Tree files)
    (distinct : ∀ inode entries, (inode, .directory entries) ∈ files → (entries.map Prod.fst).Nodup)
    (made : flashFileSystem memory flashRoot depth consoleFileSystem = .ok flash)
    (shows_ : Shows files flash consoleFileSystem.next consoleFileSystem.next 2) :
    ∃ fs, bootFiles memory flashRoot depth = .ok fs ∧ MountsTree files fs ∧
    ∃ created, Kernel.ProcessFiles.construct fs = .ok created := by
  obtain ⟨fs, booted, mounted⟩ := Kernel.bootFiles_mounts made
  have proper : ∀ entries, (2, Node.directory entries) ∈ files →
    ∀ entry ∈ entries, entry.1 ≠ dotdot :=
    fun entries there entry member => (tree.bottomUp.proper _ there entry member).2.2.2.2
  obtain ⟨entries, root⟩ := tree.root
  have format : (flash.files consoleFileSystem.next).format = ModeFlags.directory := by
    cases shows_ with
    | file there exists_ same => cases tree.bottomUp.unique root there
    | directory targets there exists_ same =>
      rw [same]
      exact (by decide : ModeFlags.directory &&& ModeFlags.format = ModeFlags.directory)
  exact ⟨fs, booted, mountsTree_mounted mounted tree.bottomUp distinct (shows_.enter proper flash.next), Kernel.bootFiles_ready made format booted⟩

/-- The files that a kernel has booted with. -/
theorem boot_files {fs : Kernel.FileSystem} {uart : UART} {kernel : KernelFiles}
    (booted : bootFiles memory flashRoot depth = .ok fs)
    (done : KernelFiles.boot memory flashRoot depth uart = .ok kernel) :
    kernel.fileSystem = fs := by
  obtain ⟨_, same, done⟩ := bind_ok.mp done
  obtain rfl := Except.ok.inj (booted.symm.trans same)
  obtain ⟨shellFile, _, done⟩ := bind_ok.mp done
  split at done
  next =>
    obtain ⟨_, _, done⟩ := bind_ok.mp done
    rw [← Except.ok.inj done]
  next => cases done

/-- The kernel boots if it finds the program that it starts first. -/
theorem boots_iff {fs : Kernel.FileSystem} (uart : UART) (bottomUp : BottomUp [] files)
    (booted : bootFiles memory flashRoot depth = .ok fs)
    (mounts : MountsTree files fs)
    (ready : ∃ created, Kernel.ProcessFiles.construct fs = .ok created) :
    (∃ kernel, KernelFiles.boot memory flashRoot depth uart = .ok kernel) ↔ HasShell files := by
  obtain ⟨created, constructed⟩ := ready
  constructor
  · rintro ⟨kernel, done⟩
    obtain ⟨_, same, done⟩ := bind_ok.mp done
    obtain rfl := Except.ok.inj (booted.symm.trans same)
    obtain ⟨shellFile, found, done⟩ := bind_ok.mp done
    obtain ⟨inode, parent, reached, shown⟩ := mounts.only [literal "Shell.elf"] shellFile (by decide) (Kernel.lookup_iff.mp found)
    cases shown with
    | file there => exact ⟨inode, _, _, reached, there⟩
    | directory targets there exists_ same =>
      rw [same] at done
      cases done
  · rintro ⟨inode, mode, bytes, reached, member⟩
    obtain ⟨ref, parent, found, shown⟩ := mounts.shown _ _ reached
    cases shown with
    | file there exists_ same =>
      refine ⟨⟨fs, uart, fun _ => created, 1⟩,
        bind_ok.mpr ⟨fs, booted, bind_ok.mpr ⟨ref, Kernel.lookup_iff.mpr found, ?_⟩⟩⟩
      rw [same]
      exact bind_ok.mpr ⟨created, constructed, rfl⟩
    | directory targets there => cases bottomUp.unique member there

variable {indeterminate : Fin 16 → UInt8} {calls : List FileCall} {outcomes : List Outcome}
  {object : List UInt8}

theorem embedded_mounts (embedded : embed indeterminate calls = .ok (outcomes, object))
    (tree : Tree (added outcomes calls))
    (small : object.length < 2 ^ 32) (few : calls.length < 2 ^ 23) {base : Nat}
    (aligned : ∀ count < calls.length, 4 ∣ base + ((calls.take (count + 1)).map FileCall.dataSize).sum) :
    ∃ flashRoot image, flashImage object base = some (flashRoot, image) ∧
    image.length ≤ object.length ∧ ∀ memory, Loaded memory base image →
      ∃ enough, ∀ depth ≥ enough, ∃ fs, bootFiles memory flashRoot depth = .ok fs ∧
      MountsTree (added outcomes calls) fs ∧
        ∃ created, Kernel.ProcessFiles.construct fs = .ok created := by
  obtain ⟨flashRoot, image, found, part, exact_⟩ :=
    embedded_reconstructs embedded tree small few base
  refine ⟨flashRoot, image, found, part, fun memory loaded => ?_⟩
  obtain ⟨enough, reconstructs⟩ := (exact_ memory loaded).mpr aligned
  refine ⟨enough, fun depth deep => ?_⟩
  obtain ⟨flash, made, shows_, _⟩ := reconstructs depth deep consoleFileSystem
  exact bootFiles_mountsTree tree (fun _ _ => added_sorted) made shows_

/-- The kernel boots from the image of a tree if and only if the tree has a shell, and the tree is
what it finds under `/bin`. -/
theorem boots_from_embedded (embedded : embed indeterminate calls = .ok (outcomes, object))
    (tree : Tree (added outcomes calls))
    (small : object.length < 2 ^ 32) (few : calls.length < 2 ^ 23) {base : Nat}
    (aligned : ∀ count < calls.length, 4 ∣ base + ((calls.take (count + 1)).map FileCall.dataSize).sum) :
    ∃ flashRoot image, flashImage object base = some (flashRoot, image) ∧
    ∀ memory, Loaded memory base image →
      ∃ enough, ∀ depth ≥ enough, ∀ uart,
        ((∃ kernel, KernelFiles.boot memory flashRoot depth uart = .ok kernel) ↔
          HasShell (added outcomes calls)) ∧
        ∀ kernel, KernelFiles.boot memory flashRoot depth uart = .ok kernel →
        MountsTree (added outcomes calls) kernel.fileSystem := by
  obtain ⟨flashRoot, image, found, _, mounts⟩ := embedded_mounts embedded tree small few aligned
  refine ⟨flashRoot, image, found, fun memory loaded => ?_⟩
  obtain ⟨enough, boots⟩ := mounts memory loaded
  refine ⟨enough, fun depth deep uart => ?_⟩
  obtain ⟨fs, booted, mounted, ready⟩ := boots depth deep
  refine ⟨boots_iff uart tree.bottomUp booted mounted ready, fun kernel done => ?_⟩
  rw [boot_files booted done]
  exact mounted

def shellTree : List FileCall :=
  [.addHostFile [127, 69, 76, 70] 0x753, .addRootDirectory ⟨[(literal "Shell.elf", 3)], List.pairwise_singleton _ _, fun _ _ => 0⟩]

/-- What the generator makes of it. -/
theorem shellTree_embedded : ∃ object, embed (fun _ => 0) shellTree =
    .ok ([⟨3, [4]⟩, ⟨2, [44, 300]⟩], object) ∧ object.length < 2 ^ 16 ∧
    Tree (added [⟨3, [4]⟩, ⟨2, [44, 300]⟩] shellTree) ∧
    HasShell (added [⟨3, [4]⟩, ⟨2, [44, 300]⟩] shellTree) := by
  have computed : embedded? shellTree = some [⟨3, [4]⟩, ⟨2, [44, 300]⟩] := by decide +kernel
  obtain ⟨object, embedded, small⟩ := embedded?_some computed
  exact ⟨object, embedded, small,
    ⟨by decide +kernel, ⟨_, List.mem_cons_of_mem _ List.mem_cons_self⟩, by decide +kernel⟩,
    3, 0x753, [127, 69, 76, 70], by decide +kernel, List.mem_cons_self⟩

/-- The kernel boots from it, and its path leads to the shell. -/
theorem boots_from_embedded_shell : ∃ object flashRoot image memory depth kernel,
    embed (fun _ => 0) shellTree = .ok ([⟨3, [4]⟩, ⟨2, [44, 300]⟩], object) ∧
    flashImage object 0x10000000 = some (flashRoot, image) ∧
    Loaded memory 0x10000000 image ∧
    KernelFiles.boot memory flashRoot depth (.initial 0 fun _ => 0) = .ok kernel ∧
    MountsTree (added [⟨3, [4]⟩, ⟨2, [44, 300]⟩] shellTree) kernel.fileSystem := by
  obtain ⟨object, embedded, small, tree, shell⟩ := shellTree_embedded
  have aligned : ∀ count < shellTree.length, 4 ∣ 0x10000000 +
    ((shellTree.take (count + 1)).map FileCall.dataSize).sum := by decide
  obtain ⟨flashRoot, image, found, run⟩ :=
    boots_from_embedded embedded tree (by omega) (by decide) aligned
  obtain ⟨_, _, same, part, _⟩ := embedded_mounts embedded tree (by omega) (by decide) aligned
  obtain ⟨_, rfl⟩ := Prod.mk.inj (Option.some.inj (found.symm.trans same))
  have loaded : Loaded (flashMemory 0x10000000 image) 0x10000000 image :=
    loaded_flashMemory (by omega)
  obtain ⟨enough, boots⟩ := run _ loaded
  obtain ⟨may, mounts⟩ := boots enough (Nat.le_refl _) (.initial 0 fun _ => 0)
  obtain ⟨kernel, booted⟩ := may.mpr shell
  exact ⟨object, flashRoot, image, _, enough, kernel, embedded, found, loaded, booted,
    mounts kernel booted⟩

end

end PicoOs.Tools
