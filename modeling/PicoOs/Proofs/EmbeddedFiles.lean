import PicoOs.Proofs.EmbeddedBoot
import PicoOs.Proofs.SequentialReads

/-! Whatever the processes of a kernel do that has booted from a tree, the paths under `/bin` go on
to lead to the files of the tree, whose bytes come out of every handle that is made for them. -/

namespace PicoOs.Kernel
open Library PicoOs.Std FileSystem

namespace FileSystem
variable {fs middle after : FileSystem} {file : FileRef} {data : List UInt8}

theorem Continues.trans (first : fs.Continues middle) (last : middle.Continues after) :
    fs.Continues after :=
  { toGrows := first.toGrows.trans last.toGrows, root := last.root.trans first.root,
    devices := last.devices.trans first.devices }

theorem Grows.flashFile (grows : fs.Grows after) (old : file < fs.next)
    (kind : (fs.files file).kind = .flashFile data) :
    (after.files file).kind = .flashFile data := by
  have same := (grows.files file old).kind
  rw [kind] at same
  generalize (after.files file).kind = other at same
  cases same with
  | flashFile _ => rfl

theorem content_flashFile (kind : (fs.files file).kind = .flashFile data) :
    (fs.files file).content = some data := by
  rw [VirtualFile.content, kind]

end FileSystem

namespace KernelFiles
variable {first start kernel : KernelFiles} {process : Nat} {fd : Int} {file : FileRef}
  {data : List UInt8}

theorem reachable_continues (valid : first.Valid) (reachable : machine.Reachable first kernel) :
    kernel.Valid ∧ first.fileSystem.Continues kernel.fileSystem := by
  refine reachable.invariant (fun state => state.Valid ∧
    first.fileSystem.Continues state.fileSystem) ⟨valid, .refl _⟩ ?_
  rintro state event next ⟨still, continues⟩ permitted executed
  obtain ⟨later, further⟩ := (execute_serves still executed).valid still permitted
  exact ⟨later, continues.trans further⟩

/-- All reads through a handle that has just been made for a file in the flash. -/
theorem progress_run {history : List (KernelFiles × FileEvent)} (valid : start.Valid)
    (running : process < start.next)
    (old : file < start.fileSystem.next)
    (kind : (start.fileSystem.files file).kind = .flashFile data)
    (fresh : (start.processes process).handles.getOpt fd =
      some (start.fileSystem.createHandleImpl file))
    (run : machine.Run start history kernel) :
    ∃ pieces, Progress process fd file data history kernel pieces := by
  refine run.induct (fun history state => ∃ pieces,
    Progress process fd file data history state pieces)
    ⟨[], running, rfl, .nil data, _, fresh, .fresh (content_flashFile kind)⟩ ?_
  rintro history state event next run ⟨pieces, progress⟩ permitted executed
  obtain ⟨reached, continues⟩ := reachable_continues valid ⟨history, run⟩
  have later := continues.trans ((execute_serves reached executed).valid reached permitted).2
  exact progress.step reached permitted executed (content_flashFile (later.flashFile old kind))

/-- A file that is there can be opened, unless the call asks for a directory or for it to be
truncated. -/
theorem sysOpen_flashFile {path : Path} {pathname : ImmutableString} {flags : UInt32}
    (resolved : resolve (kernel.processes process) pathname = .ok path)
    (found : kernel.fileSystem.tryLookup path = .ok (.ok file))
    (plain : (kernel.fileSystem.files file).format ≠ ModeFlags.device)
    (notDirectory : flags &&& O_DIRECTORY = 0) (notTruncated : flags &&& O_TRUNC = 0) :
    ∃ fd after, kernel.sysOpen process pathname flags = .ok (⟨fd, .nothing⟩, after) ∧
    after.fileSystem = kernel.fileSystem ∧
      after.next = kernel.next ∧
      (after.processes process).handles.getOpt fd =
        some (kernel.fileSystem.createHandleImpl file) := by
  have handle : kernel.fileSystem.createHandle file = .ok
    (kernel.fileSystem.createHandleImpl file) := by
    rw [createHandle, createHandleWithin, if_neg plain]
  refine ⟨(kernel.processes process).nextHandleId,
    kernel.modifyProcess process ((kernel.processes process).addFileHandle (kernel.fileSystem.createHandleImpl file)).2, ?_, rfl, rfl, ?_⟩
  · refine bind_ok.mpr ⟨path, resolved, bind_ok.mpr ⟨_, found, ?_⟩⟩
    dsimp only
    rw [openExisting, if_neg fun asked => asked.1 notDirectory,
      if_neg fun asked => asked notTruncated, openFile, handle]
    rfl
  · simp only [modifyProcess, Function.update_self, ProcessFiles.addFileHandle,
      HashMap.getOpt_set_same]

end KernelFiles
end PicoOs.Kernel

namespace PicoOs.Tools
open Library PicoOs.Std
open Kernel (literal FileRef ModeFlags KernelFiles SystemCall Sequential bin O_DIRECTORY O_TRUNC)
open Kernel.KernelFiles (FileEvent machine resolve answers answer readSizes)

/-- A file of the tree is found at its path, and opening the path makes a handle through which
its bytes are read, however the reads are mixed with other calls. -/
structure ReadsBack (kernel : KernelFiles) (names : List (List UInt8)) (inode : UInt32)
    (mode : ModeFlags) (bytes : List UInt8) : Prop where
  found : ∃ file, kernel.fileSystem.tryLookup ⟨true, bin :: names⟩ = .ok (.ok file) ∧
    (kernel.fileSystem.files file).ino = inode ∧
    (kernel.fileSystem.files file).mode = mode ∧
      (kernel.fileSystem.files file).size = bytes.length ∧
    (kernel.fileSystem.files file).content = some bytes
  opens : ∀ process < kernel.next, ∀ pathname flags, resolve (kernel.processes process) pathname =
    .ok ⟨true, bin :: names⟩ →
    flags &&& O_DIRECTORY = 0 → flags &&& O_TRUNC = 0 →
    ∃ fd opened, kernel.sysOpen process pathname flags = .ok (⟨fd, .nothing⟩, opened) ∧
      ∀ history last, machine.Run opened history last →
      ∃ pieces, answers process fd history = pieces.map answer ∧
        Sequential bytes (readSizes process fd history) pieces

section
variable {files : List (UInt32 × Node)} {first kernel : KernelFiles} {names : List (List UInt8)}
  {inode : UInt32} {mode : ModeFlags} {bytes : List UInt8}

private theorem readsBack_mounted (valid : first.Valid) (mounts : MountsTree files first.fileSystem)
    (bottomUp : BottomUp [] files)
    (reachable : machine.Reachable first kernel)
    (reached : (treeDirectories files).walk 2 names = .ok inode)
    (member : (inode, .file mode bytes) ∈ files) : ReadsBack kernel names inode mode bytes := by
  obtain ⟨still, continues⟩ := Kernel.KernelFiles.reachable_continues valid reachable
  obtain ⟨file, parent, found, shown⟩ := mounts.shown names inode reached
  cases shown with
  | directory targets there => cases bottomUp.unique member there
  | file there exists_ same =>
    cases bottomUp.unique member there
    have regular : mode &&& ModeFlags.format = ModeFlags.regular := bottomUp.proper _ member
    have grows := continues.files file exists_
    have old := exists_.trans_le continues.next
    have later := continues.lookup valid.rooted.valid.closed found
    have kind := continues.toGrows.flashFile exists_ (congrArg Kernel.VirtualFile.kind same)
    have content := Kernel.FileSystem.content_flashFile kind
    have mode_ : (kernel.fileSystem.files file).mode = mode :=
      grows.mode.trans (congrArg Kernel.VirtualFile.mode same)
    have plain : (kernel.fileSystem.files file).format ≠ ModeFlags.device := by
      rw [Kernel.VirtualFile.format, mode_, regular]
      decide
    refine ⟨⟨file, later, grows.ino.trans (congrArg Kernel.VirtualFile.ino same), mode_,
      (still.rooted.valid.files file old).size bytes content, content⟩,
        fun process running pathname flags resolved notDirectory notTruncated => ?_⟩
    obtain ⟨fd, opened, returned, filesKept, nextKept, fresh⟩ :=
      Kernel.KernelFiles.sysOpen_flashFile resolved later plain notDirectory notTruncated
    have executed : machine.execute kernel (.quiet process (.open pathname flags 0)) = .ok opened :=
      congrArg (Prod.snd <$> ·) returned
    have next := (Kernel.KernelFiles.execute_serves still executed).valid still running
    refine ⟨fd, opened, returned, fun history last run => ?_⟩
    obtain ⟨pieces, progress⟩ :=
      Kernel.KernelFiles.progress_run next.1 (nextKept ▸ running) (filesKept ▸ old)
        (filesKept ▸ kind)
      (filesKept ▸ fresh) run
    exact ⟨pieces, progress.answers, progress.sequential⟩

variable {indeterminate : Fin 16 → UInt8} {calls : List FileCall} {outcomes : List Outcome}
  {object : List UInt8}

/-- In every state of every kernel that has booted from the image of a tree, the files of the tree
are read back. -/
theorem embedded_files_read_back (embedded : embed indeterminate calls = .ok (outcomes, object))
    (tree : Tree (added outcomes calls))
    (small : object.length < 2 ^ 32) (few : calls.length < 2 ^ 23) {base : Nat}
    (aligned : ∀ count < calls.length, 4 ∣ base + ((calls.take (count + 1)).map FileCall.dataSize).sum) :
    ∃ flashRoot image, flashImage object base = some (flashRoot, image) ∧
    ∀ memory, Loaded memory base image →
      ∃ enough, ∀ depth ≥ enough, ∀ uart first kernel,
      KernelFiles.boot memory flashRoot depth uart = .ok first → machine.Reachable first kernel →
        ∀ names inode mode bytes, (treeDirectories (added outcomes calls)).walk 2
          names = .ok inode →
          (inode, .file mode bytes) ∈ added outcomes calls →
          ReadsBack kernel names inode mode bytes := by
  obtain ⟨flashRoot, image, found, _, mounts⟩ := embedded_mounts embedded tree small few aligned
  refine ⟨flashRoot, image, found, fun memory loaded => ?_⟩
  obtain ⟨enough, boots⟩ := mounts memory loaded
  refine ⟨enough, fun depth deep uart first kernel booted reachable names inode mode bytes reached member => ?_⟩
  obtain ⟨fs, made, mounted, _⟩ := boots depth deep
  exact readsBack_mounted (Kernel.KernelFiles.boot_valid booted) (boot_files made booted ▸ mounted)
    tree.bottomUp reachable reached member

/-- The shell is read back after the boot. -/
theorem embedded_files_read_back_shell : ∃ object flashRoot image memory depth first,
    embed (fun _ => 0) shellTree = .ok ([⟨3, [4]⟩, ⟨2, [44, 300]⟩], object) ∧
    flashImage object 0x10000000 = some (flashRoot, image) ∧
    Loaded memory 0x10000000 image ∧
    KernelFiles.boot memory flashRoot depth (.initial 0 fun _ => 0) = .ok first ∧
    ReadsBack first [literal "Shell.elf"] 3 0x753 [127, 69, 76, 70] := by
  obtain ⟨object, embedded, small, tree, shell⟩ := shellTree_embedded
  have aligned : ∀ count < shellTree.length, 4 ∣ 0x10000000 +
    ((shellTree.take (count + 1)).map FileCall.dataSize).sum := by decide
  obtain ⟨flashRoot, image, found, back⟩ :=
    embedded_files_read_back embedded tree (by omega) (by decide) aligned
  obtain ⟨_, _, same, part, mounts⟩ := embedded_mounts embedded tree (by omega) (by decide) aligned
  obtain ⟨rfl, rfl⟩ := Prod.mk.inj (Option.some.inj (found.symm.trans same))
  have loaded : Loaded (flashMemory 0x10000000 image) 0x10000000 image :=
    loaded_flashMemory (by omega)
  obtain ⟨enough, reads⟩ := back _ loaded
  obtain ⟨deep, boots⟩ := mounts _ loaded
  obtain ⟨fs, made, mounted, ready⟩ := boots (max enough deep) (Nat.le_max_right ..)
  obtain ⟨first, booted⟩ := (boots_iff (.initial 0 fun _ => 0) tree.bottomUp made mounted ready).mpr shell
  exact ⟨object, flashRoot, image, _, _, first, embedded, found, loaded, booted,
    reads _ (Nat.le_max_left ..) _ first first booted ⟨[], .start⟩ _ 3 _ _
      (by decide +kernel) List.mem_cons_self⟩

end

end PicoOs.Tools
