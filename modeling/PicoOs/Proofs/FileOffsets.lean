import PicoOs.Proofs.FileRuns

/-! The offsets of the handles on memory files. A write appends and moves its own handle by
what it appends, so that no offset comes behind the end, until a file is truncated that
another handle has read from. -/

namespace PicoOs.Kernel
open Library PicoOs.Std FileSystem

variable {fs after : FileSystem} {handle : VirtualFileHandle} {file : FileRef}

def Lengthens (before after : FileSystem) : Prop :=
  ∀ file < before.next, ∀ data, (before.files file).kind = .memoryFile data →
    ∃ more, (after.files file).kind = .memoryFile more ∧ data.length ≤ more.length

namespace Lengthens

private theorem append (fs : FileSystem) (file : FileRef) (bytes : List UInt8) :
    Lengthens fs (fs.modify file ((fs.files file).append bytes)) := by
  intro other old data isMemory
  by_cases same : other = file
  · subst same
    rw [modify_same, VirtualFile.append, isMemory]
    exact ⟨data ++ bytes, rfl, by simp⟩
  · rw [modify_other fs _ same]
    exact ⟨data, isMemory, le_refl _⟩

private theorem create (old : file < fs.next) {entries : HashMap ImmutableString FileRef}
    (isDirectory : (fs.files file).entries = some entries)
    (name : ImmutableString) (target : FileRef) :
    Lengthens fs (fs.newMemoryFile.setEntry file name target) := by
  intro other inside data isMemory
  have different : other ≠ file := by
    rintro rfl
    rw [VirtualFile.entries, isMemory] at isDirectory
    cases isDirectory
  have still : fs.newMemoryFile.files other = fs.files other := fs.allocate_old _ inside
  rw [setEntry, modify_other _ _ different, still]
  exact ⟨data, isMemory, le_refl _⟩

end Lengthens

/-- A handle on a memory file is not behind its end. -/
def VirtualFileHandle.Inside (fs : FileSystem) : VirtualFileHandle → Prop
  | .memoryFile file offset =>
      ∃ data, (fs.files file).kind = .memoryFile data ∧ offset ≤ data.length
  | _ => True

namespace VirtualFileHandle

private theorem Inside.lengthens (inside : handle.Inside fs) (fits : handle.Fits fs)
    (lengthens : Lengthens fs after) : handle.Inside after := by
  cases handle with
  | memoryFile file offset =>
    obtain ⟨data, isMemory, le⟩ := inside
    obtain ⟨more, still, longer⟩ := lengthens file fits.1 data isMemory
    exact ⟨more, still, le.trans longer⟩
  | flashFile _ _ | directory _ _ | console => trivial

private theorem Reads.inside {further : VirtualFileHandle} (reads : handle.Reads fs further) :
    further.Inside fs := by
  cases reads with
  | memoryFile isMemory inside stays => exact ⟨_, isMemory, stays⟩
  | flashFile _ _ | directory _ _ | console => trivial

theorem createHandle_inside (valid : fs.Valid) (old : file < fs.next)
    (made : fs.createHandle file = .ok handle) : handle.Inside fs := by
  have fits := createHandle_fits valid old made
  cases handle with
  | memoryFile target offset =>
    obtain ⟨_, data, isMemory⟩ := fits
    rw [createHandle_start made]
    exact ⟨data, isMemory, Nat.zero_le _⟩
  | flashFile _ _ | directory _ _ | console => trivial

end VirtualFileHandle

namespace ProcessFiles
variable {process : ProcessFiles} {fd : Int}

def Inside (fs : FileSystem) (process : ProcessFiles) : Prop :=
  ∀ fd handle, process.handles.getOpt fd = some handle → handle.Inside fs

private theorem Inside.lengthens (inside : process.Inside fs) (fits : process.Fits fs)
    (lengthens : Lengthens fs after) : process.Inside after :=
  fun fd handle held => (inside fd handle held).lengthens (fits.handles fd handle held) lengthens

theorem Inside.set (inside : process.Inside fs) (right : handle.Inside fs) {fd : Int}
    {nextHandleId : Nat} {workingDirectory : Path} :
    Inside fs ⟨workingDirectory, process.handles.set fd handle, nextHandleId⟩ := by
  intro other found held
  obtain ⟨_, rfl⟩ | ⟨_, before⟩ := HashMap.getOpt_set_cases held
  · exact right
  · exact inside other found before

private theorem addStandardHandle_inside (valid : fs.Valid) {ttyFile : FileRef}
    (old : ttyFile < fs.next) {added : ProcessFiles}
    (inside : process.Inside fs) (done : addStandardHandle fs ttyFile process fd = .ok added) :
    added.Inside fs := by
  obtain ⟨handle, made, done⟩ := bind_ok.mp done
  obtain ⟨_, done⟩ := require_bind_ok.mp done
  cases Except.ok.inj done
  exact inside.set (VirtualFileHandle.createHandle_inside valid old made)

theorem construct_inside (valid : fs.Valid) (done : construct fs = .ok process) :
    process.Inside fs := by
  have start : Inside fs ⟨.root, .empty, 0⟩ := fun _ _ held => (nomatch held)
  refine construct_keeps start (fun ttyFile found before fd added inside made => ?_) done
  exact addStandardHandle_inside valid (valid.closed.lookup found) inside made

end ProcessFiles

namespace KernelFiles
variable {kernel after start : KernelFiles} {process : Nat} {call : SystemCall}

/-- What is claimed of a state: the sizes are right, no handle on a memory file is behind its
end, and no read of one fails. -/
structure Contained (kernel : KernelFiles) : Prop where
  sizes : ∀ file < kernel.fileSystem.next, ∀ data, (kernel.fileSystem.files file).kind =
    .memoryFile data →
    (kernel.fileSystem.files file).size = data.length
  offsets : ∀ process < kernel.next, ∀ fd file offset, (kernel.processes process).handles.getOpt
    fd = some (.memoryFile file offset) →
    offset ≤ (kernel.fileSystem.files file).size
  reads : ∀ process < kernel.next, ∀ fd file offset, (kernel.processes process).handles.getOpt fd =
    some (.memoryFile file offset) →
    ∀ surroundings count, kernel.sysRead surroundings process fd count ≠ .error .verify

/-- No call truncates a memory file while a handle on it is not at the start. -/
def Undisturbed (kernel : KernelFiles) (event : FileEvent) : Prop :=
  ∀ pathname flags mode path file, event.call = .open pathname flags mode →
    resolve (kernel.processes event.process) pathname = .ok path →
      kernel.fileSystem.tryLookup path = .ok (.ok file) →
    flags &&& O_TRUNC ≠ 0 → flags &&& O_DIRECTORY = 0 →
      (kernel.fileSystem.files file).format = ModeFlags.regular →
    ∀ process < kernel.next, ∀ fd offset, (kernel.processes process).handles.getOpt fd =
      some (.memoryFile file offset) → offset = 0

def Inside (kernel : KernelFiles) : Prop :=
  ∀ process < kernel.next, (kernel.processes process).Inside kernel.fileSystem

private theorem Inside.contained (inside : kernel.Inside) (valid : kernel.Valid) :
    kernel.Contained where
  sizes file old data isMemory :=
    (valid.rooted.valid.files file old).size data (VirtualFile.content_memoryFile isMemory)
  offsets process running fd file offset held := by
    obtain ⟨old, _⟩ := (valid.processes process running).handles fd _ held
    obtain ⟨data, isMemory, le⟩ := inside process running fd _ held
    rw [(valid.rooted.valid.files file old).size data (VirtualFile.content_memoryFile isMemory)]
    exact le
  reads process running fd file offset held surroundings count crashed := by
    obtain ⟨data, isMemory, le⟩ := inside process running fd _ held
    simp only [sysRead, ProcessFiles.getFileHandle, must, held, readHandle, isMemory, readData,
      slice, require, le, if_true, bind,
      Except.bind] at crashed
    cases crashed

private theorem Contained.inside (contained : kernel.Contained) (valid : kernel.Valid) :
    kernel.Inside := by
  intro process running fd handle held
  cases handle with
  | memoryFile file offset =>
    obtain ⟨old, data, isMemory⟩ := (valid.processes process running).handles fd _ held
    refine ⟨data, isMemory, ?_⟩
    rw [← contained.sizes file old data isMemory]
    exact contained.offsets process running fd file offset held
  | flashFile _ _ | directory _ _ | console => trivial

private theorem Inside.update {fs : FileSystem} {files : ProcessFiles} (changed : files.Inside fs)
    (others : ∀ other < kernel.next, other ≠ process → (kernel.processes other).Inside fs) :
    ∀ other < kernel.next, (Function.update kernel.processes process files other).Inside fs := by
  intro other running
  rw [Function.update_apply]
  split
  next => exact changed
  next different => exact others other running different

private theorem truncated_inside {fs : FileSystem} {file : FileRef} {handle : VirtualFileHandle}
    (inside : handle.Inside fs)
    (start : ∀ offset, handle = .memoryFile file offset → offset = 0) :
    handle.Inside (fs.modify file { fs.files file with kind := .memoryFile [], size := 0 }) := by
  cases handle with
  | memoryFile other offset =>
    by_cases same : other = file
    · subst same
      rw [start offset rfl]
      exact ⟨[], by rw [modify_same], Nat.zero_le _⟩
    · obtain ⟨data, isMemory, le⟩ := inside
      exact ⟨data, by rw [modify_other fs _ same, isMemory], le⟩
  | flashFile _ _ | directory _ _ | console => trivial

/-- The step lemma. -/
theorem Serves.inside (serves : kernel.Serves process call after) (valid : kernel.Valid)
    (running : process < kernel.next)
    (inside : kernel.Inside) {surroundings : Surroundings}
    (undisturbed : kernel.Undisturbed ⟨process, call, surroundings⟩) :
    after.Inside := by
  have fits := valid.processes process running
  have own := inside process running
  have lengthened {fs : FileSystem} (lengthens : Lengthens kernel.fileSystem fs) :
      ∀ other < kernel.next, (kernel.processes other).Inside fs :=
    fun other old => (inside other old).lengthens (valid.processes other old) lengthens
  cases serves with
  | nothing => exact inside
  | reads held reads idle =>
      exact Inside.update (own.set reads.inside) fun other old _ => inside other old
  | @writes fd bytes file offset held =>
    have lengthens := Lengthens.append kernel.fileSystem file bytes
    have moved : VirtualFileHandle.Inside (kernel.fileSystem.modify file ((kernel.fileSystem.files file).append bytes))
        (.memoryFile file (offset + bytes.length)) := by
      obtain ⟨data, isMemory, le⟩ := own fd _ held
      refine ⟨data ++ bytes, ?_, ?_⟩
      · rw [modify_same, VirtualFile.append, isMemory]
      · rw [List.length_append]
        exact Nat.add_le_add_right le _
    exact Inside.update ((lengthened lengthens process running).set moved) fun other old _ =>
      lengthened lengthens other old
  | prints held =>
    have console : VirtualFileHandle.Inside kernel.fileSystem .console := trivial
    exact Inside.update (own.set console) fun other old _ => inside other old
  | @opens pathname flags mode path result after resolved opens =>
    cases opens with
    | failed error => exact inside
    | @opened file fs handle files made =>
      obtain ⟨still, _, old⟩ := opened_continues valid.rooted.valid files
      have new := VirtualFileHandle.createHandle_inside still old made
      suffices others : ∀ other < kernel.next, (kernel.processes other).Inside fs from
        Inside.update ((others process running).set new) fun other old _ => others other old
      cases files with
      | found present => exact inside
      | @truncated _ data present asked plain regular isMemory =>
        intro other old fd handle held
        refine truncated_inside (inside other old fd handle held) ?_
        rintro offset rfl
        exact undisturbed pathname flags mode path file rfl resolved present asked plain regular
          other old fd offset held
      | @created parent directory name entries asked missing up last found isDirectory unused =>
        exact lengthened (.create (valid.rooted.valid.closed.existing found) isDirectory name _)
  | @spawns pathname fileActions attributes arguments environment created constructed =>
    have made := ProcessFiles.construct_inside valid.rooted.valid constructed
    have new : ProcessFiles.Inside kernel.fileSystem
      { created with workingDirectory := (kernel.processes process).workingDirectory } := made
    intro other old
    have updated : ProcessFiles.Inside kernel.fileSystem
      (Function.update kernel.processes kernel.next
        { created with workingDirectory := (kernel.processes process).workingDirectory } other) := by
      rw [Function.update_apply]
      split
      next => exact new
      next notNew => exact inside other (Nat.lt_of_le_of_ne (Nat.le_of_lt_succ old) notNew)
    exact updated
  | @enters pathname path file found isDirectory =>
    have moved : ProcessFiles.Inside kernel.fileSystem
      { kernel.processes process with workingDirectory := path } := own
    exact Inside.update moved fun other old _ => inside other old

private theorem sysOpen_truncates {pathname : ImmutableString} {flags : UInt32} {path : Path}
    {file : FileRef} {result : Return}
    (served : kernel.sysOpen process pathname flags = .ok (result, after))
    (resolved : resolve (kernel.processes process) pathname = .ok path)
    (found : kernel.fileSystem.tryLookup path = .ok (.ok file))
    (asked : flags &&& O_TRUNC ≠ 0) (plain : flags &&& O_DIRECTORY = 0)
    (regular : (kernel.fileSystem.files file).format = ModeFlags.regular) :
    ∃ handle, after = { kernel.modifyProcess process ((kernel.processes process).addFileHandle handle).2 with
      fileSystem := kernel.fileSystem.modify file { kernel.fileSystem.files file with kind := .memoryFile [], size := 0 } } := by
  have existing : kernel.openExisting process file flags = .ok (result, after) := by
    simpa only [sysOpen, resolved, found, bind, Except.bind] using served
  unfold openExisting at existing
  rw [if_neg (fun directory => directory.1 plain), if_pos asked,
    if_neg (not_ne_iff.mpr regular)] at existing
  obtain ⟨truncated, done, opened⟩ := bind_ok.mp existing
  obtain ⟨data, _, rfl⟩ := VirtualFile.truncate_ok done
  obtain ⟨handle, _, opened⟩ := bind_ok.mp opened
  exact ⟨handle, (Prod.mk.inj (Except.ok.inj opened)).2.symm⟩

/-- A handle that was not at the start of a truncated file is behind its end. -/
theorem Inside.undisturbed {event : FileEvent} (inside : after.Inside) (valid : kernel.Valid)
    (running : event.process < kernel.next)
    (executed : machine.execute kernel event = .ok after) : kernel.Undisturbed event := by
  intro pathname flags mode path file call resolved found asked plain regular other
    old fd offset held
  obtain ⟨process, call, surroundings⟩ := event
  subst call
  obtain ⟨⟨result, last⟩, served, same⟩ : ∃ value, kernel.sysOpen process pathname flags =
    .ok value ∧ value.2 = after := by
    have mapped : Prod.snd <$> kernel.sysOpen process pathname flags = .ok after := executed
    cases returned : kernel.sysOpen process pathname flags with
    | error fault => rw [returned] at mapped; cases mapped
    | ok value => rw [returned] at mapped; exact ⟨value, rfl, Except.ok.inj mapped⟩
  obtain rfl : last = after := same
  obtain ⟨handle, rfl⟩ := sysOpen_truncates served resolved found asked plain regular
  have kept : (Function.update kernel.processes process ((kernel.processes process).addFileHandle handle).2 other).handles.getOpt fd =
      some (.memoryFile file offset) := by
    rw [Function.update_apply]
    split
    next same =>
      subst same
      have numbered := (valid.processes other old).numbered fd _ held
      rw [← held]
      exact HashMap.getOpt_set_other _ handle (Int.ne_of_lt numbered)
    next => exact held
  obtain ⟨data, isMemory, le⟩ := inside other old fd _ kept
  have emptied : (kernel.fileSystem.modify file { kernel.fileSystem.files file with kind := .memoryFile [], size := 0 }).files file =
      { kernel.fileSystem.files file with kind := .memoryFile [], size := 0 } := modify_same ..
  rw [emptied] at isMemory
  obtain rfl : [] = data := FileKind.memoryFile.inj isMemory
  exact Nat.le_zero.mp le

theorem boot_inside {memory : Memory} {flashRoot depth : Nat} {uart : UART}
    (booted : boot memory flashRoot depth uart = .ok kernel) :
    kernel.Inside := by
  obtain ⟨fs, files, booted⟩ := bind_ok.mp booted
  obtain ⟨shellFile, _, booted⟩ := bind_ok.mp booted
  split at booted
  next =>
    obtain ⟨created, constructed, booted⟩ := bind_ok.mp booted
    cases Except.ok.inj booted
    exact fun _ _ => ProcessFiles.construct_inside (bootFiles_rooted files).valid constructed
  next => cases booted

/-- The offsets stay inside of the files for as long as no file is truncated while a handle
is in the middle of it, and no longer. -/
theorem offsets_contained_iff {memory : Memory} {flashRoot depth : Nat} {uart : UART}
    {history : List (KernelFiles × FileEvent)}
    (booted : boot memory flashRoot depth uart = .ok start)
    (run : machine.Run start history kernel) :
    ((∀ entry ∈ history, entry.1.Contained) ∧ kernel.Contained) ↔
    ∀ entry ∈ history, entry.1.Undisturbed entry.2 := by
  induction run with
  | start =>
      exact ⟨fun _ => nofun, fun _ => ⟨nofun, (boot_inside booted).contained (boot_valid booted)⟩⟩
  | @step history state event next run permitted executed ih =>
    have valid := reachable_valid (boot_valid booted) ⟨history, run⟩
    have serves := execute_serves valid executed
    have nextValid := (serves.valid valid permitted).1
    simp only [List.forall_mem_append, List.forall_mem_singleton]
    constructor
    · rintro ⟨⟨earlier, before⟩, last⟩
      exact ⟨ih.mp ⟨earlier, before⟩, (last.inside nextValid).undisturbed valid permitted executed⟩
    · rintro ⟨earlier, undisturbed⟩
      obtain ⟨contained, before⟩ := ih.mpr earlier
      exact ⟨⟨contained, before⟩,
        (serves.inside valid permitted (before.inside valid) undisturbed).contained nextValid⟩

def truncation : List FileEvent :=
  [.quiet 0 (.open (literal "/example.txt") 0 0), .quiet 0 (.read 3 14), .quiet 0 (.open (literal "/example.txt") O_TRUNC 0)]

def fault? {α : Type} : Except Crash α → Option Crash
  | .ok _ => none
  | .error fault => some fault

/-- Then the first handle is behind the end, and a read through it stops the kernel. -/
theorem offset_behind_end : ∃ start kernel, boot shellFlash 4096 1
    (.initial 0 fun _ => 0) = .ok start ∧
    machine.Reachable start kernel ∧
    (kernel.processes 0).handles.getOpt 3 = some (.memoryFile 6 14) ∧
    fault? (kernel.sysRead ⟨fun _ => [], fun _ => true, 0, 1⟩ 0 3 1) = some .verify ∧
    ¬kernel.Contained := by
  have played : ((boot shellFlash 4096 1 (.initial 0 fun _ => 0)).toOption.bind fun start =>
      (machine.after start truncation).map fun kernel =>
        ((kernel.processes 0).handles.getOpt 3, decide (0 < kernel.next),
        fault? (kernel.sysRead ⟨fun _ => [], fun _ => true, 0, 1⟩ 0 3 1))) =
      some (some (.memoryFile 6 14), true, some .verify) := by decide +kernel
  obtain ⟨start, booted, rest⟩ := Option.bind_eq_some_iff.mp played
  obtain ⟨kernel, ran, facts⟩ := Option.map_eq_some_iff.mp rest
  obtain ⟨held, facts⟩ := Prod.mk.inj facts
  obtain ⟨running, crashed⟩ := Prod.mk.inj facts
  refine ⟨start, kernel, toOption_some.mp booted, Machine.reachable_after ran, held, crashed,
    fun contained => ?_⟩
  have fine := contained.reads 0 (of_decide_eq_true running) 3 6 14 held
    ⟨fun _ => [], fun _ => true, 0, 1⟩ 1
  cases returned : kernel.sysRead ⟨fun _ => [], fun _ => true, 0, 1⟩ 0 3 1 with
  | ok value => rw [returned] at crashed; cases crashed
  | error fault =>
    rw [returned] at crashed fine
    exact fine (congrArg Except.error (Option.some.inj crashed))

/-- A run in which a file is truncated that no handle has read from. -/
theorem offsets_contained_iff_fresh :
    ∃ start kernel history, boot shellFlash 4096 1 (.initial 0 fun _ => 0) = .ok start ∧
    machine.Run start history kernel ∧ history.map Prod.snd = [.quiet 0 (.open (literal "/example.txt") O_TRUNC 0),
      .quiet 0 (.write 3 [1, 2, 3])] ∧
    (((∀ entry ∈ history, entry.1.Contained) ∧ kernel.Contained) ↔ ∀ entry ∈ history,
      entry.1.Undisturbed entry.2) := by
  have played : ((boot shellFlash 4096 1 (.initial 0 fun _ => 0)).toOption.bind fun start =>
      machine.after start [.quiet 0 (.open (literal "/example.txt") O_TRUNC 0), .quiet 0 (.write 3 [1, 2, 3])]).isSome := by
    decide +kernel
  obtain ⟨kernel, ran⟩ := Option.isSome_iff_exists.mp played
  obtain ⟨start, booted, ran⟩ := Option.bind_eq_some_iff.mp ran
  obtain ⟨history, run, events⟩ := Machine.run_after ran
  have began := toOption_some.mp booted
  exact ⟨start, kernel, history, began, run, events, offsets_contained_iff began run⟩

end KernelFiles
end PicoOs.Kernel
